import DmaLink.CommandLine

namespace DmaLink.Main

/-- The code of the system for a name looked up in what is no directory. -/
def notDirectoryCode : UInt32 := 20

/-- A tree in which the file at a path stands. What is there but cannot be read as a file counts as
    a directory. -/
def loadFile (path : String) : IO FileTree := do
  try
    let bytes ← IO.FS.readBinFile path
    return .ofList [(path, .file (.ofBytes bytes.toList))]
  catch error =>
    match error with
    | .noFileOrDirectory .. => return .base
    | .inappropriateType _ code _ =>
      return if code = notDirectoryCode then .base else .ofList [(path, .directory)]
    | _ => return .ofList [(path, .directory)]

/-- The addresses that a process of a 64-bit system can be given. -/
def addressSpace : Nat := 0x800000000000

/-- The values of the variables that override settings. -/
def loadVariables : List Settings.Variable → IO (List (String × String))
  | [] => return []
  | v :: rest => do
    let found ← IO.getEnv v.name
    let others ← loadVariables rest
    return (found.map fun value => (v.name, value)).toList ++ others

end DmaLink.Main

/-- Runs the command line in the environment that it finds and on the file that it is asked for, and
    prints what it leaves. -/
def main (arguments : List String) : IO UInt32 := do
  let files ←
    match DmaLink.CommandLine.command? arguments with
    | some (.layer path) => DmaLink.Main.loadFile path
    | _ => pure .base
  let values ← DmaLink.Main.loadVariables DmaLink.Settings.Variable.all
  let lookup := fun name => values.lookup name
  let outcome := DmaLink.CommandLine.run DmaLink.Main.addressSpace arguments lookup files
  IO.print outcome.output
  IO.eprint outcome.errors
  return UInt32.ofNat outcome.exit
