import DmaLink.FileTree

namespace DmaLink

/-- The direction of a line. -/
inductive Direction where
  | input
  | output
deriving DecidableEq, Repr

/-- The text written to set a direction. -/
def Direction.name : Direction → String
  | .input => "in"
  | .output => "out"

namespace ResetLine

/-- A request to a line. -/
inductive Call where
  | direction (direction : Direction)
  /-- Drives the line; any value but zero is high. -/
  | value (value : Nat)
deriving DecidableEq, Repr

/-- The requests that pulse the line: it is made an output, raised and lowered. -/
def pulse : List Call := [.direction .output, .value 1, .value 0]

end ResetLine

/-- A reset line. A wired line is a directory with the files `direction` and `value` below the root
    of the line controller. A line that is not wired accepts every request and does nothing. -/
inductive ResetLine where
  /-- The line with this number, whose files lie in this directory. -/
  | wired (line : Nat) (directory : String)
  | unwired
deriving DecidableEq, Repr

namespace ResetLine

/-- Where the line controller is found. -/
def defaultRoot : String := "/sys/class/gpio"

/-- The bytes of an ASCII text. -/
def textBytes (text : String) : List UInt8 := text.toUTF8.toList

/-- Opens a line below a root. The line is exported if its directory is not there. -/
def openAt (root : String) (line : Nat) (files : FileTree) :
    Except LinkError (ResetLine × FileTree) :=
  let directory := s!"{root}/gpio{line}"
  match files.find directory with
  | .ok _ => .ok (.wired line directory, files)
  | .error _ =>
    let path := s!"{root}/export"
    match files.writeFile path (textBytes (toString line)) with
    | .error fault => .error (.gpio (.cannotExport line path fault))
    | .ok files => .ok (.wired line directory, files)

/-- Opens the configured line, if one is configured. -/
def openConfigured (line : Option Nat) (files : FileTree) :
    Except LinkError (ResetLine × FileTree) :=
  match line with
  | none => .ok (.unwired, files)
  | some line => openAt defaultRoot line files

/-- The number of a wired line. -/
def line? : ResetLine → Option Nat
  | .wired line _ => some line
  | .unwired => none

/-- Writes one of the files of a line. -/
def writeFile (directory name text : String) (files : FileTree) :
    Except LinkError Unit × FileTree :=
  let path := s!"{directory}/{name}"
  match files.writeFile path (textBytes text) with
  | .error fault => (.error (.gpio (.cannotWrite path fault)), files)
  | .ok files => (.ok (), files)

/-- Makes a request to a line. -/
def call (l : ResetLine) (request : Call) (files : FileTree) : Except LinkError Unit × FileTree :=
  match l, request with
  | .unwired, _ => (.ok (), files)
  | .wired _ directory, .direction direction => writeFile directory "direction" direction.name files
  | .wired _ directory, .value value =>
    writeFile directory "value" (if value = 0 then "0" else "1") files

/-- A line that keeps a list of the requests made to it, each with the number of register writes
    before it, and refuses those whose index is listed. -/
structure Probe where
  /-- The requests so far, with the count of register writes at each. -/
  calls : Array (Call × Nat) := #[]
  /-- The indices of the requests that are refused. -/
  refusals : List Nat := []
deriving DecidableEq, Repr

/-- Makes a request to a probe after so many register writes. -/
def Probe.call (p : Probe) (request : Call) (writes : Nat) : Except LinkError Unit × Probe :=
  let index := p.calls.size
  let p := { p with calls := p.calls.push (request, writes) }
  if index ∈ p.refusals then (.error (.gpio (.refused index)), p) else (.ok (), p)

/-- The text that a recorded request is shown by. -/
def Probe.describe : Call × Nat → String
  | (.direction direction, writes) => "direction=" ++ direction.name ++ s!"@{writes}"
  | (.value value, writes) => s!"value={value}@{writes}"

end ResetLine

end DmaLink
