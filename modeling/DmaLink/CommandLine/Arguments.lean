import DmaLink.Layout
import DmaLink.Text.Numeral

namespace DmaLink.CommandLine

/-- The pages of help. -/
inductive Topic where
  | overview
  | layer
  | status
  | loopback
  | help
deriving DecidableEq, Repr

/-- The options of a loopback run. -/
structure LoopbackOptions where
  /-- Use the simulated device. -/
  simulated : Bool := false
  /-- Number of words to send. -/
  words : Nat := 256
  /-- Wait for interrupts instead of looking at the status. -/
  interrupt : Bool := false
  /-- Bytes per read chunk. -/
  readLength : Nat := Layout.minReadBytes
deriving DecidableEq, Repr

/-- What the command line asks for. Options stand in any order and may be given once each; one with
    a value takes it from the next argument or from behind an equals sign. -/
inductive Command where
  | version
  | help (topic : Topic)
  | layer (path : String)
  | status (simulated : Bool)
  | loopback (options : LoopbackOptions)
deriving DecidableEq, Repr

/-- Reads the value of an option that counts something. -/
def count? (value : String) : Option Nat := (Text.numeral 10 Size.limit value.toList).toOption

/-- Whether an argument asks for help, be it in a cluster of short options that begins so. -/
def asksHelp (argument : String) : Bool :=
  argument == "--help" || argument.toList.take 2 == ['-', 'h']

/-- Whether an argument looks like an option. A lone hyphen is a value. -/
def isOption (argument : String) : Bool :=
  argument.toList.head? == some '-' && argument != "-"

/-- Reads the arguments of `layer`, once a path may have been found and once options may have been
    ended by `--`. -/
def layerCommand : (path : Option String) → (ended : Bool) → List String → Option Command
  | path, _, [] => path.map .layer
  | path, ended, argument :: rest =>
    if !ended && argument == "--" then layerCommand path true rest
    else if !ended && asksHelp argument then some (.help .layer)
    else if !ended && isOption argument then none
    else if path.isSome || argument.isEmpty then none
    else layerCommand (some argument) ended rest

/-- Reads the arguments of `status`. -/
def statusCommand : (simulated : Bool) → List String → Option Command
  | simulated, [] => some (.status simulated)
  | simulated, argument :: rest =>
    if asksHelp argument then some (.help .status)
    else if argument == "--" && rest.isEmpty then some (.status simulated)
    else if argument == "--sim" && !simulated then statusCommand true rest
    else none

/-- The value of an option, when an argument is the option with its value behind an equals
    sign. -/
def inlineValue? (option argument : String) : Option String :=
  let start := option.toList ++ ['=']
  if start.isPrefixOf argument.toList then some (String.ofList (argument.toList.drop start.length))
  else none

/-- What has been read of the arguments of `loopback`. A value that is missing takes its
    default. -/
structure LoopbackArguments where
  simulated : Bool := false
  interrupt : Bool := false
  words : Option Nat := none
  readLength : Option Nat := none

/-- The options that were read. -/
def LoopbackArguments.options (a : LoopbackArguments) : LoopbackOptions :=
  let defaults : LoopbackOptions := {}
  { simulated := a.simulated
    words := a.words.getD defaults.words
    interrupt := a.interrupt
    readLength := a.readLength.getD defaults.readLength }

/-- Takes an option with its value. -/
def LoopbackArguments.take (a : LoopbackArguments) (option value : String) :
    Option LoopbackArguments := do
  let value ← count? value
  if option == "--words" then
    if a.words.isSome then none else some { a with words := some value }
  else if a.readLength.isSome then none
  else some { a with readLength := some value }

/-- The options of `loopback` that take a value. -/
def valueOptions : List String := ["--words", "--read-len"]

/-- Reads the arguments of `loopback`. -/
def loopbackCommand : LoopbackArguments → List String → Option Command
  | a, [] => some (.loopback a.options)
  | a, [argument] =>
    if asksHelp argument then some (.help .loopback)
    else if argument == "--" then some (.loopback a.options)
    else if argument == "--sim" && !a.simulated then
      loopbackCommand { a with simulated := true } []
    else if argument == "--interrupt" && !a.interrupt then
      loopbackCommand { a with interrupt := true } []
    else do
      let option ← valueOptions.find? fun option => (inlineValue? option argument).isSome
      let taken ← a.take option (← inlineValue? option argument)
      loopbackCommand taken []
  | a, argument :: next :: rest =>
    if asksHelp argument then some (.help .loopback)
    else if argument == "--sim" && !a.simulated then
      loopbackCommand { a with simulated := true } (next :: rest)
    else if argument == "--interrupt" && !a.interrupt then
      loopbackCommand { a with interrupt := true } (next :: rest)
    else if argument ∈ valueOptions then do
      let taken ← a.take argument next
      loopbackCommand taken rest
    else do
      let option ← valueOptions.find? fun option => (inlineValue? option argument).isSome
      let taken ← a.take option (← inlineValue? option argument)
      loopbackCommand taken (next :: rest)

/-- Reads the arguments of `help`. -/
def helpCommand : List String → Option Command
  | [] => some (.help .overview)
  | ["layer"] => some (.help .layer)
  | ["status"] => some (.help .status)
  | ["loopback"] => some (.help .loopback)
  | ["help"] => some (.help .help)
  | _ => none

/-- What the arguments ask for; none if they are not used as they should be. -/
def command? : List String → Option Command
  | "layer" :: rest => layerCommand none false rest
  | "status" :: rest => statusCommand false rest
  | "loopback" :: rest => loopbackCommand {} rest
  | "help" :: rest => helpCommand rest
  | argument :: _ =>
    if asksHelp argument then some (.help .overview)
    else if argument == "--version" || argument.toList.take 2 == ['-', 'V'] then some .version
    else none
  | [] => none

end DmaLink.CommandLine
