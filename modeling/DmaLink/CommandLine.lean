import DmaLink.CommandLine.Help
import DmaLink.Mapped
import DmaLink.Network
import DmaLink.Queue.Bench
import DmaLink.Settings.Override

namespace DmaLink.CommandLine

/-- What a run leaves behind. -/
structure Outcome where
  exit : Nat
  output : String
  errors : String
deriving DecidableEq, Repr

/-- Why a command fails. -/
inductive Failure where
  /-- A failure of the command itself. -/
  | plain (message : String)
  /-- What was being done, and the causes of its failure, each the reason of the one before. -/
  | caused (context : String) (causes : List String)
  | abandoned (cause : Trap)
deriving DecidableEq, Repr

/-- The causes that an error of the link brings: itself, and the transport fault behind it. -/
def causesOfLink (cause : LinkError) : List String :=
  match cause with
  | .io fault => [cause.message, fault.message]
  | _ => [cause.message]

/-- The causes that an error of reading layers brings. -/
def causesOfLayer (cause : LayerError) : List String :=
  match cause with
  | .io fault => [cause.message, fault.message]
  | _ => [cause.message]

namespace Failure

/-- The failure that an error of the link is in a context. -/
def ofLink (context : String) (cause : LinkError) : Failure := .caused context (causesOfLink cause)

/-- The failure that a fault is in a context. -/
def ofFault (context : String) : Fault → Failure
  | .error cause => .ofLink context cause
  | .trap cause => .abandoned cause

/-- A cause behind a lead. The lines of it after the first stand under the first. -/
def indented (lead cause : String) : String :=
  let margin := List.replicate lead.length ' '
  lead ++ String.ofList (cause.toList.flatMap fun c => if c = '\n' then '\n' :: margin else [c])

/-- A list of causes, each on lines of its own. A single one stands alone, several are
    numbered. -/
def causeLines (causes : List String) : List String :=
  match causes with
  | [cause] => [indented "    " cause]
  | causes => causes.mapIdx fun i cause => indented s!"    {i}: " cause

/-- What a failure prints. A program that is ended by a signal prints nothing. -/
def text : Failure → String
  | .plain message => "Error: " ++ message ++ "\n"
  | .caused context [] => "Error: " ++ context ++ "\n"
  | .caused context causes =>
    "Error: " ++ context ++ "\n\nCaused by:\n" ++ String.join ((causeLines causes).map (· ++ "\n"))
  | .abandoned .pageMissing => ""
  | .abandoned cause => cause.message ++ "\n"

/-- The signal that ends a program which touches a page that is missing. -/
def busErrorSignal : Nat := 7

/-- The exit code of a failure. -/
def exit : Failure → Nat
  | .abandoned .pageMissing => 128 + busErrorSignal
  | .abandoned _ => 101
  | _ => 1

end Failure

/-- The printed lines of a command, and how it ends. -/
structure Report where
  lines : List String
  failure : Option Failure := none
deriving DecidableEq, Repr

/-- What a report leaves behind. -/
def Report.outcome (r : Report) : Outcome where
  exit := (r.failure.map Failure.exit).getD 0
  output := String.join (r.lines.map (· ++ "\n"))
  errors := (r.failure.map Failure.text).getD ""

/-- Data words per burst on the simulated device. -/
def simulatedBurstWords : Nat := 1024

/-- The lines of the layers of a network, from number `index` on. A size that does not fit in
    64 bits ends the list behind the line of its layer. -/
def layerLines : (index : Nat) → List Layer → List String → Report
  | _, [], before => ⟨before.reverse, none⟩
  | index, layer :: rest, before =>
    let title := s!"[{index}] " ++ layer.describe
    match layer.inputWords, layer.outputWords with
    | .ok input, .ok output =>
      let line :=
        s!"     weights {layer.weights.length}  biases {layer.biases.length}" ++
        s!"  in {input} words  out {output} words"
      layerLines (index + 1) rest (line :: title :: before)
    | .error cause, _ => ⟨(title :: before).reverse, some (.abandoned cause)⟩
    | _, .error cause => ⟨(title :: before).reverse, some (.abandoned cause)⟩

/-- Lists the layers of a file. -/
def layer (path : String) (files : FileTree) : Report :=
  match Network.ofFile files path with
  | .error cause => ⟨[], some (.caused ("cannot load layers from " ++ path) (causesOfLayer cause))⟩
  | .ok network =>
    let listing := layerLines 0 network.layers ["", s!"Layers: {network.size}"]
    match listing.failure, network.maxOutputWords with
    | none, .ok largest =>
      ⟨listing.lines ++
        ["", s!"Total weights    : {network.totalWeightCount}",
          s!"Largest output   : {largest} words"], none⟩
    | some failure, _ => ⟨listing.lines, some failure⟩
    | none, .error cause => ⟨listing.lines, some (.abandoned cause)⟩

/-- The context of a failure to read the environment. -/
def settingsContext : String := "invalid ZS_* configuration"

/-- Decodes both status registers of the simulated device. -/
def simulatedStatus : Report :=
  let windowWords := 4 * simulatedBurstWords
  let device := Loopback.create windowWords windowWords none
  let line (channel : Channel) : String :=
    ((Engine.report channel).run Loopback.answer device).1
  ⟨[line .mm2s, line .s2mm], none⟩

/-- Decodes both status registers of the mapped link. -/
def mappedStatus (room : Nat) (lookup : String → Option String) (files : FileTree) : Report :=
  match Settings.ofEnvironment lookup with
  | .error cause => ⟨[], some (.ofLink settingsContext cause)⟩
  | .ok settings =>
    match Mapped.openEngine room files settings with
    | .error fault => ⟨[], some (.ofFault "cannot map the DMA block" fault)⟩
    | .ok session =>
      match ((Engine.report .mm2s).attempt Mapped.answer session.link).1 with
      | .error cause => ⟨[], some (.abandoned cause)⟩
      | .ok mm2s =>
        match ((Engine.report .s2mm).attempt Mapped.answer session.link).1 with
        | .error cause => ⟨[mm2s], some (.abandoned cause)⟩
        | .ok s2mm => ⟨[mm2s, s2mm], none⟩

/-- The test pattern: word `i`, counted from one, is `i` times a number with a one in each of its
    lower bytes. -/
def pattern (count : Nat) : List UInt64 :=
  (List.range count).map fun i => UInt64.ofNat (i + 1) * 0x010101010101

/-- The words of each window of the simulated device: four bursts, or two read chunks if they are
    longer. A read length past what is accepted is refused later, so it asks for no more. -/
def simulatedWindowWords (readLength : Nat) : Nat :=
  max (4 * simulatedBurstWords) (2 * min readLength Layout.maxReadBytes / wordBytes)

/-- The lines that say what was received. -/
def receivedLines (bytes : Nat) (received : List UInt64) : List String :=
  let census := Census.ofWords received
  [s!"Received     : {bytes} bytes ({received.length} words)",
    s!"Control words: {census.zero} zero, {census.idle} idle, {census.endMarked} end-of-layer"]

/-- The verdict on what was received: the words that differ from the pattern, and those that are
    missing. -/
def verdict (sent received : List UInt64) (dropped : Nat) (before : List String) : Report :=
  let mismatched := (sent.zip received).countP fun (word, back) => word != back
  let missing := sent.length - received.length
  if 0 < dropped then
    ⟨before, some (.plain s!"{dropped} buffers dropped by the write worker")⟩
  else if 0 < mismatched ∨ 0 < missing then
    ⟨before, some (.plain s!"{mismatched} mismatched and {missing} missing words")⟩
  else ⟨before ++ [s!"OK: {sent.length} words echoed"], none⟩

/-- The line that a loopback test starts with. -/
def LoopbackOptions.title (options : LoopbackOptions) (mode : SyncMode) : String :=
  s!"Loopback: {options.words} words, {options.readLength} byte reads, " ++ mode.name ++ " sync"

/-- Sends the test pattern through a queue, reads it back and compares. -/
def echo {σ : Type} [Device σ] (bench : Queue.Bench σ) (options : LoopbackOptions) : Report :=
  let title := options.title bench.queue.engine.mode
  match bench.initialise options.readLength with
  | (.error cause, _) =>
    ⟨[title], some (.ofLink s!"init with {options.readLength} byte reads" cause)⟩
  | (.ok (), bench) =>
    let sent := pattern options.words
    match bench.enqueue [sent] with
    | (_, bench) =>
      match bench.read [] with
      | (reception, bench) =>
        let bench := bench.stop
        match reception.ending with
        | .failed cause => ⟨[title], some (.ofLink "layer read failed" cause)⟩
        | .unfinished => ⟨[title], some (.plain "layer read not finished")⟩
        | .complete bytes =>
          verdict sent reception.buffer bench.queue.dropped
            (title :: receivedLines bytes reception.buffer)

/-- How the simulated device of a loopback test is waited for. -/
def LoopbackOptions.mode (options : LoopbackOptions) : SyncMode :=
  if options.interrupt then .interrupt else .poll

/-- The simulated device of a loopback test. -/
def LoopbackOptions.device (options : LoopbackOptions) : Loopback :=
  let windowWords := simulatedWindowWords options.readLength
  .create windowWords windowWords (if options.interrupt then some {} else none)

/-- Runs the loopback test on the simulated device. -/
def simulatedLoopback (options : LoopbackOptions) : Report :=
  match Size.mul 2 options.readLength with
  | .error cause => ⟨[], some (.abandoned cause)⟩
  | .ok _ =>
    match Engine.create options.mode (options.device.geometry simulatedBurstWords) with
    | .error (.error cause) => ⟨[], some (.plain cause.message)⟩
    | .error (.trap cause) => ⟨[], some (.abandoned cause)⟩
    | .ok engine => echo { queue := { engine }, link := options.device } options

/-- Runs the loopback test on the mapped link as far as opening it and its reset line. -/
def mappedLoopback (room : Nat) (options : LoopbackOptions) (lookup : String → Option String)
    (files : FileTree) : Report :=
  match Settings.ofEnvironment lookup with
  | .error cause => ⟨[], some (.ofLink settingsContext cause)⟩
  | .ok settings =>
    let settings := if options.interrupt then { settings with sync := .interrupt } else settings
    match Mapped.openEngine room files settings with
    | .error fault => ⟨[], some (.ofFault "cannot open the DMA engine" fault)⟩
    | .ok session =>
      match ResetLine.openConfigured settings.resetLine session.link.files with
      | .error cause => ⟨[], some (.plain cause.message)⟩
      | .ok _ => ⟨[], some (.plain "no hardware link in this build")⟩

/-- Runs the loopback test. -/
def loopback (room : Nat) (options : LoopbackOptions) (lookup : String → Option String)
    (files : FileTree) : Report :=
  if options.words = 0 then ⟨[], some (.plain "--words must be at least 1")⟩
  else if options.simulated then simulatedLoopback options
  else mappedLoopback room options lookup files

/-- What a command prints. -/
def Command.report (room : Nat) (lookup : String → Option String) (files : FileTree) :
    Command → Report
  | .version => ⟨["zs 0.1.0"], none⟩
  | .help topic => ⟨topic.lines, none⟩
  | .layer path => CommandLine.layer path files
  | .status true => simulatedStatus
  | .status false => mappedStatus room lookup files
  | .loopback options => CommandLine.loopback room options lookup files

/-- Runs the command line with its arguments, in an environment, among files and in an address space
    with room for `room` bytes of a mapping. Arguments that are not used as they should be end it
    with exit code 2. -/
def run (room : Nat) (arguments : List String) (lookup : String → Option String)
    (files : FileTree) : Outcome :=
  match command? arguments with
  | none => ⟨2, "", "error: invalid arguments\n\nFor more information, try '--help'.\n"⟩
  | some command => (command.report room lookup files).outcome

end DmaLink.CommandLine
