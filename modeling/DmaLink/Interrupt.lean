import DmaLink.Bytes
import DmaLink.Completion
import DmaLink.Duration

namespace DmaLink.Interrupt

/-- The bytes of the word that enables an interrupt again. -/
def rearmBytes : List UInt8 := Bytes.ofUInt32 1

/-- What the far end of a line has come to. -/
inductive FarEnd where
  | listening
  /-- Closed after it had taken all that it was sent back. -/
  | closed
  /-- Closed while bytes that it was sent back were waiting. -/
  | lost
deriving DecidableEq, Repr

/-- One interrupt line between the host and its far end. -/
structure Line where
  /-- Bytes that the host has not taken yet, oldest first. -/
  arriving : List UInt8 := []
  /-- Bytes that the far end has not taken yet, oldest first. -/
  returned : List UInt8 := []
  farEnd : FarEnd := .listening
deriving DecidableEq, Repr

namespace Line

/-- Whether the host can read without waiting. A closed far end is readable at once. -/
def readable (line : Line) : Bool := !line.arriving.isEmpty || line.farEnd != .listening

/-- What the host learns by waiting: whether it can read, or that the far end was lost. -/
def wait (line : Line) : Except LinkError Bool :=
  if line.farEnd = .lost then .error (.io .farEndLost) else .ok line.readable

/-- Makes bytes readable for the host. A closed far end makes none. -/
def feed (line : Line) (bytes : List UInt8) : Line :=
  if line.farEnd = .listening then { line with arriving := line.arriving ++ bytes } else line

/-- Closes the far end. Bytes that it was sent back and has not taken are lost with it. -/
def close (line : Line) : Line :=
  if line.farEnd = .listening then
    { line with returned := [], farEnd := if line.returned.isEmpty then .closed else .lost }
  else line

/-- Takes one acknowledgement. What is there of it is taken even if it is too short. -/
def take (line : Line) : Except LinkError UInt32 × Line :=
  let bytes := line.arriving.take 4
  let line := { line with arriving := line.arriving.drop 4 }
  if bytes.length = 4 then (.ok (Bytes.toUInt32 bytes), line)
  else (.error (.io (.shortAcknowledgement bytes.length)), line)

/-- Whether a line that holds `room` bytes for its far end has no room for one more word. -/
def full (room : Nat) (line : Line) : Bool :=
  line.farEnd == .listening && room < line.returned.length + rearmBytes.length

/-- Sends the word back that enables the interrupt again. On a line that is full this happens only
    after the far end has taken some of what it was sent before. -/
def rearm (line : Line) : Except LinkError Unit × Line :=
  if line.farEnd = .listening then
    (.ok (), { line with returned := line.returned ++ rearmBytes })
  else (.error (.io (.file .brokenPipe)), line)

/-- The far end takes what it was sent back, at most so many bytes of it. -/
def collect (count : Nat) (line : Line) : List UInt8 × Line :=
  (line.returned.take count, { line with returned := line.returned.drop count })

/-- Signals one interrupt: the far end drops what it was sent back and makes one count
    readable. -/
def raise (line : Line) : Line := { line with returned := [] }.feed rearmBytes

end Line

/-- The lines of the two channels. -/
structure Lines where
  mm2s : Line := {}
  s2mm : Line := {}
deriving DecidableEq, Repr

namespace Lines

/-- The line of a channel. -/
def get (lines : Lines) : Channel → Line
  | .mm2s => lines.mm2s
  | .s2mm => lines.s2mm

/-- The lines with that of one channel replaced. -/
def set (lines : Lines) (channel : Channel) (line : Line) : Lines :=
  match channel with
  | .mm2s => { lines with mm2s := line }
  | .s2mm => { lines with s2mm := line }

/-- Takes one acknowledgement from the line of a channel. -/
def take (lines : Lines) (channel : Channel) : Except LinkError UInt32 × Lines :=
  match (lines.get channel).take with
  | (count, line) => (count, lines.set channel line)

/-- Enables the interrupt of a channel again. -/
def rearm (lines : Lines) (channel : Channel) : Except LinkError Unit × Lines :=
  match (lines.get channel).rearm with
  | (result, line) => (result, lines.set channel line)

end Lines

/-- Two interrupt lines, and the register writes made beside them. Registers read as zero and
    there are no windows. -/
structure Wiring where
  lines : Lines := {}
  writes : Array RegisterWrite := #[]

namespace Wiring

/-- What the wiring answers. A wait is decided by one look at the line. -/
def answer : (access : Link.Access) → Wiring → access.Reply × Wiring
  | .readRegister _, w => ((0 : UInt32), w)
  | .writeRegister offset value, w => ((), { w with writes := w.writes.push ⟨offset, value⟩ })
  | .window _ (.load start len), w => (.error (.outOfBounds start len 0), w)
  | .window _ (.store start words), w => (.error (.outOfBounds start words.length 0), w)
  | .pollDone _ _, w => (false, w)
  | .awaitInterrupt channel _, w => ((w.lines.get channel).wait, w)
  | .takeInterrupt channel, w =>
    match w.lines.take channel with
    | (count, lines) => (count, { w with lines })
  | .rearm channel, w =>
    match w.lines.rearm channel with
    | (result, lines) => (result, { w with lines })

/-- Whether an access waits until the far end of its line has taken what it was sent back. -/
def blocks (room : Nat) : Link.Access → Wiring → Bool
  | .rearm channel, w => (w.lines.get channel).full room
  | _, _ => false

/-- Waits for the interrupt of a channel, from a reading of the clock on and for at most a length of
    time, on lines that hold `room` bytes for their far ends. A wait for which no deadline can be
    set is abandoned before it looks at the line. A wait that cannot send its word back has no
    result until the far end makes room. -/
def await (room : Nat) (w : Wiring) (channel : Channel) (now timeout : Duration) :
    Option (Except Fault Unit) × Wiring :=
  match now.deadline timeout with
  | .error cause => (some (.error (.trap cause)), w)
  | .ok _ =>
    match (Completion.interrupt channel timeout.microseconds).runUntil answer (blocks room) w with
    | (.ret result, w) => (some (result.mapError .error), w)
    | (.act _ _, w) => (none, w)

end Wiring

end DmaLink.Interrupt
