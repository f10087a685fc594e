import DmaLink.Engine.Operation
import DmaLink.Interrupt
import DmaLink.Stream

namespace DmaLink

/-- A chunk that the receiving channel is armed for. -/
structure Loopback.Arming where
  address : UInt32
  words : Nat
deriving DecidableEq, Repr

/-- A simulated device that echoes the words it is sent. A burst on the sending channel goes into
    the stream without the tag word at its end; a complete tag closes the layer. A chunk armed on
    the receiving channel completes as soon as the stream can fill it, or once the layer is closed:
    then it takes what is left, padded with zeros, and the idle word ends it. A length that is
    written to a halted channel starts nothing. -/
structure Loopback where
  /-- The register block, one entry per 32-bit register. -/
  registers : Vector UInt32 23
  source : Window
  destination : Window
  /-- Words received and not yet echoed. -/
  stream : Stream
  /-- Whether a complete tag has closed the layer in the stream. -/
  layerComplete : Bool
  /-- The chunk waited for, if one is armed. -/
  armed : Option Loopback.Arming
  /-- Whether transfers are kept from completing. -/
  stalled : Bool
  /-- Every register write since the log was last cleared. -/
  writes : Array RegisterWrite
  /-- The tags received, oldest first. -/
  tags : Array OperatingMode
  /-- Every data word received, tags stripped. -/
  received : Array UInt64
  /-- The interrupt lines, if the device is wired to any. -/
  lines : Option Interrupt.Lines

namespace Loopback

/-- The physical address of the source window. -/
def sourceBase : UInt32 := 0x10000000

/-- The physical address of the destination window. -/
def destinationBase : UInt32 := 0x18000000

/-- The status bits that are cleared by writing ones. -/
def clearableBits : UInt32 :=
  Status.idle ||| Status.completionInterrupt ||| Status.delayInterrupt ||| Status.errorInterrupt

/-- The bit of a control word that enables the completion interrupt. -/
def interruptEnable : UInt32 := 0x1000

/-- The value of the register at an offset; zero past the block. -/
def register (d : Loopback) (offset : Nat) : UInt32 := (d.registers[offset / 4]?).getD 0

/-- Sets the register at an offset. Offsets past the block are ignored. -/
def setRegister (d : Loopback) (offset : Nat) (value : UInt32) : Loopback :=
  { d with registers := d.registers.setIfInBounds (offset / 4) value }

/-- The status of a channel. -/
def status (d : Loopback) (channel : Channel) : UInt32 := d.register channel.status

/-- Sets bits in the status of a channel. -/
def setStatusBits (d : Loopback) (channel : Channel) (bits : UInt32) : Loopback :=
  d.setRegister channel.status (d.status channel ||| bits)

/-- Clears bits in the status of a channel. -/
def clearStatusBits (d : Loopback) (channel : Channel) (bits : UInt32) : Loopback :=
  d.setRegister channel.status (d.status channel &&& ~~~bits)

/-- Whether a channel runs. -/
def running (d : Loopback) (channel : Channel) : Bool := !Status.isHalted (d.status channel)

/-- Returns a channel to its power-on state. -/
def powerOn (d : Loopback) (channel : Channel) : Loopback :=
  let d := (d.setRegister channel.control Control.halt).setRegister channel.status Status.halted
  match channel with
  | .mm2s => d
  | .s2mm => { d with armed := none }

/-- A device just switched on, with zeroed windows of the given sizes. -/
def create (sourceWords destinationWords : Nat) (lines : Option Interrupt.Lines) : Loopback :=
  let d : Loopback :=
    { registers := Vector.replicate 23 0
      source := .zeroed sourceWords
      destination := .zeroed destinationWords
      stream := .empty
      layerComplete := false
      armed := none
      stalled := false
      writes := #[]
      tags := #[]
      received := #[]
      lines }
  (d.powerOn .mm2s).powerOn .s2mm

/-- The word position of an address in the window at `base`, if it is aligned and not below. -/
def position? (address base : UInt32) : Option Nat :=
  let bytes := address.toNat - base.toNat
  if base ≤ address ∧ bytes % wordBytes = 0 then some (bytes / wordBytes) else none

/-- Signals the interrupt of a channel, if the device is wired to a line. -/
def raise (d : Loopback) (channel : Channel) : Loopback :=
  { d with lines := d.lines.map fun lines => lines.set channel (lines.get channel).raise }

/-- A burst of a channel finished: its status says so, and its interrupt is signalled if that is
    enabled. -/
def finish (d : Loopback) (channel : Channel) : Loopback :=
  let enabled := d.register channel.control &&& interruptEnable != 0
  let d := d.setStatusBits channel Status.transferDone
  if enabled then d.raise channel else d

/-- A transfer of a channel had an invalid address or range: the channel halts with a decode
    error. -/
def fail (d : Loopback) (channel : Channel) : Loopback :=
  d.setStatusBits channel (Status.decodeError ||| Status.errorInterrupt ||| Status.halted)

/-- The words that complete a chunk of `words` words and the stream that is left: the next words
    of the stream, or all that are left, zeros and the idle word. -/
def chunkOf (stream : Stream) (words : Nat) : List UInt64 :=
  if words ≤ stream.size then stream.front words
  else
    let left := stream.front words
    left ++ List.replicate (words - 1 - left.length) 0 ++ [Word.idle]

/-- Completes the armed chunk if that is possible now. -/
def completeChunk (d : Loopback) : Loopback :=
  if d.stalled || !d.running .s2mm then d
  else
    match d.armed with
    | none => d
    | some arming =>
      let fills := arming.words ≤ d.stream.size
      if ¬fills ∧ !d.layerComplete then d
      else
        match position? arming.address destinationBase with
        | none => ({ d with armed := none } : Loopback).fail .s2mm
        | some start =>
          if d.destination.size < start + arming.words then
            ({ d with armed := none } : Loopback).fail .s2mm
          else
            let chunk := chunkOf d.stream arming.words
            ({ d with
                destination := ⟨Memory.put d.destination.words start chunk⟩
                stream := d.stream.drop arming.words
                layerComplete := d.layerComplete && fills
                armed := none } : Loopback).finish .s2mm

/-- Takes the words of a burst in: a trailing tag is recorded, the words before it are received
    and echoed. -/
def takeBurst (d : Loopback) (burst : List UInt64) : Loopback :=
  match burst.getLast?.bind OperatingMode.ofWord? with
  | none =>
    { d with received := d.received ++ burst.toArray, stream := d.stream.append burst }
  | some mode =>
    let data := burst.dropLast
    { d with
      tags := d.tags.push mode
      layerComplete := d.layerComplete || mode == .complete
      received := d.received ++ data.toArray
      stream := d.stream.append data }

/-- A length was written to the sending channel: the burst at its address is taken in. -/
def sendBurst (d : Loopback) (bytes : Nat) : Loopback :=
  if !d.running .mm2s || d.stalled then d
  else
    let words := bytes / wordBytes
    match position? (d.register Channel.mm2s.address) sourceBase with
    | none => d.fail .mm2s
    | some start =>
      if d.source.size < start + words then d.fail .mm2s
      else
        let burst := (d.source.words.extract start (start + words)).toList
        ((d.takeBurst burst).finish .mm2s).completeChunk

/-- A length was written to the receiving channel: it is armed if it runs. -/
def arm (d : Loopback) (bytes : Nat) : Loopback :=
  if d.running .s2mm then
    let address := d.register Channel.s2mm.address
    completeChunk { d with armed := some ⟨address, bytes / wordBytes⟩ }
  else d

/-- A control word was written to a channel. A reset returns it to its power-on state; otherwise its
    run bit clears the halted bit, and a word without it sets the bit. -/
def control (d : Loopback) (channel : Channel) (value : UInt32) : Loopback :=
  if value &&& Control.reset != 0 then d.powerOn channel
  else
    let d := d.setRegister channel.control value
    if value &&& Control.run != 0 then
      let d := d.clearStatusBits channel Status.halted
      match channel with
      | .mm2s => d
      | .s2mm => d.completeChunk
    else d.setStatusBits channel Status.halted

/-- Writes the register at an offset. -/
def write (d : Loopback) (offset : Nat) (value : UInt32) : Loopback :=
  let d := { d with writes := d.writes.push ⟨offset, value⟩ }
  if offset = Channel.mm2s.control then d.control .mm2s value
  else if offset = Channel.s2mm.control then d.control .s2mm value
  else if offset = Channel.mm2s.status then d.clearStatusBits .mm2s (value &&& clearableBits)
  else if offset = Channel.s2mm.status then d.clearStatusBits .s2mm (value &&& clearableBits)
  else if offset = Channel.mm2s.length then (d.setRegister offset value).sendBurst value.toNat
  else if offset = Channel.s2mm.length then (d.setRegister offset value).arm value.toNat
  else d.setRegister offset value

/-- Keeps transfers from completing, or lets them complete again. -/
def setStalled (d : Loopback) (stalled : Bool) : Loopback :=
  let d := { d with stalled }
  if stalled then d else d.completeChunk

/-- Accesses the window of a channel. -/
def accessWindow (d : Loopback) (channel : Channel) (access : Window.Access) :
    access.Reply × Loopback :=
  match channel with
  | .mm2s =>
    match d.source.answer access with
    | (reply, source) => (reply, { d with source })
  | .s2mm =>
    match d.destination.answer access with
    | (reply, destination) => (reply, { d with destination })

/-- Whether an interrupt of a channel can be read. -/
def signalled (d : Loopback) (channel : Channel) : Bool :=
  (d.lines.map fun lines => (lines.get channel).readable).getD false

/-- What the device answers. It changes only when it is accessed, so a wait is decided by one
    look. -/
def answer : (access : Link.Access) → Loopback → access.Reply × Loopback
  | .readRegister offset, d => (d.register offset, d)
  | .writeRegister offset value, d => ((), d.write offset value)
  | .window channel access, d => d.accessWindow channel access
  | .pollDone channel _, d => (Status.isDone (d.status channel), d)
  | .awaitInterrupt channel _, d => (.ok (d.signalled channel), d)
  | .takeInterrupt channel, d =>
    match d.lines with
    | none => (.error (.io (.shortAcknowledgement 0)), d)
    | some lines =>
      match lines.take channel with
      | (count, lines) => (count, { d with lines := some lines })
  | .rearm channel, d =>
    match d.lines with
    | none => (.ok (), d)
    | some lines =>
      match lines.rearm channel with
      | (result, lines) => (result, { d with lines := some lines })

/-- Whether an access waits for something that the device has not come to. -/
def blocks (d : Loopback) : Link.Access → Bool
  | .pollDone channel _ => !Status.isDone (d.status channel)
  | .awaitInterrupt channel _ => !d.signalled channel
  | _ => false

/-- A reception completes a chunk only with a finished burst or a signal at hand, or with a word
    of the stream. -/
def chunkBound (d : Loopback) : Nat :=
  let signals := (d.lines.map fun lines => lines.s2mm.arriving.length).getD 0
  d.stream.size + signals + 4

instance : Device Loopback := ⟨answer, chunkBound, fun d => d.writes.size⟩

/-- The geometry of an engine on a device, with the addresses of the device itself. -/
def geometry (d : Loopback) (burstWords : Nat) : Geometry where
  sourceWords := d.source.size
  sourceBase := sourceBase
  destinationWords := d.destination.size
  destinationBase := destinationBase
  burstWords := burstWords

end Loopback

end DmaLink
