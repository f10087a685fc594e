import DmaLink.Engine.Operation
import DmaLink.Interrupt
import DmaLink.Region

namespace DmaLink

/-- An open interrupt file and the position in it, which is the same for reading and for writing. -/
structure Mapped.Handle where
  place : FileTree.Place
  position : Nat
deriving DecidableEq, Repr

/-- A mapped link. -/
structure Mapped where
  files : FileTree
  registers : Region
  source : Region
  destination : Region
  /-- The interrupt files of the sending and the receiving channel. -/
  handles : Option (Mapped.Handle × Mapped.Handle)

namespace Mapped

/-- Opens an interrupt file. -/
def openHandle (files : FileTree) (path : String) : Except LinkError Handle :=
  match files.openPath path with
  | .error fault => .error (.cannotMap path (.cannotOpenInterrupt fault))
  | .ok place => .ok ⟨place, 0⟩

/-- Opens the interrupt files, if the mode uses them. -/
def openHandles (files : FileTree) (settings : Settings) :
    Except LinkError (Option (Handle × Handle)) :=
  match settings.sync with
  | .poll => .ok none
  | .interrupt => do
    let send ← openHandle files settings.sendInterruptPath
    let receive ← openHandle files settings.receiveInterruptPath
    return some (send, receive)

/-- Maps the regions of the link, each in an address space with room for `room` bytes, and opens its
    interrupt files. -/
def ofSettings (room : Nat) (files : FileTree) (settings : Settings) : Except LinkError Mapped := do
  let map := Region.map room files settings.memoryPath
  let registers ← map settings.registerAddress.toNat settings.registerBytes
  let source ← map settings.sourceAddress.toNat settings.sourceBytes
  let destination ← map settings.destinationAddress.toNat settings.destinationBytes
  let handles ← openHandles files settings
  return { files, registers, source, destination, handles }

/-- The region of the window of a channel. -/
def window (m : Mapped) : Channel → Region
  | .mm2s => m.source
  | .s2mm => m.destination

/-- The interrupt file of a channel. -/
def handle? (m : Mapped) (channel : Channel) : Option Handle :=
  match channel with
  | .mm2s => m.handles.map Prod.fst
  | .s2mm => m.handles.map Prod.snd

/-- The link after the position in the interrupt file of a channel has advanced. -/
def advance (m : Mapped) (channel : Channel) (count : Nat) : Mapped :=
  let move (handle : Handle) : Handle := { handle with position := handle.position + count }
  match channel with
  | .mm2s => { m with handles := m.handles.map fun (send, receive) => (move send, receive) }
  | .s2mm => { m with handles := m.handles.map fun (send, receive) => (send, move receive) }

/-- Takes one acknowledgement from the interrupt file of a channel. -/
def takeInterrupt (m : Mapped) (channel : Channel) : Except LinkError UInt32 × Mapped :=
  match m.handle? channel with
  | none => (.error (.io (.shortAcknowledgement 0)), m)
  | some handle =>
    let bytes := (m.files.fileAt handle.place).read handle.position 4
    let m := m.advance channel bytes.length
    if bytes.length = 4 then (.ok (Bytes.toUInt32 bytes), m)
    else (.error (.io (.shortAcknowledgement bytes.length)), m)

/-- Enables the interrupt of a channel again: overwrites four bytes of its file, which grows if
    it has to. -/
def rearm (m : Mapped) (channel : Channel) : Except LinkError Unit × Mapped :=
  match m.handle? channel with
  | none => (.ok (), m)
  | some handle =>
    match m.files.change handle.place fun file =>
      ((), file.write handle.position Interrupt.rearmBytes) with
    | ((), files) => (.ok (), { m with files }.advance channel 4)

/-- Lets something happen to the file that a region is mapped from. -/
def changeFile (m : Mapped) (region : Region) (act : File → α × File) : α × Mapped :=
  match m with
  | ⟨files, registers, source, destination, handles⟩ =>
    match files.change region.place act with
    | (result, files) => (result, ⟨files, registers, source, destination, handles⟩)

/-- Writes the register at an offset. -/
def writeRegister (m : Mapped) (offset : Nat) (value : UInt32) : Except Trap Unit × Mapped :=
  let registers := m.registers
  m.changeFile registers fun file => registers.writeRegister file offset value

/-- Accesses the window of a channel. -/
def accessWindow (m : Mapped) (channel : Channel) (access : Window.Access) :
    Except Trap access.Reply × Mapped :=
  let region := m.window channel
  m.changeFile region (region.answer access)

/-- Writes pieces into the file at a path, past the link. -/
def writeFile (m : Mapped) (path : String) (pieces : List (Nat × List UInt8)) : Mapped :=
  match m.files.locate path, m with
  | .error _, m => m
  | .ok place, ⟨files, registers, source, destination, handles⟩ =>
    match files.change place fun file => ((), file.writeAll pieces) with
    | ((), files) => ⟨files, registers, source, destination, handles⟩

/-- Reads the register at an offset. -/
def readRegister (m : Mapped) (offset : Nat) : Except Trap UInt32 :=
  m.registers.readRegister (m.files.fileAt m.registers.place) offset

/-- What the link answers. The registers are plain memory. A register outside the mapped block or a
    page that the file does not have abandons the operation. An interrupt file can always be
    read. -/
def answer : (access : Link.Access) → Mapped → Except Trap access.Reply × Mapped
  | .readRegister offset, m => (m.readRegister offset, m)
  | .writeRegister offset value, m => m.writeRegister offset value
  | .window channel access, m => m.accessWindow channel access
  | .pollDone channel _, m => ((m.readRegister channel.status).map Status.isDone, m)
  | .awaitInterrupt _ _, m => (.ok (.ok true), m)
  | .takeInterrupt channel, m =>
    match m.takeInterrupt channel with
    | (count, m) => (.ok count, m)
  | .rearm channel, m =>
    match m.rearm channel with
    | (result, m) => (.ok result, m)

/-- A chunk completes with a status left in the registers or with bytes of the interrupt file. -/
def chunkBound (m : Mapped) : Nat :=
  ((m.handle? .s2mm).map fun handle => (m.files.fileAt handle.place).size).getD 0 + 2

/-- Opens the link that the settings describe and creates an engine on it. -/
def openEngine (room : Nat) (files : FileTree) (settings : Settings) :
    Except Fault (Session Mapped) := do
  let link ← (ofSettings room files settings).mapError .error
  let engine ← Engine.create settings.sync {
    sourceWords := link.source.words
    sourceBase := settings.sourceAddress
    destinationWords := link.destination.words
    destinationBase := settings.destinationAddress
    burstWords := settings.burstWords }
  return { engine := engine.setTimeout settings.timeout, link }

/-- Performs an operation on a mapped session. An abandoned operation leaves what it did before. -/
def perform (s : Session Mapped) (operation : Engine.Operation) :
    Except Trap Engine.Answer × Session Mapped :=
  match s.engine.perform (chunkBound s.link) operation with
  | (engine, program) =>
    match program.attempt answer s.link with
    | (result, link) => (result, { engine, link })

end Mapped

end DmaLink
