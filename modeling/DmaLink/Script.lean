import DmaLink.Engine.Operation

namespace DmaLink

/-- A link with given status answers. Each look at the status of a channel takes the next value of
    its list, and zero once the list is used up. -/
structure Script where
  source : Window
  destination : Window
  /-- The status values of the sending channel still to come. -/
  mm2s : List UInt32
  /-- The status values of the receiving channel still to come. -/
  s2mm : List UInt32
  /-- Every register write so far. -/
  writes : Array RegisterWrite := #[]

namespace Script

/-- The status values of a channel still to come. -/
def statuses (s : Script) : Channel → List UInt32
  | .mm2s => s.mm2s
  | .s2mm => s.s2mm

/-- The script with other status values to come for a channel. -/
def setStatuses (s : Script) (channel : Channel) (statuses : List UInt32) : Script :=
  match channel with
  | .mm2s => { s with mm2s := statuses }
  | .s2mm => { s with s2mm := statuses }

/-- Takes the next status value of a channel. -/
def nextStatus (s : Script) (channel : Channel) : UInt32 × Script :=
  match s.statuses channel with
  | [] => (0, s)
  | status :: rest => (status, s.setStatuses channel rest)

/-- Looks at statuses until one is done. Without time to wait there is one look. -/
def pollDone (s : Script) (channel : Channel) (limit : Nat) : Bool × Script :=
  if limit = 0 then
    match s.nextStatus channel with
    | (status, s) => (Status.isDone status, s)
  else
    match (s.statuses channel).dropWhile fun status => !Status.isDone status with
    | [] => (false, s.setStatuses channel [])
    | _ :: rest => (true, s.setStatuses channel rest)

/-- Reads a register: the next status value of a channel, and zero from any other register. -/
def readRegister (s : Script) (offset : Nat) : UInt32 × Script :=
  if offset = Channel.mm2s.status then s.nextStatus .mm2s
  else if offset = Channel.s2mm.status then s.nextStatus .s2mm
  else (0, s)

/-- Accesses the window of a channel. -/
def accessWindow (s : Script) (channel : Channel) (access : Window.Access) :
    access.Reply × Script :=
  match channel with
  | .mm2s =>
    match s.source.answer access with
    | (reply, source) => (reply, { s with source })
  | .s2mm =>
    match s.destination.answer access with
    | (reply, destination) => (reply, { s with destination })

/-- What the link answers. It has no interrupts. -/
def answer : (access : Link.Access) → Script → access.Reply × Script
  | .readRegister offset, s => s.readRegister offset
  | .writeRegister offset value, s => ((), { s with writes := s.writes.push ⟨offset, value⟩ })
  | .window channel access, s => s.accessWindow channel access
  | .pollDone channel limit, s => s.pollDone channel limit
  | .awaitInterrupt _ _, s => (.ok false, s)
  | .takeInterrupt _, s => (.error (.io (.shortAcknowledgement 0)), s)
  | .rearm _, s => (.ok (), s)

/-- Every completed chunk uses up a status value. -/
def chunkBound (s : Script) : Nat := s.s2mm.length + 1

instance : Device Script := ⟨answer, chunkBound, fun s => s.writes.size⟩

end Script

end DmaLink
