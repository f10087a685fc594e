import DmaLink.Window

namespace DmaLink

namespace Link

/-- The accesses of a link, which all that an engine does is made of. Limits are in microseconds. -/
inductive Access where
  /-- Reads the register at an offset. -/
  | readRegister (offset : Nat)
  /-- Writes the register at an offset. -/
  | writeRegister (offset : Nat) (value : UInt32)
  /-- Accesses the memory window of a channel. -/
  | window (channel : Channel) (access : Window.Access)
  /-- Looks at the status of a channel, at least once, until its burst is finished or the limit
      has passed. -/
  | pollDone (channel : Channel) (limit : Nat)
  /-- Waits, looking at least once, until the interrupt of a channel can be read or the limit has
      passed. -/
  | awaitInterrupt (channel : Channel) (limit : Nat)
  /-- Takes one acknowledgement, the count of interrupts so far. -/
  | takeInterrupt (channel : Channel)
  /-- Enables the interrupt of a channel again. -/
  | rearm (channel : Channel)
deriving DecidableEq, Repr

/-- The reply to an access of a link. -/
def Access.Reply : Access → Type
  | .readRegister _ => UInt32
  | .writeRegister _ _ => Unit
  | .window _ access => access.Reply
  | .pollDone _ _ => Bool
  | .awaitInterrupt _ _ => Except LinkError Bool
  | .takeInterrupt _ => Except LinkError UInt32
  | .rearm _ => Except LinkError Unit

/-- The link as a set of accesses. -/
def io : Interface := ⟨Access, Access.Reply⟩

end Link

namespace Proc

/-- Reads a register. -/
def readRegister (offset : Nat) : Proc Link.io UInt32 :=
  perform (I := Link.io) (.readRegister offset)

/-- Writes a register. -/
def writeRegister (offset : Nat) (value : UInt32) : Proc Link.io Unit :=
  perform (I := Link.io) (.writeRegister offset value)

/-- Runs a program over a window on the window of a channel. -/
def onWindow (channel : Channel) (p : Proc Window.io α) : Proc Link.io α :=
  p.embed (J := Link.io) (.window channel) fun _ reply => reply

end Proc

/-- A state that answers every access of a link. -/
class Device (σ : Type) where
  /-- What the device replies to an access, and its state afterwards. -/
  answer : (access : Link.Access) → σ → access.Reply × σ
  /-- A bound on the chunks that a reception starting in this state can complete. -/
  chunkBound : σ → Nat
  /-- The register writes logged so far. -/
  writeCount : σ → Nat

end DmaLink
