import DmaLink.Link
import DmaLink.Status
import DmaLink.SyncMode

namespace DmaLink.Completion

/-- Acknowledges a finished burst: clears the idle bit and then the completion interrupt. -/
def acknowledge (channel : Channel) : Proc Link.io Unit := do
  Proc.writeRegister channel.status Status.idle
  Proc.writeRegister channel.status Status.completionInterrupt

/-- Waits by looking at the status register. -/
def poll (channel : Channel) (limit : Nat) : Proc Link.io (Except LinkError Unit) := do
  let finished : Bool ← Proc.perform (I := Link.io) (.pollDone channel limit)
  if finished then
    acknowledge channel
    return .ok ()
  else
    return .error (.channelTimeout channel limit)

/-- Waits for the interrupt, takes it, acknowledges the burst and enables the interrupt again. -/
def interrupt (channel : Channel) (limit : Nat) : Proc Link.io (Except LinkError Unit) := do
  let readable : Except LinkError Bool ←
    Proc.perform (I := Link.io) (.awaitInterrupt channel limit)
  match readable with
  | .error cause => return .error cause
  | .ok false => return .error (.channelTimeout channel limit)
  | .ok true =>
    let count : Except LinkError UInt32 ← Proc.perform (I := Link.io) (.takeInterrupt channel)
    match count with
    | .error cause => return .error cause
    | .ok _ =>
      acknowledge channel
      Proc.perform (I := Link.io) (.rearm channel)

/-- Takes the interrupt of a channel if it can be read at once. -/
def takeReady (channel : Channel) : Proc Link.io (Except LinkError (Option UInt32)) := do
  let readable : Except LinkError Bool ← Proc.perform (I := Link.io) (.awaitInterrupt channel 0)
  match readable with
  | .error cause => return .error cause
  | .ok false => return .ok none
  | .ok true =>
    let count : Except LinkError UInt32 ← Proc.perform (I := Link.io) (.takeInterrupt channel)
    return count.map some

/-- Waits in the way that a mode says, for at most `limit` microseconds. Success is told only after
    both status bits of the burst have been cleared. -/
def await : SyncMode → (channel : Channel) → (limit : Nat) → Proc Link.io (Except LinkError Unit)
  | .poll => poll
  | .interrupt => interrupt

end DmaLink.Completion
