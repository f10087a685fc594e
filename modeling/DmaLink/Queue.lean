import DmaLink.Engine.Operation
import DmaLink.ResetLine

namespace DmaLink

/-- The shared state of a streaming queue. Producers hand buffers over, one worker sends them, and
    an owner starts and stops the queue. All that they do is made of atomic accesses. -/
structure Queue where
  /-- The engine that sends and receives. -/
  engine : Engine
  /-- The buffers waiting to be sent, oldest first. -/
  buffers : List (List UInt64) := []
  /-- Whether the worker is to go on. -/
  running : Bool := false
  /-- How many buffers are counted as waiting. -/
  pending : Nat := 0
  /-- How many buffers were given up. -/
  dropped : Nat := 0
  /-- How often the queue was stopped by its owner. -/
  stops : Nat := 0
  /-- The latest error of sending a buffer. -/
  lastError : Option LinkError := none
  /-- Whether a worker was started and has not been joined. -/
  workerStarted : Bool := false
  /-- Whether the lifecycle lock is held. -/
  locked : Bool := false

namespace Queue

/-- How long an idle worker sleeps before it looks for a buffer again. -/
def idlePause : Duration := .ofMicroseconds 70

/-- The accesses of a queue. -/
inductive Access where
  /-- An access of the link. -/
  | link (access : Link.Access)
  /-- A request to the reset line. -/
  | line (call : ResetLine.Call)
  | engine
  | setEngine (engine : Engine)
  | running
  | setRunning (running : Bool)
  | stops
  | countStop
  /-- Counts one more buffer as waiting. -/
  | countPending
  /-- Counts one buffer less as waiting. -/
  | uncountPending
  /-- Puts a buffer behind those that wait. -/
  | put (buffer : List UInt64)
  /-- Takes the oldest buffer that waits, if there is one. -/
  | take
  | countDropped
  | recordError (cause : LinkError)
  /-- Takes the lock that keeps starting, stopping and recovering apart. -/
  | lock
  | unlock
  | startWorker
  /-- Waits until the worker is over, if one was started. -/
  | joinWorker

/-- The reply to an access of a queue. -/
def Access.Reply : Access → Type
  | .link access => access.Reply
  | .line _ => Except LinkError Unit
  | .engine => Engine
  | .running => Bool
  | .stops => Nat
  | .take => Option (List UInt64)
  | _ => Unit

/-- The queue as a set of accesses. -/
def io : Interface := ⟨Access, Access.Reply⟩

/-- The program that makes one access of a queue. -/
def access (a : Access) : Proc io a.Reply := Proc.perform (I := io) a

/-- Runs a program over the link on the link of a queue. -/
def onLink (p : Proc Link.io α) : Proc io α :=
  p.embed (J := io) .link fun _ reply => reply

end Queue

end DmaLink
