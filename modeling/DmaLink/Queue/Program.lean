import DmaLink.Queue

namespace DmaLink.Queue

/-- Hands a buffer over. An empty buffer is refused. -/
def enqueue (buffer : List UInt64) : Proc io (Except LinkError Unit) := do
  if buffer.isEmpty then
    return .error (.transferSize 0 Layout.maxBurstBytes)
  else
    access .countPending
    access (.put buffer)
    return .ok ()

/-- Accepts no more work and halts both channels. -/
def halt : Proc io Unit := do
  access (.setRunning false)
  onLink Engine.halt

/-- Sends a buffer, and counts it as dropped if that fails. -/
def transmit (buffer : List UInt64) : Proc io Unit := do
  let engine : Engine ← access .engine
  match ← onLink (engine.sendSplit buffer) with
  | .ok () => return ()
  | .error cause =>
    access .countDropped
    access (.recordError cause)
    if cause.isTimeout then halt else return ()

/-- Handles the oldest buffer, if one waits. A buffer taken while the queue is being stopped is
    dropped. -/
def handleBuffer : Proc io Unit := do
  let taken : Option (List UInt64) ← access .take
  match taken with
  | none => return ()
  | some buffer =>
    access .uncountPending
    let running : Bool ← access .running
    if running then transmit buffer else access .countDropped

/-- The worker: handles buffers, at most `bound` times, while the queue runs. -/
def worker : (bound : Nat) → Proc io Unit
  | 0 => return ()
  | bound + 1 => do
    let running : Bool ← access .running
    if running then
      handleBuffer
      worker bound
    else return ()

/-- Takes the buffers that wait out of the queue, at most `bound` of them. -/
def discard : (bound : Nat) → Proc io Unit
  | 0 => return ()
  | bound + 1 => do
    let taken : Option (List UInt64) ← access .take
    match taken with
    | none => return ()
    | some _ =>
      access .uncountPending
      discard bound

/-- Tells the worker to end and waits until it has. -/
def join : Proc io Unit := do
  access (.setRunning false)
  access .joinWorker

/-- Makes requests to the reset line and stops at the first that fails. -/
def callLine : List ResetLine.Call → Proc io (Except LinkError Unit)
  | [] => return .ok ()
  | call :: rest => do
    let result : Except LinkError Unit ← access (.line call)
    match result with
    | .error cause => return .error cause
    | .ok () => callLine rest

/-- Resets both channels and pulses the reset line. -/
def reset : Proc io (Except LinkError Unit) := do
  onLink Engine.reset
  callLine ResetLine.pulse

/-- Gives the engine a read length and starts its channels. -/
def initialiseEngine (readLength : Nat) : Proc io (Except LinkError Unit) := do
  let engine : Engine ← access .engine
  match engine.configure readLength with
  | .error cause => return .error cause
  | .ok configured =>
    access (.setEngine configured)
    onLink configured.start

/-- Ends the old worker, resets the hardware, discards at most `bound` waiting buffers, starts
    the engine and then a new worker. The first stage that fails ends it. -/
def start (bound readLength : Nat) : Proc io (Except LinkError Unit) := do
  join
  match ← reset with
  | .error cause => return .error cause
  | .ok () =>
    discard bound
    match ← initialiseEngine readLength with
    | .error cause => return .error cause
    | .ok () =>
      access (.setRunning true)
      access .startWorker
      return .ok ()

/-- Starts the queue. -/
def initialise (bound readLength : Nat) : Proc io (Except LinkError Unit) := do
  access .lock
  let result ← start bound readLength
  access .unlock
  return result

/-- Halts the queue and waits until the worker has ended. -/
def haltAndJoin : Proc io Unit := do
  halt
  join

/-- Stops the queue. -/
def stop : Proc io Unit := do
  access .lock
  access .countStop
  haltAndJoin
  access .unlock

/-- Starts the queue again after a read that timed out, unless it was stopped since it counted
    `stopsBefore` stops or does not run. How the new start ends is not reported. -/
def recover (bound stopsBefore : Nat) : Proc io Unit := do
  access .lock
  let stops : Nat ← access .stops
  if stops ≠ stopsBefore then
    access .unlock
  else
    let running : Bool ← access .running
    if running then
      let engine : Engine ← access .engine
      haltAndJoin
      let _ ← start bound engine.readLength
      access .unlock
    else
      access .unlock

/-- Reads one layer in at most `chunks` chunks. The buffer is cleared first, but left alone if
    the queue does not run. -/
def readLayer (chunks bound : Nat) (buffer : List UInt64) : Proc io Reception := do
  let running : Bool ← access .running
  if running then
    let stops : Nat ← access .stops
    let engine : Engine ← access .engine
    let reception ← onLink (engine.receive chunks [])
    match reception.ending with
    | .failed cause =>
      if cause.isTimeout then
        recover bound stops
        return reception
      else return reception
    | _ => return reception
  else return ⟨buffer, .failed .notRunning⟩

/-- What becomes of a queue that its owner lets go: it is stopped if it runs. -/
def close : Proc io Unit := do
  let running : Bool ← access .running
  if running then stop else join

end DmaLink.Queue
