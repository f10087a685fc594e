import DmaLink.Loopback
import DmaLink.Queue.Program

namespace DmaLink.Queue

/-- A queue, its link and its reset line, driven one operation at a time. After buffers have been
    handed over the worker goes on until it is idle or has halted, so every operation starts from a
    settled state and leaves one. -/
structure Bench (σ : Type) where
  queue : Queue
  link : σ
  line : ResetLine.Probe := {}

namespace Bench

variable {σ : Type} [Device σ]

/-- What the queue, the link and the reset line answer to each access. In a settled state no lock
    is held by anyone else and a worker ends as soon as it is waited for. -/
def answer : (access : Access) → Bench σ → access.Reply × Bench σ
  | .link access, b =>
    match Device.answer access b.link with
    | (reply, link) => (reply, { b with link })
  | .line call, b =>
    match b.line.call call (Device.writeCount b.link) with
    | (result, line) => (result, { b with line })
  | .engine, b => (b.queue.engine, b)
  | .setEngine engine, b => ((), { b with queue.engine := engine })
  | .running, b => (b.queue.running, b)
  | .setRunning running, b => ((), { b with queue.running := running })
  | .stops, b => (b.queue.stops, b)
  | .countStop, b => ((), { b with queue.stops := b.queue.stops + 1 })
  | .countPending, b => ((), { b with queue.pending := b.queue.pending + 1 })
  | .uncountPending, b => ((), { b with queue.pending := b.queue.pending - 1 })
  | .put buffer, b => ((), { b with queue.buffers := b.queue.buffers ++ [buffer] })
  | .take, b =>
    match b.queue.buffers with
    | [] => (none, b)
    | buffer :: rest => (some buffer, { b with queue.buffers := rest })
  | .countDropped, b => ((), { b with queue.dropped := b.queue.dropped + 1 })
  | .recordError cause, b => ((), { b with queue.lastError := some cause })
  | .lock, b => ((), { b with queue.locked := true })
  | .unlock, b => ((), { b with queue.locked := false })
  | .startWorker, b => ((), { b with queue.workerStarted := true })
  | .joinWorker, b => ((), { b with queue.workerStarted := false })

/-- Runs a program of the queue. -/
def run (b : Bench σ) (p : Proc io α) : α × Bench σ := p.run answer b

/-- More takes than there are buffers. -/
def takeBound (b : Bench σ) : Nat := b.queue.buffers.length + 1

/-- Lets the worker go on until it is idle or has halted. -/
def settle (b : Bench σ) : Bench σ := (b.run (worker b.takeBound)).2

/-- Starts the queue. -/
def initialise (b : Bench σ) (readLength : Nat) : Except LinkError Unit × Bench σ :=
  b.run (Queue.initialise b.takeBound readLength)

/-- Hands buffers over one after the other and collects the results. -/
def enqueueAll : List (List UInt64) → Proc io (List (Except LinkError Unit))
  | [] => return []
  | buffer :: rest => do
    let result ← enqueue buffer
    return result :: (← enqueueAll rest)

/-- Hands buffers over and lets the worker settle. -/
def enqueue (b : Bench σ) (buffers : List (List UInt64)) :
    List (Except LinkError Unit) × Bench σ :=
  match b.run (enqueueAll buffers) with
  | (results, b) => (results, b.settle)

/-- Reads one layer. -/
def read (b : Bench σ) (buffer : List UInt64) : Reception × Bench σ :=
  b.run (readLayer (Device.chunkBound b.link) b.takeBound buffer)

/-- Stops the queue. -/
def stop (b : Bench σ) : Bench σ := (b.run Queue.stop).2

/-- Resets the hardware. -/
def reset (b : Bench σ) : Except LinkError Unit × Bench σ := b.run Queue.reset

/-- Lets the queue go. -/
def close (b : Bench σ) : Bench σ := (b.run Queue.close).2

/-- Performs an operation of the engine. -/
def perform (b : Bench σ) (operation : Engine.Operation) : Engine.Answer × Bench σ :=
  match (Session.mk b.queue.engine b.link).perform operation with
  | (answer, session) =>
    (answer, { b with queue.engine := session.engine, link := session.link })

end Bench

end DmaLink.Queue
