import DmaLink.Queue.Bench

namespace DmaLink.Queue

/-- What a client can ask of a queue. -/
inductive Call where
  | enqueue (buffer : List UInt64)
  | initialise (bound readLength : Nat)
  | stop
  | reset
  | read (chunks bound : Nat) (buffer : List UInt64)
deriving DecidableEq, Repr

/-- What a call does. Its result goes to the client. -/
def Call.program : Call → Proc io Unit
  | .enqueue buffer => do
    let _ ← Queue.enqueue buffer
    return ()
  | .initialise bound readLength => do
    let _ ← Queue.initialise bound readLength
    return ()
  | .stop => Queue.stop
  | .reset => do
    let _ ← Queue.reset
    return ()
  | .read chunks bound buffer => do
    let _ ← Queue.readLayer chunks bound buffer
    return ()

/-- A queue, the calls that its clients are in, and the worker if there is one. Each of them makes
    one access at a time, in any order, and the link and the reset line may do anything in between.
    -/
structure System (ι σ : Type) where
  bench : Bench σ
  clients : ι → Option (Proc io Unit)
  worker : Option (Proc io Unit)

/-- What may happen next in a system. -/
inductive Event (ι : Type) where
  /-- A client begins a call. -/
  | call (client : ι) (call : Call)
  /-- A client makes an access and gets this reply. -/
  | access (client : ι) (access : Access) (reply : access.Reply)
  /-- The call of a client is over. -/
  | finish (client : ι)
  /-- The worker makes an access and gets this reply. -/
  | work (access : Access) (reply : access.Reply)
  /-- The worker is over. -/
  | retire
  /-- The link or the reset line does something. -/
  | outside

namespace System

variable {ι σ : Type} [DecidableEq ι] [Device σ]

/-- A queue just created, with nobody in a call. -/
def create (engine : Engine) (link : σ) (line : ResetLine.Probe) : System ι σ :=
  ⟨⟨{ engine }, link, line⟩, fun _ => none, none⟩

/-- The system with another call for a client. -/
def setClient (s : System ι σ) (client : ι) (program : Option (Proc io Unit)) : System ι σ :=
  { s with clients := fun other => if other = client then program else s.clients other }

/-- Whether an access has to wait for someone else: for the lock, or for the worker to be over. -/
def waits (s : System ι σ) : Access → Bool
  | .lock => s.bench.queue.locked
  | .joinWorker => s.worker.isSome
  | _ => false

/-- The worker after an access of a client. A worker goes on for as long as the queue runs; the
    bound stands for any number of turns. -/
def workerAfter (s : System ι σ) (bound : Nat) : Access → Option (Proc io Unit)
  | .startWorker => some (Queue.worker bound)
  | _ => s.worker

/-- The system after an access to the queue. -/
def answered (s : System ι σ) (access : Access) : System ι σ :=
  { s with bench := (Bench.answer access s.bench).2 }

inductive Step : System ι σ → Event ι → System ι σ → Prop where
  | call {s : System ι σ} {client : ι} (call : Call) (hidle : s.clients client = none) :
      Step s (.call client call) (s.setClient client (some call.program))
  | access {s : System ι σ} {client : ι} {access : Access} {next : access.Reply → Proc io Unit}
      (bound : Nat) (hnext : s.clients client = some (.act access next))
      (hready : s.waits access = false) :
      Step s (.access client access (Bench.answer access s.bench).1)
        (({ s.answered access with worker := s.workerAfter bound access } : System ι σ).setClient
          client (some (next (Bench.answer access s.bench).1)))
  | finish {s : System ι σ} {client : ι} (hover : s.clients client = some (.ret ())) :
      Step s (.finish client) (s.setClient client none)
  | work {s : System ι σ} {access : Access} {next : access.Reply → Proc io Unit}
      (hnext : s.worker = some (.act access next)) (hready : s.waits access = false) :
      Step s (.work access (Bench.answer access s.bench).1)
        { s.answered access with worker := some (next (Bench.answer access s.bench).1) }
  | retire {s : System ι σ} (hover : s.worker = some (.ret ())) :
      Step s .retire { s with worker := none }
  | outside {s : System ι σ} (link : σ) (line : ResetLine.Probe) :
      Step s .outside { s with bench := { s.bench with link, line } }

/-- A run, with all that happened in it, oldest first. -/
inductive Run (s : System ι σ) : List (Event ι) → System ι σ → Prop where
  | start : Run s [] s
  | step {events : List (Event ι)} {s' s'' : System ι σ} {event : Event ι}
      (hrun : Run s events s') (hstep : Step s' event s'') : Run s (events ++ [event]) s''

theorem Run.cons {s s' s'' : System ι σ} {event : Event ι} {events : List (Event ι)}
    (hstep : Step s event s') (hrun : Run s' events s'') : Run s (event :: events) s'' := by
  induction hrun with
  | start => exact Run.start.step hstep
  | step hrun hlast ih => exact ih.step hlast

/-- Whose turn it is in a run that is played. -/
inductive Turn (ι : Type) where
  | call (client : ι) (call : Call)
  /-- A client goes on. A worker that it starts takes at most `bound` turns. -/
  | client (client : ι) (bound : Nat)
  | worker
deriving Repr

/-- Plays a turn, if it can be taken now. -/
def play (s : System ι σ) : Turn ι → Option (Event ι × System ι σ)
  | .call client call =>
    match s.clients client with
    | none => some (.call client call, s.setClient client (some call.program))
    | some _ => none
  | .client client bound =>
    match s.clients client with
    | none => none
    | some (.ret ()) => some (.finish client, s.setClient client none)
    | some (.act access next) =>
      if s.waits access then none
      else
        let reply := (Bench.answer access s.bench).1
        some (.access client access reply,
          ({ s.answered access with worker := s.workerAfter bound access } : System ι σ).setClient
            client (some (next reply)))
  | .worker =>
    match s.worker with
    | none => none
    | some (.ret ()) => some (.retire, { s with worker := none })
    | some (.act access next) =>
      if s.waits access then none
      else
        let reply := (Bench.answer access s.bench).1
        some (.work access reply, { s.answered access with worker := some (next reply) })

/-- Plays turns one after the other and collects what happens. -/
def playAll (s : System ι σ) : List (Turn ι) → Option (List (Event ι) × System ι σ)
  | [] => some ([], s)
  | turn :: rest =>
    match s.play turn with
    | none => none
    | some (event, s) =>
      match s.playAll rest with
      | none => none
      | some (events, s) => some (event :: events, s)

/-- A turn that is played is a step. -/
theorem step_of_play {s s' : System ι σ} {turn : Turn ι} {event : Event ι}
    (hplay : s.play turn = some (event, s')) : Step s event s' := by
  cases turn with
  | call client call =>
    simp only [play] at hplay
    split at hplay
    · next hidle =>
      cases hplay
      exact .call call hidle
    · exact nomatch hplay
  | client client bound =>
    simp only [play] at hplay
    split at hplay
    · exact nomatch hplay
    · next hover =>
      cases hplay
      exact .finish hover
    · next access next hnext =>
      split at hplay
      · exact nomatch hplay
      · next hready =>
        cases hplay
        exact .access bound hnext (Bool.eq_false_iff.2 hready)
  | worker =>
    simp only [play] at hplay
    split at hplay
    · exact nomatch hplay
    · next hover =>
      cases hplay
      exact .retire hover
    · next access next hnext =>
      split at hplay
      · exact nomatch hplay
      · next hready =>
        cases hplay
        exact .work hnext (Bool.eq_false_iff.2 hready)

/-- What is played turn by turn is a run. -/
theorem run_of_playAll {s s' : System ι σ} {turns : List (Turn ι)} {events : List (Event ι)}
    (hplay : s.playAll turns = some (events, s')) : Run s events s' := by
  induction turns generalizing s events with
  | nil =>
    cases hplay
    exact .start
  | cons turn rest ih =>
    simp only [playAll] at hplay
    split at hplay
    · exact nomatch hplay
    · next event next hturn =>
      split at hplay
      · exact nomatch hplay
      · next later last hrest =>
        cases hplay
        exact .cons (step_of_play hturn) (ih hrest)

/-- Whether someone's next access is this one. -/
def About (s : System ι σ) (access : Access) : Prop :=
  ∃ next, (∃ client, s.clients client = some (.act access next)) ∨
    s.worker = some (.act access next)

/-- Nobody is about to put in a buffer that is counted, or to take off the count one that was taken
    out. -/
def Quiet (s : System ι σ) : Prop :=
  (∀ buffer, ¬s.About (.put buffer)) ∧ ¬s.About .uncountPending

omit [DecidableEq ι] [Device σ] in
/-- A worker that has not begun a turn takes nothing out. -/
theorem quiet_of_idle {s : System ι σ} (hclients : ∀ client, s.clients client = none)
    (hworker : s.worker = none ∨ ∃ bound, s.worker = some (Queue.worker bound)) : s.Quiet := by
  have habout {access : Access} (habout : s.About access) : access = .running := by
    obtain ⟨next, ⟨client, hnext⟩ | hnext⟩ := habout
    · rw [hclients] at hnext
      exact nomatch hnext
    · rcases hworker with hnone | ⟨_ | bound, hlooks⟩
      · rw [hnone] at hnext
        exact nomatch hnext
      · rw [hlooks] at hnext
        exact nomatch hnext
      · rw [hlooks] at hnext
        injection hnext with hnext
        injection hnext with haccess
        exact haccess.symm
  refine ⟨fun _ hput => ?_, fun huncount => ?_⟩
  · exact nomatch habout hput
  · exact nomatch habout huncount

end System

end DmaLink.Queue
