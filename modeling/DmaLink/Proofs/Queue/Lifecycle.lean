import DmaLink.Proofs.Queue.Holders
import DmaLink.Proofs.Queue.Stages
import Mathlib.Logic.Function.Basic

namespace DmaLink.Queue

/-- What a stage holds of the lock. -/
def Stage.phase : Stage → Phase
  | .held _ joined _ => .holding joined
  | _ => .free

/-- Whether the queue has been marked as stopped and not yet as running again. -/
def Progress.isStopped : Progress → Bool
  | .even | .ready => false
  | _ => true

def Stage.isStopped : Stage → Bool
  | .held _ _ progress => progress.isStopped
  | _ => false

/-- Who has stopped the queue holds the lock. -/
theorem Stage.holds_of_isStopped {stage : Stage} (hstopped : stage.isStopped = true) :
    stage.phase.holds = true := by
  cases stage <;> first | rfl | exact nomatch hstopped

namespace Stage.Moves

variable {stage stage' : Stage} {access : Access} {reply : access.Reply}

/-- A stage moves on with its phase. -/
theorem shifts (hmove : stage.Moves access reply stage') :
    stage.phase.Shifts access stage'.phase := by
  cases hmove with
  | ask running => cases running <;> exact .keep rfl rfl rfl
  | close running => cases running <;> exact .keep rfl rfl rfl
  | inspect left => exact .lock
  | lock purpose => exact .lock
  | join joined _ => exact .join joined
  | startWorker => exact .startWorker
  | unlock _ => exact .unlock _
  | _ => exact .keep rfl rfl rfl

/-- Only a start that has brought both channels up marks the queue as running. -/
theorem starts_of_setRunning {reply : Access.Reply (.setRunning true)}
    (hmove : stage.Moves (.setRunning true) reply stage') :
    stage = .held .start true (.starting .opened) ∧ stage' = .held .start true .ready := by
  cases hmove
  exact ⟨rfl, rfl⟩

theorem isStopped (hmove : stage.Moves access reply stage')
    (hmarks : ∀ running, access ≠ .setRunning running) (hstopped : stage'.isStopped = true) :
    stage.isStopped = true := by
  cases hmove with
  | ask running => cases running <;> exact nomatch hstopped
  | close running => cases running <;> exact nomatch hstopped
  | mark joined hpurpose hprogress => exact absurd rfl (hmarks false)
  | fall joined hlowers hfalls => cases hfalls <;> rfl
  | join joined hprogress => exact hstopped
  | revive => exact absurd rfl (hmarks true)
  | _ => first | rfl | exact nomatch hstopped

end Stage.Moves

variable {ι σ : Type}

section Answers

variable [Device σ]

/-- Only marking a queue starts or stops it. -/
theorem running_answer {access : Access} (hmarks : ∀ running, access ≠ .setRunning running)
    (b : Bench σ) : (Bench.answer access b).2.queue.running = b.queue.running := by
  cases access with
  | take => exact congrArg (fun out => out.2.queue.running) (answer_take b)
  | setRunning running => exact absurd rfl (hmarks running)
  | _ => rfl

namespace Progress.Works

variable {progress progress' : Progress} {access : Access} {reply : access.Reply}

/-- The worker does nothing to the lock or to itself. -/
theorem isSteady (hmove : progress.Works access reply progress') : access.isSteady = true := by
  cases hmove <;> rfl

/-- The worker never marks the queue as running. -/
theorem running_answer (hmove : progress.Works access reply progress') {b : Bench σ}
    (hstopped : b.queue.running = false) :
    (Bench.answer access b).2.queue.running = false := by
  cases hmove with
  | mark => rfl
  | _ => exact (Queue.running_answer (fun _ => Access.noConfusion) b).trans hstopped

end Progress.Works

end Answers

/-- A client in a stage: what is left of its call goes on from there. -/
def Stage.Of : Option (Proc io Unit) → Stage → Prop
  | none, stage => stage = .clear
  | some program, stage => program.Follows Stage.Moves (fun _ stage => stage.Out) stage

/-- A worker that has come so far. -/
def Progress.Of : Option (Proc io Unit) → Progress → Prop
  | none, progress => progress = .even
  | some program, progress => program.Follows Progress.Works (fun _ progress => progress = .even)
    progress

/-- A system whose clients are in these stages and whose worker has come so far. -/
structure System.Staged (s : System ι σ) (stages : ι → Stage) (duty : Progress) : Prop where
  clients : ∀ client, (stages client).Of (s.clients client)
  worker : duty.Of s.worker
  locking : Locking (fun client => (stages client).phase) s.bench.queue.locked s.worker
  stopped : ∀ client, (stages client).isStopped = true → s.bench.queue.running = false

namespace System

variable {s s' : System ι σ} {stages : ι → Stage} {duty : Progress} {client : ι}

theorem phase_update [DecidableEq ι] (stages : ι → Stage) (client : ι) (stage : Stage) :
    (fun other => (Function.update stages client stage other).phase) =
      setPhase (fun other => (stages other).phase) client stage.phase := by
  funext other
  by_cases hsame : other = client
  · rw [hsame, Function.update_self, setPhase_self]
  · rw [Function.update_of_ne hsame, setPhase_of_ne hsame]

theorem staged_create (engine : Engine) (link : σ) (line : ResetLine.Probe) :
    (create (ι := ι) engine link line).Staged (fun _ => .clear) .even := by
  refine ⟨fun _ => rfl, rfl, ⟨?_, ?_, ?_⟩, fun _ hstopped => nomatch hstopped⟩
  · exact fun _ hholds => nomatch hholds
  · exact fun _ _ hholds => nomatch hholds
  · exact fun _ hjoined => nomatch hjoined

namespace Staged

/-- Only the marks, the lock, the calls and the worker of a system are staged. -/
theorem of_eq (hstaged : s.Staged stages duty) (hclients : s'.clients = s.clients)
    (hworker : s'.worker = s.worker) (hlocked : s'.bench.queue.locked = s.bench.queue.locked)
    (hrunning : s'.bench.queue.running = s.bench.queue.running) : s'.Staged stages duty := by
  refine ⟨hclients ▸ hstaged.clients, hworker ▸ hstaged.worker, ?_, hrunning ▸ hstaged.stopped⟩
  rw [hlocked, hworker]
  exact hstaged.locking

/-- A call that is over holds no lock. -/
theorem out_of_over (hstaged : s.Staged stages duty) (hover : s.clients client = some (.ret ())) :
    (stages client).Out := by
  have hclient := hstaged.clients client
  rw [hover] at hclient
  exact hclient

/-- A client without a call is at nothing. -/
theorem clear_of_none (hstaged : s.Staged stages duty) (hidle : s.clients client = none) :
    stages client = .clear := by
  have hclient := hstaged.clients client
  rw [hidle] at hclient
  exact hclient

theorem retire (hstaged : s.Staged stages duty) (hover : s.worker = some (.ret ())) :
    duty = .even ∧ ({ s with worker := none } : System ι σ).Staged stages .even := by
  have hworker := hstaged.worker
  rw [hover] at hworker
  exact ⟨hworker, hstaged.clients, rfl,
    ⟨hstaged.locking.locked, hstaged.locking.single, fun _ _ => rfl⟩, hstaged.stopped⟩

/-- A client that starts a worker has waited for the last one. -/
theorem workerAfter (hstaged : s.Staged stages duty) {access : Access}
    {reply : access.Reply} {stage : Stage} (hmove : (stages client).Moves access reply stage)
    (bound : Nat) : duty.Of (s.workerAfter bound access) := by
  generalize hstage : stages client = before at hmove
  cases hmove with
  | startWorker =>
    have hnone : s.worker = none := hstaged.locking.joined client (by rw [hstage]; rfl)
    have hworker := hstaged.worker
    rw [hnone] at hworker
    rw [show duty = .even from hworker]
    exact works_worker bound
  | _ => exact hstaged.worker

section Steps

variable [DecidableEq ι]

theorem clients_set (hstaged : s.Staged stages duty) {stage : Stage}
    {program : Option (Proc io Unit)} (hstage : stage.Of program) (other : ι) :
    (Function.update stages client stage other).Of
      ((s.setClient client program).clients other) := by
  by_cases hsame : other = client
  · have hprogram : (s.setClient client program).clients other = program := if_pos hsame
    rw [hprogram, hsame, Function.update_self]
    exact hstage
  · have hprogram : (s.setClient client program).clients other = s.clients other := if_neg hsame
    rw [hprogram, Function.update_of_ne hsame]
    exact hstaged.clients other

/-- A client without the lock goes on without it. -/
theorem set (hstaged : s.Staged stages duty) {stage : Stage} {program : Option (Proc io Unit)}
    (hstage : stage.Of program) (hphase : stage.phase = .free) :
    (s.setClient client program).Staged (Function.update stages client stage) duty := by
  refine ⟨hstaged.clients_set hstage, hstaged.worker, ?_, fun other hstopped => ?_⟩
  · rw [phase_update]
    exact hstaged.locking.set_of_not_holds (hphase ▸ rfl)
  · by_cases hsame : other = client
    · rw [hsame, Function.update_self] at hstopped
      have hholds := Stage.holds_of_isStopped hstopped
      rw [hphase] at hholds
      exact nomatch hholds
    · rw [Function.update_of_ne hsame] at hstopped
      exact hstaged.stopped other hstopped

theorem call (hstaged : s.Staged stages duty) (client : ι) (call : Call) :
    (s.setClient client (some call.program)).Staged (Function.update stages client call.stage)
      duty :=
  hstaged.set call.staged (by cases call <;> rfl)

theorem finish (hstaged : s.Staged stages duty) (client : ι) :
    (s.setClient client none).Staged (Function.update stages client .clear) duty :=
  hstaged.set rfl rfl

variable [Device σ]

/-- Whoever has stopped the queue, it does not run. -/
theorem stopped_update (hstaged : s.Staged stages duty) {access : Access} {reply : access.Reply}
    {stage : Stage} (hmove : (stages client).Moves access reply stage) (other : ι)
    (hstopped : (Function.update stages client stage other).isStopped = true) :
    (Bench.answer access s.bench).2.queue.running = false := by
  by_cases hmarks : ∃ running, access = .setRunning running
  · obtain ⟨_ | _, rfl⟩ := hmarks
    · rfl
    -- Nobody else is at it while the holder of the lock marks the queue as running.
    · obtain ⟨hbefore, rfl⟩ := hmove.starts_of_setRunning
      by_cases hsame : other = client
      · rw [hsame, Function.update_self] at hstopped
        exact nomatch hstopped
      · rw [Function.update_of_ne hsame] at hstopped
        have hholds := Stage.holds_of_isStopped hstopped
        rw [hstaged.locking.alone (by rw [hbefore]; rfl) hsame] at hholds
        exact nomatch hholds
  · have hsame := running_answer (fun running hrunning => hmarks ⟨running, hrunning⟩) s.bench
    rw [hsame]
    by_cases hother : other = client
    · rw [hother, Function.update_self] at hstopped
      exact hstaged.stopped client
        (hmove.isStopped (fun running hrunning => hmarks ⟨running, hrunning⟩) hstopped)
    · rw [Function.update_of_ne hother] at hstopped
      exact hstaged.stopped other hstopped

/-- An access of a client moves its stage on, and everyone is at a stage still. -/
theorem access (hstaged : s.Staged stages duty) {access : Access}
    {next : access.Reply → Proc io Unit} (bound : Nat)
    (hnext : s.clients client = some (.act access next)) (hready : s.waits access = false) :
    ∃ stage, (stages client).Moves access (Bench.answer access s.bench).1 stage ∧
      (({ s.answered access with worker := s.workerAfter bound access } : System ι σ).setClient
        client (some (next (Bench.answer access s.bench).1))).Staged
          (Function.update stages client stage) duty := by
  have hclient := hstaged.clients client
  rw [hnext] at hclient
  obtain ⟨stage, hmove, hrest⟩ := hclient (Bench.answer access s.bench).1
  refine ⟨stage, hmove, hstaged.clients_set hrest, ?_, ?_, hstaged.stopped_update hmove⟩
  · exact hstaged.workerAfter hmove bound
  · rw [phase_update]
    exact hstaged.locking.shifts hmove.shifts hready bound

end Steps

/-- An access of the worker moves its progress on, and everyone is at a stage still. -/
theorem work [Device σ] (hstaged : s.Staged stages duty) {access : Access}
    {next : access.Reply → Proc io Unit} (hnext : s.worker = some (.act access next)) :
    ∃ duty', duty.Works access (Bench.answer access s.bench).1 duty' ∧
      ({ s.answered access with worker := some (next (Bench.answer access s.bench).1) } :
        System ι σ).Staged stages duty' := by
  have hworker := hstaged.worker
  rw [hnext] at hworker
  obtain ⟨duty', hmove, hrest⟩ := hworker (Bench.answer access s.bench).1
  refine ⟨duty', hmove, hstaged.clients, hrest, ⟨fun other hholds => ?_, hstaged.locking.single,
    fun other hjoined => ?_⟩,
    fun other hstopped => hmove.running_answer (hstaged.stopped other hstopped)⟩
  · exact (locked_answer hmove.isSteady s.bench).trans (hstaged.locking.locked other hholds)
  · have hnone := hstaged.locking.joined other hjoined
    rw [hnext] at hnone
    exact nomatch hnone

end Staged

/-- What an event makes of a system in its stages: someone moves on, and the system does what that
    takes. -/
inductive Advance [DecidableEq ι] [Device σ] (s : System ι σ) (stages : ι → Stage)
    (duty : Progress) : Event ι → System ι σ → (ι → Stage) → Progress → Prop where
  | call {client : ι} (call : Call) (hclear : stages client = .clear) :
      Advance s stages duty (.call client call) (s.setClient client (some call.program))
        (Function.update stages client call.stage) duty
  | access {client : ι} {access : Access} {stage : Stage} (bound : Nat)
      (program : Option (Proc io Unit)) (hready : s.waits access = false)
      (hmove : (stages client).Moves access (Bench.answer access s.bench).1 stage) :
      Advance s stages duty (.access client access (Bench.answer access s.bench).1)
        (({ s.answered access with worker := s.workerAfter bound access } :
          System ι σ).setClient client program) (Function.update stages client stage) duty
  | finish {client : ι} (hout : (stages client).Out) :
      Advance s stages duty (.finish client) (s.setClient client none)
        (Function.update stages client .clear) duty
  | work {access : Access} {duty' : Progress} (program : Proc io Unit) (hworker : s.worker ≠ none)
      (hmove : duty.Works access (Bench.answer access s.bench).1 duty') :
      Advance s stages duty (.work access (Bench.answer access s.bench).1)
        { s.answered access with worker := some program } stages duty'
  | retire (heven : duty = .even) :
      Advance s stages duty .retire { s with worker := none } stages .even
  | outside (link : σ) (line : ResetLine.Probe) :
      Advance s stages duty .outside { s with bench := { s.bench with link, line } } stages duty

/-- Every event of a staged system is a move from someone's stage, and leaves a staged system. -/
theorem Staged.step [DecidableEq ι] [Device σ] {event : Event ι} (hstaged : s.Staged stages duty)
    (hstep : Step s event s') :
    ∃ stages' duty', Advance s stages duty event s' stages' duty' ∧ s'.Staged stages' duty' := by
  cases hstep with
  | call call hidle => exact ⟨_, _, .call call (hstaged.clear_of_none hidle), hstaged.call _ call⟩
  | access bound hnext hready =>
    obtain ⟨stage, hmove, hstaged'⟩ := hstaged.access bound hnext hready
    exact ⟨_, _, .access bound _ hready hmove, hstaged'⟩
  | finish hover => exact ⟨_, _, .finish (hstaged.out_of_over hover), hstaged.finish _⟩
  | work hnext hready =>
    obtain ⟨duty', hmove, hstaged'⟩ := hstaged.work hnext
    exact ⟨_, _, .work _ (hnext ▸ Option.some_ne_none _) hmove, hstaged'⟩
  | retire hover =>
    obtain ⟨heven, hstaged'⟩ := hstaged.retire hover
    exact ⟨_, _, .retire heven, hstaged'⟩
  | outside link line => exact ⟨_, _, .outside link line, hstaged.of_eq rfl rfl rfl rfl⟩

/-- What holds of everyone's stage still does if every call begins with it and whoever moves keeps
    it. -/
theorem Advance.forall_stages [DecidableEq ι] [Device σ] {event : Event ι} {stages' : ι → Stage}
    {duty' : Progress} {p : Stage → Prop} (hadvance : Advance s stages duty event s' stages' duty')
    (hstages : ∀ client, p (stages client)) (hclear : p .clear)
    (hcall : ∀ client call, event = .call client call → p call.stage)
    (hmoves : ∀ client access stage,
      (stages client).Moves access (Bench.answer access s.bench).1 stage → p stage)
    (client : ι) : p (stages' client) := by
  have hset {client : ι} {stage : Stage} (hstage : p stage) (other : ι) :
      p (Function.update stages client stage other) :=
    (Function.forall_update_iff stages fun _ stage => p stage).2
      ⟨hstage, fun other _ => hstages other⟩ other
  cases hadvance with
  | call call hbefore => exact hset (hcall _ call rfl) client
  | access bound program hready hmove => exact hset (hmoves _ _ _ hmove) client
  | finish hout => exact hset hclear client
  | _ => exact hstages client

end System

end DmaLink.Queue
