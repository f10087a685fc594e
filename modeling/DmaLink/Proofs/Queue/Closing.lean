import DmaLink.Proofs.Engine.Geometry
import DmaLink.Proofs.Queue.Deeds
import DmaLink.Proofs.Queue.Stopped

namespace DmaLink.Queue

open Loopback (sourceBase)

variable {ι : Type}

/-- Whether the event leaves a start unfinished. -/
def Event.unfinished (before : Bool) : Event ι → Bool
  | .access _ made _ => made.unfinished before
  | .work made _ => made.unfinished before
  | _ => before

/-- Whether all this has left a start unfinished. -/
def unfinished (events : List (Event ι)) : Bool := events.foldl Event.unfinished false

/-- Whether someone who uses the queue does it. -/
def Event.isInside : Event ι → Bool
  | .outside => false
  | _ => true

/-- Whether the sending channel is left to halt is decided event by event. -/
theorem unfinished_snoc (events : List (Event ι)) (event : Event ι) :
    unfinished (events ++ [event]) = event.unfinished (unfinished events) := by
  rw [unfinished, List.foldl_append]
  rfl

/-- A halt of the sending channel leaves nothing to halt. -/
theorem unfinished_of_halt {offset : Nat} {word : UInt32}
    (hhalt : offset = Channel.mm2s.control → word = Control.halt) :
    (Access.link (.writeRegister offset word)).unfinished false = false := by
  simp only [Access.unfinished]
  split
  · next hoffset =>
    rw [hhalt hoffset]
    rfl
  · rfl

/-- Halts leave no start unfinished. -/
theorem Event.Halts.unfinished {event : Event ι} (hhalts : event.Halts) :
    event.unfinished false = false := by
  cases event with
  | access client made reply =>
    cases made with
    | link access =>
      cases access with
      | writeRegister offset word =>
        exact unfinished_of_halt (hhalts ⟨offset, word⟩ (List.mem_singleton_self _) .mm2s)
      | _ => rfl
    | _ => rfl
  | work made reply =>
    cases made with
    | link access =>
      cases access with
      | writeRegister offset word =>
        exact unfinished_of_halt (hhalts ⟨offset, word⟩ (List.mem_singleton_self _) .mm2s)
      | _ => rfl
    | _ => rfl
  | _ => rfl

/-- A stage of who lets the queue go. -/
def Stage.isLetting : Stage → Bool
  | .closing | .leaving => true
  | _ => false

namespace Stage.Moves

variable {stage stage' : Stage} {access : Access} {reply : access.Reply}

/-- A stage that lets its queue go has done so from its first access on. -/
theorem isLetting (hmove : stage.Moves access reply stage') (hletting : stage'.isLetting = true) :
    stage.isLetting = true := by
  cases hmove with
  | ask running => cases running <;> exact nomatch hletting
  | _ => first | rfl | exact nomatch hletting

/-- Only who has waited for the worker starts the queue. -/
theorem joined_of_isSolo (hmove : stage.Moves access reply stage')
    (hjoined : stage.progress.isSolo = true → stage.phase.joined = true)
    (hsolo : stage'.progress.isSolo = true) : stage'.phase.joined = true := by
  cases hmove with
  | ask running => cases running <;> exact nomatch hsolo
  | close running => cases running <;> exact nomatch hsolo
  | mark joined hpurpose hmarks => cases hmarks <;> exact nomatch hsolo
  | fall joined hlowers hfalls => cases hfalls <;> exact nomatch hsolo
  | join joined hprogress => rfl
  | _ => first | rfl | exact nomatch hsolo

/-- Who has nothing to do with the link only hands buffers over. -/
theorem of_clear (hmove : Stage.clear.Moves access reply stage') :
    stage' = .clear ∧ access.isAside = true := by
  cases hmove <;> exact ⟨rfl, rfl⟩

/-- A worker is started only once both channels run. -/
theorem progress_of_startWorker {reply : Access.Reply .startWorker}
    (hmove : stage.Moves .startWorker reply stage') : stage.progress = .ready := by
  cases hmove
  rfl

/-- Who leaves has seen that the queue does not run. -/
theorem running_of_leaving {σ : Type} [Device σ] {b : Bench σ}
    (hmove : stage.Moves access (Bench.answer access b).1 .leaving) :
    (Bench.answer access b).2.queue.running = false := by
  generalize hreply : (Bench.answer access b).1 = reply at hmove
  generalize hstage : Stage.leaving = stage' at hmove
  cases hmove with
  | close running =>
    cases running with
    | true => exact nomatch hstage
    | false => exact hreply
  | forget => rfl
  | ask running => cases running <;> exact nomatch hstage
  | _ => exact nomatch hstage

end Stage.Moves

/-- The worker starts nothing. -/
theorem Progress.Works.isSolo {progress progress' : Progress} {access : Access}
    {reply : access.Reply} (hmove : progress.Works access reply progress') :
    progress.isSolo = false := by
  cases hmove <;> rfl

/-- How far everyone who uses a queue has come, the worker among them. -/
def everyone (stages : ι → Stage) (duty : Progress) : Option ι → Progress
  | none => duty
  | some client => (stages client).progress

theorem everyone_update [DecidableEq ι] (stages : ι → Stage) (duty : Progress) (client : ι)
    (stage : Stage) : everyone (Function.update stages client stage) duty =
      Function.update (everyone stages duty) (some client) stage.progress := by
  funext who
  cases who with
  | none => exact (Function.update_of_ne (by simp) _ _).symm
  | some other =>
    by_cases hsame : other = client
    · rw [everyone, hsame, Function.update_self, Function.update_self]
    · rw [everyone, Function.update_of_ne hsame, Function.update_of_ne (by simpa using hsame)]
      rfl

theorem everyone_work [DecidableEq ι] (stages : ι → Stage) (duty duty' : Progress) :
    everyone stages duty' = Function.update (everyone stages duty) none duty' := by
  funext who
  cases who with
  | none => exact (Function.update_self none duty' (everyone stages duty)).symm
  | some other =>
    exact (Function.update_of_ne (Option.some_ne_none other) duty' (everyone stages duty)).symm

/-- A client that is out of the engine has nothing under way. -/
theorem Stage.Out.progress {stage : Stage} (hout : stage.Out) : stage.progress = .even := by
  cases hout <;> rfl

theorem Stage.progress_of_free {stage : Stage} (hfree : stage.phase.holds = false) :
    stage.progress = .even := by
  cases stage <;> first | rfl | exact nomatch hfree

namespace System

variable {s s' : System ι Loopback} {stages stages' : ι → Stage} {duty duty' : Progress}
  {loose : Bool} {event : Event ι} {events : List (Event ι)} {owner : ι}

/-- A queue on a simulated device whose clients are in these stages and whose worker has come so
    far. -/
structure Tended (s : System ι Loopback) (stages : ι → Stage) (duty : Progress) (loose : Bool) :
    Prop where
  kept : Kept s.bench (everyone stages duty) loose
  worker : loose = true → s.worker = none
  joined : ∀ client, (stages client).progress.isSolo = true →
    (stages client).phase.joined = true
  leaving : ∀ client, stages client = .leaving → s.bench.queue.running = false

/-- What may happen to a queue from outside: its device is stalled or released, its reset line does
    something, or the wait limit is changed. -/
inductive Surrounds (s : System ι Loopback) : System ι Loopback → Prop where
  | stall (stalled : Bool) :
      Surrounds s { s with bench := { s.bench with link := s.bench.link.setStalled stalled } }
  | line (line : ResetLine.Probe) : Surrounds s { s with bench := { s.bench with line } }
  | limit (timeout : Duration) :
      Surrounds s { s with bench := { s.bench with
        queue := { s.bench.queue with engine := s.bench.queue.engine.setTimeout timeout } } }

theorem Surrounds.staged (hsurrounds : Surrounds s s') (hstaged : s.Staged stages duty) :
    s'.Staged stages duty := by
  cases hsurrounds <;> exact hstaged.of_eq rfl rfl rfl rfl

theorem Surrounds.tended (hsurrounds : Surrounds s s') (htended : s.Tended stages duty loose) :
    s'.Tended stages duty loose := by
  obtain ⟨⟨hsettled, hfits, hup, hbase, hwindow⟩, hworker, hjoined, hleaving⟩ := htended
  cases hsurrounds with
  | stall stalled =>
    have hsubsides := Loopback.subsides_setStalled s.bench.link stalled
    have hport := Loopback.port_setStalled s.bench.link stalled
    refine ⟨⟨?_, fun who => ?_, fun hloose => ⟨(hup hloose).stopped, ?_⟩, hbase, ?_⟩, hworker,
      hjoined, hleaving⟩
    · exact hsettled.imp_left fun hbefore => hbefore.subsides hsubsides rfl
    · exact (hfits who).mono hsubsides (fun _ => congrArg Loopback.Port.address hport) id
    · exact (Loopback.running_of_port hport).trans (hup hloose).up
    · rw [Loopback.windowSize_setStalled]
      exact hwindow
  | line line =>
    exact ⟨⟨hsettled, hfits, fun hloose => ⟨(hup hloose).stopped, (hup hloose).up⟩, hbase, hwindow⟩,
      hworker, hjoined, hleaving⟩
  | limit timeout =>
    exact ⟨⟨hsettled, hfits, fun hloose => ⟨(hup hloose).stopped, (hup hloose).up⟩, hbase, hwindow⟩,
      hworker, hjoined, hleaving⟩

section Steps

variable [DecidableEq ι]

omit [DecidableEq ι] in
theorem tended_create {mode : SyncMode} {sourceWords destinationWords burstWords : Nat}
    {lines : Option Interrupt.Lines} {engine : Engine}
    (hcreate : Engine.create mode
      ((Loopback.create sourceWords destinationWords lines).geometry burstWords) = .ok engine)
    (line : ResetLine.Probe) :
    (create (ι := ι) engine (Loopback.create sourceWords destinationWords lines) line).Tended
      (fun _ => .clear) .even false := by
  obtain ⟨-, -, hburst, hsource, -⟩ := Engine.create_eq_ok hcreate
  obtain ⟨-, hhalves, -, hsplit⟩ := Split.fit_eq_ok_iff.1 hsource
  rw [Engine.geometry_create] at hburst hhalves hsplit
  have hdown := Loopback.running_create sourceWords destinationWords lines
  refine ⟨⟨.inl (.inr ⟨hdown .s2mm, .inl (hdown .mm2s)⟩), fun who => ?_,
    fun hnone => Bool.noConfusion hnone, ?_, ?_⟩, fun hnone => Bool.noConfusion hnone,
    fun _ hnone => Bool.noConfusion hnone, fun _ hnone => Stage.noConfusion hnone⟩
  · cases who <;> trivial
  · exact congrArg Split.base hsplit
  · have hsize : (Loopback.create sourceWords destinationWords lines).windowSize .mm2s =
        sourceWords := by
      simp [Loopback.windowSize, Loopback.create, Loopback.powerOn, Loopback.setRegister,
        Window.size, Window.zeroed]
    have hwords : 2 * (burstWords + 1) ≤ sourceWords := hhalves
    exact Nat.lt_of_lt_of_eq (by omega) hsize.symm

/-- A client that comes from one call to the next, or is in none, has nothing to do with the
    channels. -/
theorem Tended.set (htended : s.Tended stages duty loose) {client : ι} {stage : Stage}
    {program : Option (Proc io Unit)} (hbefore : (stages client).progress = .even)
    (hstage : stage.progress = .even) (hleaving : stage ≠ .leaving) :
    (s.setClient client program).Tended (Function.update stages client stage) duty loose := by
  have heveryone : everyone (Function.update stages client stage) duty = everyone stages duty := by
    rw [everyone_update, hstage, ← hbefore]
    exact Function.update_eq_self (some client) (everyone stages duty)
  refine ⟨heveryone ▸ htended.kept, htended.worker, ?_, ?_⟩
  · refine (Function.forall_update_iff stages fun _ stage =>
      stage.progress.isSolo = true → stage.phase.joined = true).2 ⟨fun hsolo => ?_, fun other _ =>
        htended.joined other⟩
    rw [hstage] at hsolo
    exact nomatch hsolo
  · exact (Function.forall_update_iff stages fun _ stage =>
      stage = .leaving → s.bench.queue.running = false).2
        ⟨fun hnone => absurd hnone hleaving, fun other _ => htended.leaving other⟩

omit [DecidableEq ι] in
/-- Nobody else holds the lock, and there is no worker, while a client starts the queue. -/
theorem Tended.alone (htended : s.Tended stages duty loose) (hstaged : s.Staged stages duty)
    {client : ι} (hsolo : (stages client).progress.isSolo = true) :
    s.worker = none ∧ ∀ who, who ≠ some client → everyone stages duty who = .even := by
  have hjoined := htended.joined client hsolo
  have hnone := hstaged.locking.joined client hjoined
  refine ⟨hnone, fun who hwho => ?_⟩
  cases who with
  | none =>
    have hworker := hstaged.worker
    rw [hnone] at hworker
    exact hworker
  | some other =>
    exact Stage.progress_of_free (hstaged.locking.alone (Phase.holds_of_joined hjoined)
      fun hsame => hwho (hsame ▸ rfl))

theorem isStopped_progress (stage : Stage) : stage.progress.isStopped = stage.isStopped := by
  cases stage <;> rfl

omit [DecidableEq ι] in
/-- No worker is started while a start is unfinished. -/
theorem Tended.workerAfter (htended : s.Tended stages duty loose) (hstaged : s.Staged stages duty)
    {client : ι} {access : Access} {stage : Stage} (bound : Nat)
    (hmove : (stages client).Moves access (Bench.answer access s.bench).1 stage)
    (hunfinished : access.unfinished loose = true) : s.workerAfter bound access = none := by
  have hstart : access ≠ .startWorker := by
    rintro rfl
    have hfits := htended.kept.fits (some client)
    rw [everyone, hmove.progress_of_startWorker] at hfits
    exact nomatch hunfinished.symm.trans hfits
  have hworker : s.workerAfter bound access = s.worker := by
    cases access <;> first | rfl | exact absurd rfl hstart
  rw [hworker]
  cases halone : (stages client).progress.isSolo with
  | true => exact (htended.alone hstaged halone).1
  | false =>
    have hmild : Mild s.bench false access loose :=
      (hmove.deed (htended.leaving client)).mild halone
    exact htended.worker (hmild.loose hunfinished)

/-- An access of a client keeps a queue tended. -/
theorem Tended.access (htended : s.Tended stages duty loose) (hstaged : s.Staged stages duty)
    {client : ι} {access : Access} {stage : Stage} (bound : Nat)
    (program : Option (Proc io Unit))
    (hmove : (stages client).Moves access (Bench.answer access s.bench).1 stage)
    (hletting : ∀ other, stages other = .leaving → other ≠ client →
      (Bench.answer access s.bench).2.queue.running = false) :
    (({ s.answered access with worker := s.workerAfter bound access } :
      System ι Loopback).setClient client program).Tended (Function.update stages client stage)
        duty (access.unfinished loose) := by
  have hdeed := hmove.deed (htended.leaving client)
  refine ⟨?_, fun hloose => ?_, ?_, ?_⟩
  · rw [everyone_update]
    refine htended.kept.deed hdeed (fun _ hstopped => hstaged.stopped client ?_)
      (fun hsolo => (htended.alone hstaged hsolo).2) fun hnone => Bool.noConfusion hnone
    rwa [← isStopped_progress]
  · exact htended.workerAfter hstaged bound hmove hloose
  · exact (Function.forall_update_iff stages fun _ stage =>
      stage.progress.isSolo = true → stage.phase.joined = true).2
        ⟨hmove.joined_of_isSolo (htended.joined client), fun other _ => htended.joined other⟩
  · refine (Function.forall_update_iff stages fun _ stage =>
      stage = .leaving → (Bench.answer access s.bench).2.queue.running = false).2
        ⟨fun hleaving => ?_, fun other hother hleaving => hletting other hleaving hother⟩
    subst hleaving
    exact hmove.running_of_leaving

/-- An access of the worker keeps a queue tended. -/
theorem Tended.work (htended : s.Tended stages duty loose) (hstaged : s.Staged stages duty)
    {access : Access} (program : Proc io Unit) (hworker : s.worker ≠ none)
    (hmove : duty.Works access (Bench.answer access s.bench).1 duty') :
    ({ s.answered access with worker := some program } : System ι Loopback).Tended stages duty'
      (access.unfinished loose) := by
  have hloose : loose = false := Bool.eq_false_iff.2 fun hloose => hworker (htended.worker hloose)
  have hfree (client : ι) : (stages client).progress.isSolo = false :=
    Bool.eq_false_iff.2 fun hsolo => hworker (htended.alone hstaged hsolo).1
  refine ⟨?_, fun hunfinished => ?_, htended.joined, fun client hleaving => ?_⟩
  · rw [everyone_work stages duty]
    refine htended.kept.deed hmove.deed (fun hnone => Bool.noConfusion hnone) (fun hsolo => ?_)
      fun _ => ⟨hloose, fun who => ?_⟩
    · exact nomatch hmove.isSolo.symm.trans hsolo
    · cases who with
      | none => exact hmove.isSolo
      | some client => exact hfree client
  · have hmild : Mild s.bench true access loose := hmove.deed.mild hmove.isSolo
    exact nomatch hloose.symm.trans (hmild.loose hunfinished)
  · exact hmove.running_answer (htended.leaving client hleaving)

/-- No event makes a client let the queue go that did not before. -/
theorem Advance.isLetting (hadvance : Advance s stages duty event s' stages' duty')
    (hletting : ∀ client, (stages client).isLetting = false) (client : ι) :
    (stages' client).isLetting = false := by
  refine hadvance.forall_stages (p := fun stage => stage.isLetting = false) hletting rfl
    (fun _ call _ => by cases call <;> rfl)
    (fun other access stage hmove => Bool.eq_false_iff.2 fun hstage => ?_) client
  exact nomatch (hletting other).symm.trans (hmove.isLetting hstage)

/-- Every event but what comes from outside keeps the channels as the queue has them. -/
theorem Tended.advance (htended : s.Tended stages duty loose) (hstaged : s.Staged stages duty)
    (hadvance : Advance s stages duty event s' stages' duty') (hinside : event.isInside = true)
    (hletting : ∀ client, stages client = .leaving → ∀ other, other ≠ client →
      stages other = .clear) : s'.Tended stages' duty' (event.unfinished loose) := by
  cases hadvance with
  | @call client call hclear =>
    refine htended.set (hclear ▸ rfl) ?_ ?_
    · cases call <;> rfl
    · cases call <;> exact Stage.noConfusion
  | @access client access stage bound program hready hmove =>
    refine htended.access hstaged bound program hmove fun other hleaving hother => ?_
    rw [hletting other hleaving client (Ne.symm hother)] at hmove
    exact (running_answer_of_isAside hmove.of_clear.2 s.bench).trans
      (htended.leaving other hleaving)
  | finish hout => exact htended.set hout.progress rfl Stage.noConfusion
  | work program hworker hmove => exact htended.work hstaged program hworker hmove
  | retire heven =>
    exact ⟨heven ▸ htended.kept, fun _ => rfl, htended.joined, htended.leaving⟩
  | outside link line => exact nomatch hinside

end Steps

/-- What happens to a queue on a simulated device: someone who uses it goes on, or something comes
    from outside. -/
inductive Course [DecidableEq ι] (s : System ι Loopback) :
    List (Event ι) → System ι Loopback → Prop where
  | start : Course s [] s
  | inside {events : List (Event ι)} {event : Event ι} {s' s'' : System ι Loopback}
      (hcourse : Course s events s') (hstep : Step s' event s'') (hinside : event.isInside = true) :
      Course s (events ++ [event]) s''
  | around {events : List (Event ι)} {s' s'' : System ι Loopback} (hcourse : Course s events s')
      (hsurrounds : Surrounds s' s'') : Course s events s''

section Courses

variable [DecidableEq ι]

/-- Along any course a queue stays tended. -/
theorem Course.tended {mode : SyncMode} {sourceWords destinationWords burstWords : Nat}
    {lines : Option Interrupt.Lines} {engine : Engine} {line : ResetLine.Probe}
    (hcreate : Engine.create mode
      ((Loopback.create sourceWords destinationWords lines).geometry burstWords) = .ok engine)
    (hcourse : Course (create engine (Loopback.create sourceWords destinationWords lines) line)
      events s) :
    ∃ stages duty, s.Staged stages duty ∧ s.Tended stages duty (unfinished events) ∧
      ∀ client, (stages client).isLetting = false := by
  induction hcourse with
  | start =>
    exact ⟨_, _, staged_create _ _ _, tended_create hcreate line, fun _ => rfl⟩
  | @inside events event s' s'' hcourse hstep hinside ih =>
    obtain ⟨stages, duty, hstaged, htended, hletting⟩ := ih
    obtain ⟨stages', duty', hadvance, hstaged'⟩ := hstaged.step hstep
    rw [unfinished_snoc]
    refine ⟨stages', duty', hstaged', htended.advance hstaged hadvance hinside ?_, ?_⟩
    · intro client hleaving
      have hnone := hletting client
      rw [hleaving] at hnone
      exact nomatch hnone
    · exact hadvance.isLetting hletting
  | around hcourse hsurrounds ih =>
    obtain ⟨stages, duty, hstaged, htended, hletting⟩ := ih
    exact ⟨stages, duty, hsurrounds.staged hstaged, hsurrounds.tended htended, hletting⟩

/-- How far the owner has come in letting the queue go. A start that was left unfinished stays so:
    the owner finds the queue stopped then. -/
inductive Retreat (s : System ι Loopback) (loose : Bool) : Stage → Prop where
  | closing : Retreat s loose .closing
  | leaving : Retreat s loose .leaving
  | waiting (hloose : loose = false) : Retreat s loose (.bound .stop)
  | stopping (joined : Bool) (progress : Progress) (hloose : loose = false) :
      Retreat s loose (.held .stop joined progress)
  | gone (hstopped : s.Stopped) : Retreat s loose .clear

omit [DecidableEq ι] in
/-- A client on the retreat starts nothing. -/
theorem Retreat.isCalm {stage : Stage} (hretreat : s.Retreat loose stage) :
    stage.isCalm = true := by
  cases hretreat <;> rfl

omit [DecidableEq ι] in
/-- Once the retreat is over the queue is stopped. -/
theorem Retreat.stopped {stage : Stage} (hretreat : s.Retreat loose stage) (hout : stage.Out) :
    s.Stopped := by
  cases hretreat with
  | gone hstopped => exact hstopped
  | _ => exact nomatch hout

omit [DecidableEq ι] in
theorem Retreat.mono {stage : Stage} (hretreat : s.Retreat loose stage)
    (hstopped : s.Stopped → s'.Stopped) : s'.Retreat loose stage := by
  cases hretreat with
  | closing => exact .closing
  | leaving => exact .leaving
  | waiting hloose => exact .waiting hloose
  | stopping joined progress hloose => exact .stopping joined progress hloose
  | gone hbefore => exact .gone (hstopped hbefore)

omit [DecidableEq ι] in
/-- The owner goes on to let the queue go, and finds it stopped if a start was left unfinished. -/
theorem Retreat.access (hretreat : s.Retreat loose (stages owner))
    (hstaged : s.Staged stages duty) (htended : s.Tended stages duty loose) {access : Access}
    {stage : Stage} (hready : s.waits access = false)
    (hmove : (stages owner).Moves access (Bench.answer access s.bench).1 stage)
    (hhalts : (Event.access owner access (Bench.answer access s.bench).1).Halts) :
    access.unfinished loose = loose ∧ ∀ s' : System ι Loopback,
      s'.bench.queue.running = (Bench.answer access s.bench).2.queue.running →
        s'.worker = s.worker → s'.Retreat loose stage := by
  have hstill (hloose : loose = false) : access.unfinished loose = loose := by
    rw [hloose]
    exact hhalts.unfinished
  have hjoined := hstaged.locking.joined owner
  have hstopped := hstaged.stopped owner
  have hleaving := htended.leaving owner
  generalize stages owner = before at hretreat hmove hjoined hstopped hleaving
  cases hretreat with
  | closing =>
    generalize hreply : (Bench.answer access s.bench).1 = reply at hmove
    cases hmove with
    | close running =>
      obtain rfl : s.bench.queue.running = running := hreply
      refine ⟨rfl, fun s' _ _ => ?_⟩
      cases hruns : s.bench.queue.running with
      | false => exact .leaving
      | true =>
        refine .waiting (Bool.eq_false_iff.2 fun hloose => ?_)
        exact nomatch hruns.symm.trans (htended.kept.stranded hloose).stopped
  | leaving =>
    generalize (Bench.answer access s.bench).1 = reply at hmove
    cases hmove with
    | forget => exact ⟨Bool.and_true loose, fun _ _ _ => .leaving⟩
    | leave =>
      refine ⟨rfl, fun s' hrunning hworker =>
        .gone ⟨hrunning.trans (hleaving rfl), hworker.trans ?_⟩⟩
      exact Option.not_isSome_iff_eq_none.1 (Bool.eq_false_iff.1 hready)
  | waiting hloose =>
    refine ⟨hstill hloose, fun s' _ _ => ?_⟩
    generalize (Bench.answer access s.bench).1 = reply at hmove
    cases hmove with
    | lock => exact .stopping _ _ hloose
  | stopping joined progress hloose =>
    refine ⟨hstill hloose, fun s' hrunning hworker => ?_⟩
    rcases hmove.stopping with ⟨joined, progress, rfl⟩ | ⟨rfl, rfl, rfl, rfl⟩
    · exact .stopping _ _ hloose
    · exact .gone ⟨hrunning.trans (hstopped rfl), hworker.trans (hjoined rfl)⟩
  | gone hbefore =>
    obtain ⟨rfl, haside⟩ := hmove.of_clear
    have hkeeps := running_answer_of_isAside haside s.bench
    exact ⟨unfinished_of_isAside haside loose, fun s' hrunning hworker =>
      .gone ⟨hrunning.trans (hkeeps.trans hbefore.running), hworker.trans hbefore.worker⟩⟩

/-- With everyone else out of the way the retreat goes on. -/
theorem Retreat.advance (hretreat : s.Retreat loose (stages owner))
    (hothers : ∀ other, other ≠ owner → stages other = .clear) (hstaged : s.Staged stages duty)
    (htended : s.Tended stages duty loose)
    (hadvance : Advance s stages duty event s' stages' duty')
    (hcalls : event.allCalls (fun _ => false) = true) :
    event.unfinished loose = loose ∧ s'.Retreat loose (stages' owner) ∧
      ∀ other, other ≠ owner → stages' other = .clear := by
  have hcalm (client : ι) : (stages client).isCalm = true := by
    by_cases hsame : client = owner
    · rw [hsame]
      exact hretreat.isCalm
    · rw [hothers client hsame]
      rfl
  have hstopped := hadvance.stopped hcalm
  have hhalts := hadvance.halts hcalm
  cases hadvance with
  | call call hclear => exact nomatch hcalls
  | @access client access stage bound program hready hmove =>
    by_cases hsame : client = owner
    · subst hsame
      rw [Function.update_self]
      obtain ⟨hstill, hretreat'⟩ := hretreat.access hstaged htended hready hmove hhalts
      exact ⟨hstill, hretreat' _ rfl (hmove.workerAfter_of_isCalm (hcalm client) bound),
        fun other hother => (Function.update_of_ne hother _ _).trans (hothers other hother)⟩
    · rw [hothers client hsame] at hmove
      obtain ⟨rfl, haside⟩ := hmove.of_clear
      rw [Function.update_of_ne (Ne.symm hsame)]
      refine ⟨unfinished_of_isAside haside loose, hretreat.mono hstopped, fun other hother => ?_⟩
      by_cases hclient : other = client
      · rw [hclient, Function.update_self]
      · exact (Function.update_of_ne hclient _ _).trans (hothers other hother)
  | @finish client hout =>
    refine ⟨rfl, ?_, fun other hother => ?_⟩
    · by_cases hsame : owner = client
      · subst hsame
        rw [Function.update_self]
        exact .gone (hstopped (hretreat.stopped hout))
      · rw [Function.update_of_ne hsame]
        exact hretreat.mono hstopped
    · by_cases hsame : other = client
      · rw [hsame, Function.update_self]
      · rw [Function.update_of_ne hsame]
        exact hothers other hother
  | work program hworker hmove =>
    have hloose : loose = false := Bool.eq_false_iff.2 fun hloose => hworker (htended.worker hloose)
    refine ⟨?_, hretreat.mono hstopped, hothers⟩
    rw [hloose]
    exact hhalts.unfinished
  | retire heven => exact ⟨rfl, hretreat.mono hstopped, hothers⟩
  | outside link line => exact ⟨rfl, hretreat.mono hstopped, hothers⟩

/-- The owner lets the queue go while nobody else uses it. -/
theorem Course.retreat (hcourse : Course s events s')
    (hretreat : s.Retreat loose (stages owner))
    (hothers : ∀ other, other ≠ owner → stages other = .clear) (hstaged : s.Staged stages duty)
    (htended : s.Tended stages duty loose)
    (hcalls : ∀ event ∈ events, event.allCalls (fun _ => false) = true) :
    ∃ stages' duty', s'.Staged stages' duty' ∧ s'.Tended stages' duty' loose ∧
      s'.Retreat loose (stages' owner) ∧ ∀ other, other ≠ owner → stages' other = .clear := by
  induction hcourse with
  | start => exact ⟨stages, duty, hstaged, htended, hretreat, hothers⟩
  | @inside events event s' s'' hcourse hstep hinside ih =>
    obtain ⟨stages', duty', hstaged', htended', hretreat', hothers'⟩ :=
      ih fun event hevent => hcalls event (List.mem_append_left _ hevent)
    obtain ⟨stages'', duty'', hadvance, hstaged''⟩ := hstaged'.step hstep
    obtain ⟨hstill, hretreat'', hothers''⟩ := hretreat'.advance hothers' hstaged' htended' hadvance
      (hcalls event (List.mem_append_right _ (List.mem_singleton_self _)))
    refine ⟨stages'', duty'', hstaged'', ?_, hretreat'', hothers''⟩
    rw [← hstill]
    refine htended'.advance hstaged' hadvance hinside fun client hleaving other hother => ?_
    have howner : client = owner := Decidable.byContradiction fun hclient => by
      rw [hothers' client hclient] at hleaving
      exact nomatch hleaving
    exact hothers' other (howner ▸ hother)
  | around hcourse hsurrounds ih =>
    obtain ⟨stages', duty', hstaged', htended', hretreat', hothers'⟩ := ih hcalls
    refine ⟨stages', duty', hsurrounds.staged hstaged', hsurrounds.tended htended',
      hretreat'.mono fun hstopped => ?_, hothers'⟩
    cases hsurrounds <;> exact ⟨hstopped.running, hstopped.worker⟩

theorem Course.append {later : List (Event ι)} {s'' : System ι Loopback}
    (hcourse : Course s events s') (hrun : Run s' later s'')
    (hinside : ∀ event ∈ later, event.isInside = true) : Course s (events ++ later) s'' := by
  induction hrun with
  | start => exact (List.append_nil events).symm ▸ hcourse
  | step hrun hstep ih =>
    rw [← List.append_assoc]
    exact (ih fun event hevent => hinside event (List.mem_append_left _ hevent)).inside hstep
      (hinside _ (List.mem_append_right _ (List.mem_singleton_self _)))

/-- Whether nothing is left of a call. -/
def isOver : Option (Proc io Unit) → Bool
  | some (.ret ()) => true
  | _ => false

theorem eq_of_isOver {program : Option (Proc io Unit)} (hover : isOver program = true) :
    program = some (.ret ()) := by
  cases program with
  | none => exact nomatch hover
  | some program =>
    cases program with
    | ret result => rfl
    | act access next => exact nomatch hover

/-- Once the owner has let the queue go, both channels are down, unless a start was left unfinished:
    then the sending channel is still up. -/
theorem halted_of_close {mode : SyncMode} {sourceWords destinationWords burstWords : Nat}
    {lines : Option Interrupt.Lines} {engine : Engine} {line : ResetLine.Probe}
    {later : List (Event ι)}
    (hcreate : Engine.create mode
      ((Loopback.create sourceWords destinationWords lines).geometry burstWords) = .ok engine)
    (hcourse : Course (create engine (Loopback.create sourceWords destinationWords lines) line)
      events s)
    (hidle : ∀ client, s.clients client = none)
    (hdrop : Course (s.setClient owner (some Queue.close)) later s')
    (hcalls : ∀ event ∈ later, event.allCalls (fun _ => false) = true)
    (hover : s'.clients owner = some (.ret ())) :
    s'.Stopped ∧ Status.isHalted (s'.bench.link.status .s2mm) = true ∧
      Status.isHalted (s'.bench.link.status .mm2s) = !unfinished events := by
  obtain ⟨stages, duty, hstaged, htended, -⟩ := hcourse.tended hcreate
  have hclear (client : ι) : stages client = .clear := hstaged.clear_of_none (hidle client)
  have hclosing : Stage.Of (some Queue.close) .closing :=
    staged_close.mono fun _ _ hstage => hstage ▸ .clear
  have hstaged₁ : (s.setClient owner (some Queue.close)).Staged
      (Function.update stages owner .closing) duty := hstaged.set hclosing rfl
  have htended₁ : (s.setClient owner (some Queue.close)).Tended
      (Function.update stages owner .closing) duty (unfinished events) :=
    htended.set (hclear owner ▸ rfl) rfl Stage.noConfusion
  obtain ⟨stages', duty', hstaged', htended', hretreat, hothers⟩ :=
    hdrop.retreat ((Function.update_self owner _ stages).symm ▸ .closing)
      (fun other hother => (Function.update_of_ne hother _ _).trans (hclear other)) hstaged₁
      htended₁ hcalls
  have hstopped := hretreat.stopped (hstaged'.out_of_over hover)
  -- Nobody is midway in bringing a channel down or up any more.
  have heven (who : Option ι) : everyone stages' duty' who = .even := by
    cases who with
    | none =>
      have hworker := hstaged'.worker
      rw [hstopped.worker] at hworker
      exact hworker
    | some client =>
      by_cases hsame : client = owner
      · exact hsame ▸ (hstaged'.out_of_over hover).progress
      · exact congrArg Stage.progress (hothers client hsame)
  have hsettled := htended'.kept.settled.resolve_right fun ⟨who, hmidway⟩ => by
    rw [heven who] at hmidway
    exact nomatch hmidway
  obtain ⟨hs2mm, hmm2s⟩ := hsettled.resolve_left fun hruns =>
    nomatch hruns.symm.trans hstopped.running
  have hhalted (channel : Channel) : Status.isHalted (s'.bench.link.status channel) =
      !s'.bench.link.running channel := (Bool.not_not _).symm
  rw [hhalted, hhalted, hs2mm]
  refine ⟨hstopped, rfl, congrArg not ?_⟩
  cases hloose : unfinished events with
  | true => exact (htended'.kept.stranded hloose).up
  | false => exact hmm2s.resolve_right fun hunfinished => nomatch hloose.symm.trans hunfinished

/-- A device with windows of 6 and 256 words is stalled. Its queue is started, and the wait for the
    first burst times out. Then the queue is let go. -/
theorem halted_of_close_timedOut :
    ∃ (engine : Engine) (events later : List (Event Unit)) (s s' : System Unit Loopback),
      Engine.create .poll ((Loopback.create 6 256 none).geometry 2) = .ok engine ∧
      Course (create engine (Loopback.create 6 256 none) {}) events s ∧
      (∀ client, s.clients client = none) ∧
      Course (s.setClient () (some Queue.close)) later s' ∧
      s'.clients () = some (.ret ()) ∧ unfinished events = true ∧
      s'.Stopped ∧ Status.isHalted (s'.bench.link.status .s2mm) = true ∧
      Status.isHalted (s'.bench.link.status .mm2s) = !unfinished events := by
  let engine : Engine := ⟨.poll, ⟨6, Loopback.sourceBase, 3⟩, ⟨256, Loopback.destinationBase, 32⟩,
    Engine.limitOf defaultTimeout, 256, 2⟩
  have hcreate : Engine.create .poll ((Loopback.create 6 256 none).geometry 2) = .ok engine := by
    rw [Engine.geometry_create]
    rfl
  let created : System Unit Loopback := create engine (Loopback.create 6 256 none) {}
  let stalled : System Unit Loopback :=
    { created with bench := { created.bench with link := created.bench.link.setStalled true } }
  have hplayed : ((stalled.playAll (.call () (.initialise 1 1024) ::
      List.replicate 19 (.client () 0))).bind fun out =>
        ((out.2.setClient () (some Queue.close)).playAll (List.replicate 3 (.client () 0))).map
          fun last => (unfinished out.1, out.1.all Event.isInside, (out.2.clients ()).isNone,
            last.1.all Event.isInside, last.1.all (Event.allCalls fun _ => false),
            isOver (last.2.clients ()))) = some (true, true, true, true, true, true) := by
    decide +kernel
  obtain ⟨⟨events, s⟩, hevents, hplayed⟩ := Option.bind_eq_some_iff.1 hplayed
  obtain ⟨⟨later, s'⟩, hlater, hout⟩ := Option.map_eq_some_iff.1 hplayed
  simp only [Prod.mk.injEq] at hout
  obtain ⟨hunfinished, hinside, hidle, hinside', hcalls, hover⟩ := hout
  have hstalled : Course created [] stalled := .around .start (.stall true)
  have hcourse : Course created events s :=
    hstalled.append (run_of_playAll hevents) (List.all_eq_true.1 hinside)
  have hdrop : Course (s.setClient () (some Queue.close)) later s' :=
    Course.start.append (run_of_playAll hlater) (List.all_eq_true.1 hinside')
  have hnobody (client : Unit) : s.clients client = none := Option.isNone_iff_eq_none.1 hidle
  exact ⟨engine, events, later, s, s', hcreate, hcourse, hnobody, hdrop, eq_of_isOver hover,
    hunfinished, halted_of_close hcreate hcourse hnobody hdrop (List.all_eq_true.1 hcalls)
      (eq_of_isOver hover)⟩

end Courses

end System

end DmaLink.Queue
