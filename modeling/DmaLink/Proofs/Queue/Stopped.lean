import DmaLink.Proofs.Queue.Conservation
import DmaLink.Proofs.Queue.Histories
import DmaLink.Proofs.Queue.Lifecycle

namespace DmaLink.Queue

variable {ι σ : Type}

def Purpose.isStart : Purpose → Bool
  | .start => true
  | _ => false

def Purpose.isInspect : Purpose → Bool
  | .inspect => true
  | _ => false

/-- A stage of a call that brings no channel up unless it takes a read up again. -/
def Stage.isSober : Stage → Bool
  | .bound purpose => !purpose.isStart
  | .resetting => false
  | _ => true

/-- The stages that a call leads through. -/
inductive Stage.Within : Stage → Option Call → Prop where
  | clear (call : Option Call) : Within .clear call
  | resetting : Within .resetting (some .reset)
  | starts (bound readLength : Nat) : Within (.bound .start) (some (.initialise bound readLength))
  | starting (joined : Bool) (progress : Progress) (bound readLength : Nat) :
      Within (.held .start joined progress) (some (.initialise bound readLength))
  | stops : Within (.bound .stop) (some .stop)
  | stopping (joined : Bool) (progress : Progress) :
      Within (.held .stop joined progress) (some .stop)
  | asking (chunks bound : Nat) (buffer : List UInt64) :
      Within .asking (some (.read chunks bound buffer))
  | reading {left : Nat} (hleft : left ≤ 4) (chunks bound : Nat) (buffer : List UInt64) :
      Within (.reading left) (some (.read chunks bound buffer))
  | inspecting (joined : Bool) (progress : Progress) (chunks bound : Nat) (buffer : List UInt64) :
      Within (.held .inspect joined progress) (some (.read chunks bound buffer))
  | recovering (joined : Bool) (progress : Progress) (chunks bound : Nat) (buffer : List UInt64) :
      Within (.held .start joined progress) (some (.read chunks bound buffer))

theorem Call.stage_within (call : Call) : call.stage.Within (some call) := by
  cases call <;> constructor

/-- Within a call that revives nothing a stage is sober. -/
theorem Stage.Within.isSober {stage : Stage} {call : Option Call} (hwithin : stage.Within call)
    (hcall : call.all (!·.isRevival) = true) : stage.isSober = true := by
  cases hwithin <;> first | rfl | exact nomatch hcall

/-- Draining leaves at most four writes to make. -/
theorem le_of_drains {left left' : Nat} {access : Link.io.Access} {reply : Link.io.Reply access}
    (hdrains : Link.Drains left access reply left') (hleft : left ≤ 4) : left' ≤ 4 := by
  cases hdrains with
  | look limit finished => cases finished <;> decide
  | take count => exact Nat.le_refl 4
  | write left' hoffset value => omega
  | _ => exact hleft

theorem Stage.Moves.within {stage stage' : Stage} {access : Access} {reply : access.Reply}
    {call : Option Call} (hmove : stage.Moves access reply stage') (hwithin : stage.Within call) :
    stage'.Within call := by
  cases hmove with
  | ask running =>
    cases hwithin
    cases running
    · exact .clear _
    · exact .reading (by decide) _ _ _
  | read hdrains =>
    cases hwithin with
    | reading hleft => exact .reading (le_of_drains hdrains hleft) _ _ _
  | find running =>
    cases hwithin
    cases running
    · exact .inspecting _ _ _ _ _
    · exact .recovering _ _ _ _ _
  | unlock hleaves => exact .clear _
  | _ => cases hwithin <;> constructor <;> assumption
namespace System

variable {s s' : System ι σ} {stages stages' : ι → Stage} {duty duty' : Progress} {owner : ι}
  {event : Event ι} {events : List (Event ι)}

/-- A staged system in which every client is in a stage of the call that it is in. -/
structure Booked (s : System ι σ) [DecidableEq ι] (events : List (Event ι)) (stages : ι → Stage)
    (duty : Progress) : Prop where
  staged : s.Staged stages duty
  within : ∀ client, (stages client).Within (underWay client events)

variable [DecidableEq ι] [Device σ]

theorem Advance.within (hadvance : Advance s stages duty event s' stages' duty')
    (hwithin : ∀ client, (stages client).Within (underWay client events)) (client : ι) :
    (stages' client).Within (underWay client (events ++ [event])) := by
  rw [underWay_snoc]
  cases hadvance with
  | @call other call hclear =>
    by_cases hsame : client = other
    · subst hsame
      rw [Function.update_self, Event.callOf, if_pos rfl]
      exact call.stage_within
    · rw [Function.update_of_ne hsame, Event.callOf, if_neg (Ne.symm hsame)]
      exact hwithin client
  | @access other access stage bound program hready hmove =>
    by_cases hsame : client = other
    · subst hsame
      rw [Function.update_self]
      exact hmove.within (hwithin client)
    · rw [Function.update_of_ne hsame]
      exact hwithin client
  | @finish other hout =>
    by_cases hsame : client = other
    · rw [hsame, Function.update_self]
      exact .clear _
    · rw [Function.update_of_ne hsame, Event.callOf, if_neg (Ne.symm hsame)]
      exact hwithin client
  | _ => exact hwithin client

/-- Each step is booked. -/
theorem Booked.step (hbooked : s.Booked events stages duty) (hstep : Step s event s') :
    ∃ stages' duty', Advance s stages duty event s' stages' duty' ∧
      s'.Booked (events ++ [event]) stages' duty' := by
  obtain ⟨stages', duty', hadvance, hstaged⟩ := hbooked.staged.step hstep
  exact ⟨stages', duty', hadvance, hstaged, hadvance.within hbooked.within⟩

theorem Run.booked {engine : Engine} {link : σ} {line : ResetLine.Probe}
    (hrun : Run (create engine link line) events s) :
    ∃ stages duty, s.Booked events stages duty := by
  induction hrun with
  | start => exact ⟨_, _, staged_create engine link line, fun _ => .clear _⟩
  | step hrun hstep ih =>
    obtain ⟨stages, duty, hbooked⟩ := ih
    obtain ⟨stages', duty', -, hbooked'⟩ := hbooked.step hstep
    exact ⟨stages', duty', hbooked'⟩

end System

/-- A stage in which the channels are neither reset nor brought up. -/
def Stage.isCalm : Stage → Bool
  | .bound purpose => !purpose.isStart
  | .held purpose _ _ => !purpose.isStart
  | .resetting => false
  | _ => true

/-- A sober stage without the lock is calm. -/
theorem Stage.isCalm_of_isSober {stage : Stage} (hsober : stage.isSober = true)
    (hfree : stage.phase.holds = false) : stage.isCalm = true := by
  cases stage <;> first | rfl | exact hsober | exact nomatch hfree

namespace Stage.Moves

variable {stage stage' : Stage} {access : Access} {reply : access.Reply}

/-- A sober stage stays sober. -/
theorem isSober (hmove : stage.Moves access reply stage') (hsober : stage.isSober = true) :
    stage'.isSober = true := by
  cases hmove with
  | ask running => cases running <;> rfl
  | close running => cases running <;> rfl
  | _ => first | rfl | exact hsober

/-- Only who finds the queue running, when it looks whether a read is to start it again, starts
    it. -/
theorem isCalm (hmove : stage.Moves access reply stage') (hcalm : stage.isCalm = true)
    (hinspect : ∀ joined progress, stage ≠ .held .inspect joined progress) :
    stage'.isCalm = true := by
  cases hmove with
  | ask running => cases running <;> rfl
  | close running => cases running <;> rfl
  | find running => exact absurd rfl (hinspect _ _)
  | lock purpose => cases purpose <;> first | rfl | exact hcalm
  | _ => first | rfl | exact hcalm

/-- In a queue that does not run a calm stage stays calm. -/
theorem isCalm_of_stopped {σ : Type} [Device σ] {b : Bench σ}
    (hmove : stage.Moves access (Bench.answer access b).1 stage') (hcalm : stage.isCalm = true)
    (hstopped : b.queue.running = false) : stage'.isCalm = true := by
  by_cases hinspect : ∃ joined progress, stage = .held .inspect joined progress
  · obtain ⟨joined, progress, rfl⟩ := hinspect
    generalize hreply : (Bench.answer access b).1 = reply at hmove
    cases hmove with
    | find running =>
      obtain rfl : b.queue.running = running := hreply
      rw [hstopped]
      rfl
    | _ => rfl
  · exact hmove.isCalm hcalm fun joined progress hstage => hinspect ⟨joined, progress, hstage⟩

/-- A calm stage starts no queue. -/
theorem running_answer {σ : Type} [Device σ] {b : Bench σ}
    (hmove : stage.Moves access reply stage') (hcalm : stage.isCalm = true)
    (hstopped : b.queue.running = false) : (Bench.answer access b).2.queue.running = false := by
  cases hmove with
  | revive => exact nomatch hcalm
  | mark => rfl
  | forget => rfl
  | _ => exact (Queue.running_answer (fun _ => Access.noConfusion) b).trans hstopped

/-- A calm stage starts no worker. -/
theorem workerAfter_of_isCalm {ι σ : Type} {s : System ι σ}
    (hmove : stage.Moves access reply stage')
    (hcalm : stage.isCalm = true) (bound : Nat) : s.workerAfter bound access = s.worker := by
  cases hmove with
  | startWorker => exact nomatch hcalm
  | _ => rfl

/-- A stop goes on under the lock until it gives it back with everything down. -/
theorem stopping {joined : Bool} {progress : Progress}
    (hmove : (Stage.held .stop joined progress).Moves access reply stage') :
    (∃ joined progress, stage' = .held .stop joined progress) ∨
      access = .unlock ∧ joined = true ∧ progress = .down ∧ stage' = .clear := by
  cases hmove with
  | unlock hleaves =>
    cases hleaves
    exact .inr ⟨rfl, rfl, rfl, rfl⟩
  | _ => exact .inl ⟨_, _, rfl⟩

end Stage.Moves

namespace System

variable {s s' : System ι σ} {stages stages' : ι → Stage} {duty duty' : Progress} {owner : ι}
  {event : Event ι} {events : List (Event ι)}

/-- The queue does not run and has no worker. -/
structure Stopped (s : System ι σ) : Prop where
  running : s.bench.queue.running = false
  worker : s.worker = none

/-- The owner stops the queue, or has stopped it, and nobody brings it up. -/
structure Quelled (s : System ι σ) (stages : ι → Stage) (owner : ι) : Prop where
  calm : ∀ client, (stages client).isCalm = true
  quelled : (∃ joined progress, stages owner = .held .stop joined progress) ∨ s.Stopped

section Quelling

variable [DecidableEq ι] [Device σ]

/-- A stopped queue stays stopped while nobody brings it up. -/
theorem Advance.stopped (hadvance : Advance s stages duty event s' stages' duty')
    (hcalm : ∀ client, (stages client).isCalm = true) (hstopped : s.Stopped) : s'.Stopped := by
  cases hadvance with
  | @access client access stage bound program hready hmove =>
    exact ⟨hmove.running_answer (hcalm client) hstopped.running,
      (hmove.workerAfter_of_isCalm (hcalm client) bound).trans hstopped.worker⟩
  | work program hworker hmove => exact absurd hstopped.worker hworker
  | retire heven => exact ⟨hstopped.running, rfl⟩
  | _ => exact ⟨hstopped.running, hstopped.worker⟩

/-- In a queue that has been quelled everyone stays calm. -/
theorem Quelled.calm_advance (hquelled : s.Quelled stages owner) (hstaged : s.Staged stages duty)
    (hadvance : Advance s stages duty event s' stages' duty')
    (hcalls : event.allCalls (!·.isRevival) = true) (client : ι) :
    (stages' client).isCalm = true := by
  refine hadvance.forall_stages (p := fun stage => stage.isCalm = true) hquelled.calm rfl ?_ ?_
    client
  · rintro other call rfl
    cases call <;> first | rfl | exact nomatch hcalls
  · intro other access stage hmove
    rcases hquelled.quelled with ⟨joined, progress, howner⟩ | hstopped
    · refine hmove.isCalm (hquelled.calm other) fun joined' progress' hother => ?_
      -- The owner has the lock, so nobody else looks whether to bring the queue up.
      have hsame := hstaged.locking.single other owner (by rw [hother]; rfl) (by rw [howner]; rfl)
      rw [hsame, howner] at hother
      exact nomatch hother
    · exact hmove.isCalm_of_stopped (hquelled.calm other) hstopped.running

/-- A queue that has been quelled stays quelled. -/
theorem Quelled.advance (hquelled : s.Quelled stages owner) (hstaged : s.Staged stages duty)
    (hadvance : Advance s stages duty event s' stages' duty')
    (hcalls : event.allCalls (!·.isRevival) = true) : s'.Quelled stages' owner := by
  refine ⟨hquelled.calm_advance hstaged hadvance hcalls, ?_⟩
  have hkeeps := hadvance.stopped hquelled.calm
  rcases hquelled.quelled with ⟨joined, progress, howner⟩ | hstopped
  case inr => exact .inr (hkeeps hstopped)
  have hother {client : ι} {stage : Stage} (hclient : owner ≠ client) :
      ∃ joined progress, Function.update stages client stage owner = .held .stop joined progress :=
    ⟨joined, progress, (Function.update_of_ne hclient _ _).trans howner⟩
  cases hadvance with
  | call call hclear =>
    refine .inl (hother fun hsame => ?_)
    rw [← hsame, howner] at hclear
    exact nomatch hclear
  | @access client access stage bound program hready hmove =>
    by_cases hsame : owner = client
    case neg => exact .inl (hother hsame)
    subst hsame
    rw [howner] at hmove
    rw [Function.update_self]
    rcases hmove.stopping with hstage | ⟨rfl, rfl, rfl, rfl⟩
    · exact .inl hstage
    -- The owner gives the lock back, having marked the queue and waited for the worker.
    · exact .inr ⟨hstaged.stopped owner (by rw [howner]; rfl),
        hstaged.locking.joined owner (by rw [howner]; rfl)⟩
  | finish hout =>
    refine .inl (hother fun hsame => ?_)
    rw [← hsame, howner] at hout
    exact nomatch hout
  | _ => exact .inl ⟨joined, progress, howner⟩

end Quelling

end System

section Writes

variable {access : Link.Access}

/-- The registers that the transfers of a channel write. -/
theorem offset_of_serves {channel : Channel} (hserves : access.Serves channel)
    {write : RegisterWrite} (hwrite : write ∈ access.writes) :
    write.offset ∈ [channel.status, channel.address, channel.length] := by
  cases hserves with
  | awaits hawaits =>
    cases hawaits with
    | acknowledge bits =>
      obtain rfl := List.mem_singleton.1 hwrite
      simp
    | _ => exact nomatch hwrite
  | window _ => exact nomatch hwrite
  | address _ =>
    obtain rfl := List.mem_singleton.1 hwrite
    simp
  | length _ =>
    obtain rfl := List.mem_singleton.1 hwrite
    simp

theorem ne_control_of_mem {channel : Channel} {offset : Nat}
    (hoffset : offset ∈ [channel.status, channel.address, channel.length]) (other : Channel) :
    offset ≠ other.control := by
  simp only [List.mem_cons, List.not_mem_nil, or_false] at hoffset
  rcases hoffset with rfl | rfl | rfl <;> cases channel <;> cases other <;> decide

/-- A reader that drains writes to the receiving channel, and not to its control register. -/
theorem offset_of_drains {left left' : Nat} {reply : Link.io.Reply access}
    (hdrains : Link.Drains left access reply left') {write : RegisterWrite}
    (hwrite : write ∈ access.writes) :
    write.offset ∈ [Channel.s2mm.status, Channel.s2mm.address, Channel.s2mm.length] := by
  cases hdrains with
  | write left hoffset value =>
    obtain rfl := List.mem_singleton.1 hwrite
    exact hoffset
  | _ => exact nomatch hwrite

/-- Who neither resets nor starts writes nothing but a halt to a control register. -/
theorem Stage.Moves.halts {stage stage' : Stage} {reply : Access.Reply (.link access)}
    (hmove : stage.Moves (.link access) reply stage') (hcalm : stage.isCalm = true)
    {write : RegisterWrite} (hwrite : write ∈ access.writes) {channel : Channel}
    (hcontrol : write.offset = channel.control) : write.value = Control.halt := by
  cases hmove with
  | read hdrains => exact absurd hcontrol (ne_control_of_mem (offset_of_drains hdrains hwrite) _)
  | fall joined hlowers hfalls =>
    obtain rfl := List.mem_singleton.1 hwrite
    cases hlowers with
    | start hword => exact nomatch hcalm
    | stop => rfl
  | reset channel => exact nomatch hcalm
  | launch hlaunches => exact nomatch hcalm

/-- The only control word that the worker writes is a halt. -/
theorem Progress.Works.halts {progress progress' : Progress} {reply : Access.Reply (.link access)}
    (hmove : progress.Works (.link access) reply progress') {write : RegisterWrite}
    (hwrite : write ∈ access.writes) {channel : Channel}
    (hcontrol : write.offset = channel.control) : write.value = Control.halt := by
  cases hmove with
  | send hserves => exact absurd hcontrol (ne_control_of_mem (offset_of_serves hserves hwrite) _)
  | fall =>
    obtain rfl := List.mem_singleton.1 hwrite
    rfl
  | halt =>
    obtain rfl := List.mem_singleton.1 hwrite
    rfl

end Writes

namespace System

variable {s s' : System ι σ} {stages stages' : ι → Stage} {duty duty' : Progress} {owner : ι}
  {event : Event ι} {events : List (Event ι)} [DecidableEq ι] [Device σ]

/-- With everyone calm every control word is a halt. -/
theorem Advance.halts (hadvance : Advance s stages duty event s' stages' duty')
    (hcalm : ∀ client, (stages client).isCalm = true) : event.Halts := by
  intro write hwrite channel hcontrol
  cases hadvance with
  | @access client access stage bound program hready hmove =>
    cases access with
    | link access => exact hmove.halts (hcalm client) hwrite hcontrol
    | _ => exact nomatch hwrite
  | @work access duty' program hworker hmove =>
    cases access with
    | link access => exact hmove.halts hwrite hcontrol
    | _ => exact nomatch hwrite
  | _ => exact nomatch hwrite

/-- From when a stop has the lock, nothing but a halt is written to a control register. -/
theorem Quelled.run (hquelled : s.Quelled stages owner) (hstaged : s.Staged stages duty)
    (hrun : Run s events s')
    (hcalls : ∀ event ∈ events, event.allCalls (!·.isRevival) = true) :
    (∃ stages' duty', s'.Staged stages' duty' ∧ s'.Quelled stages' owner) ∧
      (s.Stopped → s'.Stopped) ∧ ∀ event ∈ events, event.Halts := by
  induction hrun with
  | start => exact ⟨⟨stages, duty, hstaged, hquelled⟩, id, fun _ hnone => nomatch hnone⟩
  | @step events s' s'' event hrun hstep ih =>
    obtain ⟨⟨stages', duty', hstaged', hquelled'⟩, hstopped, hhalts⟩ :=
      ih fun event hevent => hcalls event (List.mem_append_left _ hevent)
    obtain ⟨stages'', duty'', hadvance, hstaged''⟩ := hstaged'.step hstep
    have hcall := hcalls event (List.mem_append_right _ (List.mem_singleton_self _))
    refine ⟨⟨stages'', duty'', hstaged'', hquelled'.advance hstaged' hadvance hcall⟩,
      fun hbefore => hadvance.stopped hquelled'.calm (hstopped hbefore), fun other hother => ?_⟩
    rcases List.mem_append.1 hother with hbefore | hlast
    · exact hhalts other hbefore
    · rw [List.mem_singleton.1 hlast]
      exact hadvance.halts hquelled'.calm

/-- The owner waits for the lock, to stop the queue. -/
structure Waiting (stages : ι → Stage) (owner : ι) : Prop where
  owner : stages owner = .bound .stop
  sober : ∀ client, (stages client).isSober = true

/-- A stop that waits for the lock goes on waiting, or gets it and quells the queue. -/
theorem Waiting.advance (hwaiting : Waiting stages owner) (hstaged : s.Staged stages duty)
    (hadvance : Advance s stages duty event s' stages' duty')
    (hcalls : event.allCalls (!·.isRevival) = true) :
    Waiting stages' owner ∨ s'.Quelled stages' owner := by
  have hset {client : ι} {stage : Stage} (hsober : stage.isSober = true)
      (hclient : owner ≠ client) : Waiting (Function.update stages client stage) owner := by
    refine ⟨(Function.update_of_ne hclient _ _).trans hwaiting.owner, fun other => ?_⟩
    by_cases hsame : other = client
    · rw [hsame, Function.update_self]
      exact hsober
    · rw [Function.update_of_ne hsame]
      exact hwaiting.sober other
  cases hadvance with
  | @call client call hclear =>
    refine .inl (hset ?_ fun hsame => ?_)
    · cases call <;> first | rfl | exact nomatch hcalls
    · rw [← hsame, hwaiting.owner] at hclear
      exact nomatch hclear
  | @access client access stage bound program hready hmove =>
    by_cases hsame : owner = client
    case neg => exact .inl (hset (hmove.isSober (hwaiting.sober client)) hsame)
    subst hsame
    rw [hwaiting.owner] at hmove
    generalize (Bench.answer access s.bench).1 = reply at hmove
    cases hmove
    -- The owner gets the lock, so nobody else is midway in bringing the queue up.
    refine .inr ⟨fun other => ?_, .inl ⟨_, _, Function.update_self _ _ _⟩⟩
    by_cases hother : other = owner
    · rw [hother, Function.update_self]
      rfl
    · rw [Function.update_of_ne hother]
      exact Stage.isCalm_of_isSober (hwaiting.sober other) (hstaged.locking.not_holds hready other)
  | @finish client hout =>
    refine .inl (hset rfl fun hsame => ?_)
    rw [← hsame, hwaiting.owner] at hout
    exact nomatch hout
  | work program hworker hmove => exact .inl hwaiting
  | retire heven => exact .inl hwaiting
  | outside link line => exact .inl hwaiting

/-- A stop under way has not got the lock yet, or keeps the queue from running. -/
theorem stops_run {history : List (Event ι)}
    (hstops : Waiting stages owner ∨ s.Quelled stages owner)
    (hbooked : s.Booked history stages duty) (hrun : Run s events s')
    (hcalls : ∀ event ∈ events, event.allCalls (!·.isRevival) = true) :
    ∃ stages' duty', s'.Booked (history ++ events) stages' duty' ∧
      (Waiting stages' owner ∨ s'.Quelled stages' owner) := by
  induction hrun with
  | start => exact ⟨stages, duty, (List.append_nil history).symm ▸ hbooked, hstops⟩
  | @step events s' s'' event hrun hstep ih =>
    obtain ⟨stages', duty', hbooked', hstops'⟩ :=
      ih fun event hevent => hcalls event (List.mem_append_left _ hevent)
    obtain ⟨stages'', duty'', hadvance, hbooked''⟩ := hbooked'.step hstep
    have hcall := hcalls event (List.mem_append_right _ (List.mem_singleton_self _))
    rw [← List.append_assoc]
    refine ⟨stages'', duty'', hbooked'', ?_⟩
    rcases hstops' with hwaiting | hquelled
    · exact hwaiting.advance hbooked'.staged hadvance hcall
    · exact .inr (hquelled.advance hbooked'.staged hadvance hcall)

/-- A client that begins to stop the queue waits for the lock. -/
theorem Booked.waiting {before : List (Event ι)} (hbooked : s.Booked before stages duty)
    (hbefore : ∀ client, (underWay client before).all (!·.isRevival) = true)
    (hstep : Step s (.call owner .stop) s') :
    ∃ stages' duty', s'.Booked (before ++ [.call owner .stop]) stages' duty' ∧
      Waiting stages' owner := by
  obtain ⟨stages', duty', hadvance, hbooked'⟩ := hbooked.step hstep
  refine ⟨stages', duty', hbooked', ?_⟩
  cases hadvance with
  | call _ hclear =>
    refine ⟨Function.update_self _ _ _, fun client => ?_⟩
    by_cases hsame : client = owner
    · rw [hsame, Function.update_self]
      rfl
    · rw [Function.update_of_ne hsame]
      exact (hbooked.within client).isSober (hbefore client)

/-- Once the stop is over the queue does not run and has no worker. -/
theorem Booked.quelled {history : List (Event ι)} (hbooked : s.Booked history stages duty)
    (hstops : Waiting stages owner ∨ s.Quelled stages owner) (hstep : Step s (.finish owner) s') :
    ∃ stages' duty', s'.Booked (history ++ [.finish owner]) stages' duty' ∧ s'.Stopped ∧
      s'.Quelled stages' owner := by
  obtain ⟨stages', duty', hadvance, hbooked'⟩ := hbooked.step hstep
  refine ⟨stages', duty', hbooked', ?_⟩
  cases hadvance with
  | finish hout =>
    rcases hstops with hwaiting | hquelled
    · rw [hwaiting.owner] at hout
      exact nomatch hout
    have hquelled' := hquelled.advance hbooked.staged (.finish hout) rfl
    refine ⟨hquelled'.quelled.resolve_left fun ⟨joined, progress, howner⟩ => ?_, hquelled'⟩
    rw [Function.update_self] at howner
    exact nomatch howner

/-- A client that marks the queue as stopped has the lock. -/
theorem quelled_of_mark (hstops : Waiting stages owner ∨ s.Quelled stages owner)
    (hstaged : s.Staged stages duty) (hstep : Step s (.access owner (.setRunning false) ()) s') :
    ∃ stages' duty', s'.Staged stages' duty' ∧ s'.Quelled stages' owner := by
  obtain ⟨stages', duty', hadvance, hstaged'⟩ := hstaged.step hstep
  refine ⟨stages', duty', hstaged', ?_⟩
  rcases hstops with hwaiting | hquelled
  · cases hadvance with
    | access bound program hready hmove =>
      rw [hwaiting.owner] at hmove
      exact nomatch hmove
  · exact hquelled.advance hstaged hadvance rfl

/-- A queue that is stopped while reads, other stops and its worker go on, however they come to be
    interleaved with the stop, stays stopped: it does not run, it has no worker, and from when it is
    marked as stopped nothing but a halt is written to a control register. -/
theorem stays_stopped_of_run {engine : Engine} {link : σ} {line : ResetLine.Probe}
    {before during after : List (Event ι)}
    (hrun : Run (create engine link line)
      (before ++ .call owner .stop :: (during ++ .finish owner :: after)) s)
    (hbefore : ∀ client, (underWay client before).all (!·.isRevival) = true)
    (hcalls : ∀ event ∈ during ++ after, event.allCalls (!·.isRevival) = true) :
    s.Stopped ∧ ∀ earlier later, during = earlier ++ .access owner (.setRunning false) () :: later →
      ∀ event ∈ later ++ after, event.Halts := by
  have hduring (event : Event ι) (hevent : event ∈ during) :=
    hcalls event (List.mem_append_left _ hevent)
  have hafter (event : Event ι) (hevent : event ∈ after) :=
    hcalls event (List.mem_append_right _ hevent)
  obtain ⟨s₁, hrun₁, hrun⟩ := hrun.exists_of_append
  obtain ⟨s₂, hcall, hrun⟩ := hrun.exists_of_cons
  obtain ⟨s₃, hrun₃, hrun⟩ := hrun.exists_of_append
  obtain ⟨s₄, hfinish, hrun₄⟩ := hrun.exists_of_cons
  obtain ⟨stages₁, duty₁, hbooked⟩ := hrun₁.booked
  obtain ⟨stages₂, duty₂, hbooked₂, hwaiting⟩ := hbooked.waiting hbefore hcall
  obtain ⟨stages₃, duty₃, hbooked₃, hstops⟩ := stops_run (.inl hwaiting) hbooked₂ hrun₃ hduring
  obtain ⟨stages₄, duty₄, hbooked₄, hstopped, hquelled⟩ := hbooked₃.quelled hstops hfinish
  obtain ⟨-, hstays, hhalts⟩ := hquelled.run hbooked₄.staged hrun₄ hafter
  refine ⟨hstays hstopped, ?_⟩
  rintro earlier later rfl event hevent
  rcases List.mem_append.1 hevent with hlater | hevent
  case inr => exact hhalts event hevent
  obtain ⟨m, hearlier, hrest⟩ := hrun₃.exists_of_append
  obtain ⟨m', hmark, hlast⟩ := hrest.exists_of_cons
  obtain ⟨stages, duty, hbooked', hstops⟩ := stops_run (.inl hwaiting) hbooked₂ hearlier
    fun event hevent => hduring event (List.mem_append_left _ hevent)
  obtain ⟨stages', duty', hstaged', hquelled'⟩ := quelled_of_mark hstops hbooked'.staged hmark
  exact (hquelled'.run hstaged' hlast fun event hevent => hduring event
    (List.mem_append_right _ (List.mem_cons_of_mem _ hevent))).2.2 event hlater

/-- A client starts the queue. -/
def bringUp : List (Turn Bool) :=
  .call false (.initialise 1 1024) :: List.replicate 24 (.client false 5)

/-- A client stops the queue that it started while another reads. The read times out after the queue
    was marked as stopped, and waits for the lock until the stop is over. -/
theorem stays_stopped_of_run_timedOut :
    ∃ before during after s,
      Run small (before ++ .call false .stop :: (during ++ .finish false :: after)) s ∧
      underWay true before = some (.read 1 1 []) ∧ s.clients true = none ∧
      (during ++ after).flatMap Event.writes =
        [⟨Channel.s2mm.control, Control.halt⟩, ⟨Channel.mm2s.control, Control.halt⟩] ∧
      s.Stopped ∧ ∀ earlier later,
        during = earlier ++ .access false (.setRunning false) () :: later →
          ∀ event ∈ later ++ after, event.Halts := by
  have hplayed : (small.playStop false
      (bringUp ++ .call true (.read 1 1 []) :: List.replicate 5 (.client true 0))
      ([.client false 0, .client false 0, .client false 0, .client true 0, .client false 0,
        .client false 0, .client false 0, .worker, .worker, .client false 0, .client false 0])
      (List.replicate 4 (.client true 0))).map (fun out =>
        (underWay false out.before, underWay true out.before,
          (out.during ++ out.after).all (Event.allCalls (!·.isRevival)),
          (out.last.clients true).isNone, (out.during ++ out.after).flatMap Event.writes)) =
      some (none, some (.read 1 1 []), true, true,
        [⟨Channel.s2mm.control, Control.halt⟩, ⟨Channel.mm2s.control, Control.halt⟩]) := by
    decide +kernel
  obtain ⟨out, hplay, hout⟩ := Option.map_eq_some_iff.1 hplayed
  simp only [Prod.mk.injEq] at hout
  obtain ⟨hfalse, htrue, hcalls, hidle, hwrites⟩ := hout
  obtain ⟨hrun, hlater⟩ := run_of_playStop hplay
  have hwhole : Run small
      (out.before ++ .call false .stop :: (out.during ++ .finish false :: out.after)) out.last := by
    simpa using hrun.append hlater
  refine ⟨out.before, out.during, out.after, out.last, hwhole, htrue,
    Option.isNone_iff_eq_none.1 hidle, hwrites,
    stays_stopped_of_run hwhole (fun client => ?_) (List.all_eq_true.1 hcalls)⟩
  cases client
  · rw [hfalse]
    rfl
  · rw [htrue]
    rfl

end System

end DmaLink.Queue
