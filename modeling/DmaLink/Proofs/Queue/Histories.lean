import DmaLink.Proofs.Engine.Courses
import DmaLink.Queue.Threads
import Mathlib.Data.List.Induction

namespace DmaLink.Queue

/-- A call that brings the channels up, or resets them. -/
def Call.isRevival : Call → Bool
  | .initialise _ _ | .reset => true
  | _ => false

/-- A call that leaves starting and stopping to others. -/
def Call.isPassive : Call → Bool
  | .enqueue _ | .read _ _ _ => true
  | _ => false

theorem Call.not_isRevival {call : Call} (hpassive : call.isPassive = true) :
    (!call.isRevival) = true := by
  cases call <;> first | rfl | exact nomatch hpassive

variable {ι σ : Type}

/-- Whether every call that the event begins satisfies `p`. -/
def Event.allCalls (p : Call → Bool) : Event ι → Bool
  | .call _ begun => p begun
  | _ => true

theorem Event.allCalls_mono {p q : Call → Bool} (hpq : ∀ call, p call = true → q call = true)
    {event : Event ι} (hcalls : event.allCalls p = true) : event.allCalls q = true := by
  cases event with
  | call client call => exact hpq call hcalls
  | _ => rfl

/-- The register writes of an event. -/
def Event.writes : Event ι → List RegisterWrite
  | .access _ (.link made) _ => made.writes
  | .work (.link made) _ => made.writes
  | _ => []

/-- Nothing but a halt is written to a control register. -/
def Event.Halts (event : Event ι) : Prop :=
  ∀ write ∈ event.writes, ∀ channel : Channel, write.offset = channel.control →
    write.value = Control.halt

section Clients

variable [DecidableEq ι]

/-- The register writes of a client. -/
def Event.writesBy (client : ι) : Event ι → List RegisterWrite
  | .access other (.link made) _ => if other = client then made.writes else []
  | _ => []

/-- Whether a client finds a finished chunk. -/
def Event.isFindBy (client : ι) : Event ι → Bool
  | .access other (.link (.pollDone _ _)) finished => other = client && finished
  | .access other (.link (.takeInterrupt _)) (.ok _) => other = client
  | _ => false

/-- The call that a client is in after an event. -/
def Event.callOf (client : ι) (before : Option Call) : Event ι → Option Call
  | .call other begun => if other = client then some begun else before
  | .finish other => if other = client then none else before
  | _ => before

/-- The call that a client is in once all this has happened. -/
def underWay (client : ι) (events : List (Event ι)) : Option Call :=
  events.foldl (Event.callOf client) none

end Clients

section Calls

variable [DecidableEq ι] {client : ι} {events later : List (Event ι)}

/-- Which call of a client is under way is decided event by event. -/
theorem underWay_snoc (client : ι) (events : List (Event ι)) (event : Event ι) :
    underWay client (events ++ [event]) = event.callOf client (underWay client events) := by
  rw [underWay, List.foldl_append]
  rfl

theorem all_underWay_mono {p q : Call → Bool} (hpq : ∀ call, p call = true → q call = true)
    (hevents : (underWay client events).all p = true) : (underWay client events).all q = true := by
  cases hcall : underWay client events with
  | none => rfl
  | some call =>
    rw [hcall] at hevents
    exact hpq call hevents

/-- What holds of the call that a client was in and of all that it has begun since holds of the one
    that it is in. -/
theorem all_underWay {p : Call → Bool} (hevents : (underWay client events).all p = true)
    (hlater : ∀ call, .call client call ∈ later → p call = true) :
    (underWay client (events ++ later)).all p = true := by
  induction later using List.reverseRecOn with
  | nil => rwa [List.append_nil]
  | append_singleton later event ih =>
    have hsofar := ih fun call hcall => hlater call (List.mem_append_left _ hcall)
    rw [← List.append_assoc, underWay_snoc]
    cases event with
    | call other begun =>
      simp only [Event.callOf]
      split
      · next hsame =>
        exact hlater begun (List.mem_append_right _ (hsame ▸ List.mem_singleton_self _))
      · exact hsofar
    | finish other =>
      simp only [Event.callOf]
      split
      · rfl
      · exact hsofar
    | _ => exact hsofar

end Calls

namespace System

variable {s s' s'' : System ι σ} {event : Event ι} {events later : List (Event ι)} [DecidableEq ι]
  [Device σ]

theorem Run.eq_of_nil (hrun : Run s [] s') : s' = s := by
  generalize hevents : [] = events at hrun
  cases hrun with
  | start => rfl
  | step hrun hstep => exact absurd hevents.symm (List.append_ne_nil_of_right_ne_nil _ (by simp))

/-- A run ends with its last step. -/
theorem Run.exists_of_snoc (hrun : Run s (events ++ [event]) s') :
    ∃ between, Run s events between ∧ Step between event s' := by
  generalize hevents : events ++ [event] = events' at hrun
  cases hrun with
  | start => exact absurd hevents (List.append_ne_nil_of_right_ne_nil _ (by simp))
  | @step _ between _ _ hrun hstep =>
    obtain ⟨rfl, hlast⟩ := List.append_inj' hevents rfl
    obtain rfl := List.singleton_inj.1 hlast
    exact ⟨between, hrun, hstep⟩

/-- A run in two parts goes through a state between them. -/
theorem Run.exists_of_append {earlier later : List (Event ι)}
    (hrun : Run s (earlier ++ later) s') :
    ∃ between, Run s earlier between ∧ Run between later s' := by
  induction later using List.reverseRecOn generalizing s' with
  | nil => exact ⟨s', List.append_nil earlier ▸ hrun, .start⟩
  | append_singleton later event ih =>
    rw [← List.append_assoc] at hrun
    obtain ⟨last, hrun, hstep⟩ := hrun.exists_of_snoc
    obtain ⟨between, hearlier, hlater⟩ := ih hrun
    exact ⟨between, hearlier, hlater.step hstep⟩

/-- A run begins with its first step. -/
theorem Run.exists_of_cons (hrun : Run s (event :: events) s') :
    ∃ between, Step s event between ∧ Run between events s' := by
  have happend : Run s ([] ++ [event] ++ events) s' := hrun
  obtain ⟨between, hfirst, hrest⟩ := happend.exists_of_append
  obtain ⟨first, hnil, hstep⟩ := hfirst.exists_of_snoc
  obtain rfl := hnil.eq_of_nil
  exact ⟨between, hstep, hrest⟩

theorem Run.append (hrun : Run s events s') (hlater : Run s' later s'') :
    Run s (events ++ later) s'' := by
  induction hlater with
  | start => exact (List.append_nil events).symm ▸ hrun
  | step hlater hstep ih => exact List.append_assoc events _ _ ▸ ih.step hstep

/-- What happens before, during and after a stop, and the states when it returns and at the end. -/
structure Stopping (ι σ : Type) where
  before : List (Event ι)
  during : List (Event ι)
  after : List (Event ι)
  returned : System ι σ
  last : System ι σ

/-- Plays a stop among other turns. -/
def playStop (s : System ι σ) (owner : ι) (before during after : List (Turn ι)) :
    Option (Stopping ι σ) := do
  let (before, s) ← s.playAll before
  let (_, s) ← s.play (.call owner .stop)
  let (during, s) ← s.playAll during
  match s.clients owner with
  | some (.ret ()) =>
    let returned := s.setClient owner none
    let (after, last) ← returned.playAll after
    return { before, during, after, returned, last }
  | _ => none

theorem step_of_play_call {client : ι} {call : Call}
    (hplay : s.play (.call client call) = some (event, s')) : Step s (.call client call) s' := by
  simp only [play] at hplay
  split at hplay
  · next hidle =>
    cases hplay
    exact .call call hidle
  · cases hplay

/-- A stop that is played is a run up to its return and one from there on. -/
theorem run_of_playStop {owner : ι} {before during after : List (Turn ι)} {out : Stopping ι σ}
    (hplay : s.playStop owner before during after = some out) :
    Run s (out.before ++ .call owner .stop :: (out.during ++ [.finish owner])) out.returned ∧
      Run out.returned out.after out.last := by
  simp only [playStop, Option.bind_eq_bind, Option.bind_eq_some_iff] at hplay
  obtain ⟨⟨events, s₁⟩, hbefore, ⟨call, s₂⟩, hcall, ⟨events', s₃⟩, hduring, hplay⟩ := hplay
  split at hplay
  case h_2 => cases hplay
  next hover =>
  obtain ⟨⟨events'', s₄⟩, hafter, hout⟩ := Option.bind_eq_some_iff.1 hplay
  cases hout
  have hstop := (run_of_playAll hduring).step (.finish hover)
  exact ⟨(run_of_playAll hbefore).append (.cons (step_of_play_call hcall) hstop),
    run_of_playAll hafter⟩

end System

end DmaLink.Queue
