import DmaLink.Proofs.Loopback.Decoding

namespace DmaLink

/-- The states that a device goes through in a program, the last one included. -/
def Proc.states {α σ : Type} [Device σ] : Proc Link.io α → σ → List σ
  | .ret _, link => [link]
  | .act access next, link =>
    link :: states (next (Device.answer access link).1) (Device.answer access link).2

namespace Session

variable {σ : Type} [Device σ] {g : Geometry} {size : Channel → σ → Nat}

/-- The states that a device goes through while operations are performed. -/
def statesAll (s : Session σ) : List Engine.Operation → List σ
  | [] => [s.link]
  | operation :: rest =>
    (s.engine.perform (Device.chunkBound s.link) operation).2.states s.link ++
      (s.perform operation).2.statesAll rest

/-- An accepted engine on a device whose windows have the sizes of the geometry. -/
structure Housed (s : Session σ) (g : Geometry) (size : Channel → σ → Nat) : Prop where
  accepted : s.engine.Accepted g
  size_eq : (fun channel => size channel s.link) = g.words

variable {s : Session σ}

theorem Housed.perform (hhoused : s.Housed g size) (hlawful : Device.Lawful size)
    (operation : Engine.Operation) : (s.perform operation).2.Housed g size where
  accepted := hhoused.accepted.perform _ operation
  size_eq := by
    rw [← hhoused.size_eq]
    exact funext fun channel => Proc.size_run hlawful _ s.link channel

theorem Housed.performAll (hhoused : s.Housed g size) (hlawful : Device.Lawful size)
    (operations : List Engine.Operation) : (s.performAll operations).2.Housed g size := by
  induction operations generalizing s with
  | nil => exact hhoused
  | cons operation rest ih => exact ih (hhoused.perform hlawful operation)

/-- An operation makes orderly register writes and launches what it intends. -/
theorem Housed.makes (hhoused : s.Housed g size) (hlawful : Device.Lawful size)
    (operation : Engine.Operation) :
    g.Orderly (s.writes operation) ∧
      s.engine.Intends operation (launched (s.writes operation)) := by
  have hensures := hhoused.accepted.ensures_perform (Device.chunkBound s.link) operation
  rw [← hhoused.size_eq] at hensures
  obtain ⟨made, hmade, hmakes⟩ := hensures.run hlawful
  refine ⟨hmakes.orderly, ?_⟩
  rw [writes, hmakes.launched_eq]
  exact hmade

/-- All that a run of operations writes is orderly. -/
theorem Housed.orderly_writesAll (hhoused : s.Housed g size) (hlawful : Device.Lawful size)
    (operations : List Engine.Operation) : g.Orderly (s.writesAll operations) := by
  induction operations generalizing s with
  | nil => exact Geometry.makes_empty.orderly
  | cons operation rest ih =>
    exact (hhoused.makes hlawful operation).1.append (ih (hhoused.perform hlawful operation))

end Session

namespace Loopback

theorem windowSize_create (g : Geometry) (lines : Option Interrupt.Lines) (channel : Channel) :
    (create g.sourceWords g.destinationWords lines).windowSize channel = g.words channel := by
  cases channel <;> exact Array.size_replicate

/-- Nothing that an orderly program does on a stalling device makes it show a decode error. -/
theorem tracks_states {α : Type} {g : Geometry} (hsource : g.sourceBase = sourceBase)
    (hdestination : g.destinationBase = destinationBase) {p : Proc Link.io α} {link : Stalling}
    {history : List RegisterWrite} (htracks : link.device.Tracks g history)
    (horderly : g.Orderly (history ++ p.writes link)) :
    (∀ state ∈ p.states link, ∃ history', state.device.Tracks g history') ∧
      (p.run Device.answer link).2.device.Tracks g (history ++ p.writes link) := by
  induction p generalizing link history with
  | ret result =>
    rw [Proc.writes, List.append_nil]
    refine ⟨?_, htracks⟩
    intro state hstate
    rw [List.mem_singleton.1 hstate]
    exact ⟨history, htracks⟩
  | act access next ih =>
    rw [Proc.writes, ← List.append_assoc] at horderly ⊢
    have hanswered := (htracks.answer hsource hdestination horderly.of_append)
    obtain ⟨hstates, hrun⟩ := ih _ (hanswered.toggle _) horderly
    refine ⟨?_, hrun⟩
    intro state hstate
    rcases List.mem_cons.1 hstate with rfl | hlater
    · exact ⟨history, htracks⟩
    · exact hstates state hlater

end Loopback

namespace Session

open Loopback

/-- On a simulated device that only orderly writes reach, no state of a run shows a decode error. -/
theorem clean_statesAll {g : Geometry} (hsource : g.sourceBase = sourceBase)
    (hdestination : g.destinationBase = destinationBase) {s : Session Stalling}
    (history : List RegisterWrite) {operations : List Engine.Operation}
    (htracks : s.link.device.Tracks g history)
    (horderly : g.Orderly (history ++ s.writesAll operations)) :
    ∀ link ∈ s.statesAll operations, ∀ channel,
      link.device.status channel &&& Status.decodeError = 0 := by
  induction operations generalizing s history with
  | nil =>
    intro link hlink channel
    rw [List.mem_singleton.1 hlink]
    exact htracks.clean channel
  | cons operation rest ih =>
    rw [writesAll, ← List.append_assoc] at horderly
    obtain ⟨hstates, hrun⟩ := tracks_states hsource hdestination htracks horderly.of_append
    intro link hlink channel
    rcases List.mem_append.1 hlink with hnow | hlater
    · obtain ⟨history', htracks'⟩ := hstates link hnow
      exact htracks'.clean channel
    · exact ih _ hrun horderly link hlater channel

/-- Whatever is asked of an accepted engine, and however its device behaves, every length that is
    written comes right after an address on its channel, the two name a range inside the window of
    the channel, and the lengths are those that the operation intends. So a simulated device at the
    addresses of the geometry never shows a decode error, however it is stalled and released. -/
theorem transfers_inside {mode : SyncMode} {g : Geometry} {e : Engine}
    (hcreate : Engine.create mode g = .ok e) :
    (∀ {σ : Type} [Device σ] {size : Channel → σ → Nat} (link : σ),
      Device.Lawful size → (∀ channel, size channel link = g.words channel) →
        ∀ operations : List Engine.Operation,
          g.Orderly (writesAll ⟨e, link⟩ operations) ∧
            let s := (performAll ⟨e, link⟩ operations).2
            ∀ operation, s.engine.Intends operation (launched (s.writes operation))) ∧
    (g.sourceBase = sourceBase → g.destinationBase = destinationBase →
      ∀ (lines : Option Interrupt.Lines) (stalled : Bool) (toggles : List (List Bool)) operations,
        let d := (Loopback.create g.sourceWords g.destinationWords lines).setStalled stalled
        ∀ link ∈ statesAll ⟨e, (⟨d, toggles⟩ : Stalling)⟩ operations, ∀ channel,
          link.device.status channel &&& Status.decodeError = 0) := by
  have haccepted := Engine.accepted_create hcreate
  refine ⟨?_, ?_⟩
  · intro σ _ size link hlawful hsize operations
    have hhoused : Housed ⟨e, link⟩ g size := ⟨haccepted, funext hsize⟩
    refine ⟨hhoused.orderly_writesAll hlawful operations, ?_⟩
    intro s operation
    exact ((hhoused.performAll hlawful operations).makes hlawful operation).2
  · intro hsource hdestination lines stalled toggles operations d
    have htracks : d.Tracks g [] := by
      have hcreated := tracks_create g.sourceWords g.destinationWords g.burstWords lines
      rw [← hsource, ← hdestination] at hcreated
      exact hcreated.setStalled stalled
    have hhoused : Housed ⟨e, (⟨d, toggles⟩ : Stalling)⟩ g
        fun channel link => link.device.windowSize channel := by
      refine ⟨haccepted, funext fun channel => ?_⟩
      exact (windowSize_setStalled channel _ stalled).trans (windowSize_create g lines channel)
    have horderly := hhoused.orderly_writesAll lawful_stalling operations
    exact clean_statesAll hsource hdestination [] htracks horderly

/-- A payload is sent and read back, every transfer inside its window. -/
theorem transfers_inside_echo :
    ∃ e, Engine.create .poll ⟨6, sourceBase, 256, destinationBase, 2⟩ = .ok e ∧
      let s : Session Stalling := ⟨e, (Loopback.create 6 256 none).setStalled false, []⟩
      let operations : List Engine.Operation :=
        [.initialise 1024, .sendSplit [5, 6, 7], .receive []]
      Geometry.Orderly ⟨6, sourceBase, 256, destinationBase, 2⟩ (s.writesAll operations) ∧
        launched (s.writesAll operations) =
          [(.mm2s, 8), (.mm2s, 24), (.mm2s, 16), (.s2mm, 1024)] ∧
        ∀ link ∈ s.statesAll operations, ∀ channel,
          link.device.status channel &&& Status.decodeError = 0 := by
  have hcreate := Engine.create_small .poll
  refine ⟨_, hcreate, ?_, ?_, ?_⟩
  · apply ((transfers_inside hcreate).1 _ lawful_stalling ?_ _).1
    intro channel
    exact (windowSize_setStalled channel _ false).trans
      (windowSize_create ⟨6, _, 256, _, 2⟩ none channel)
  · decide +kernel
  · exact (transfers_inside hcreate).2 rfl rfl none false [] _

end Session

end DmaLink
