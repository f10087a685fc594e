import DmaLink.Proofs.Engine.Modes

namespace DmaLink

namespace Loopback

/-- How many waits can succeed on what a port shows already. -/
def Port.signs (p : Port) : SyncMode → Nat
  | .poll => (Status.isDone p.status).toNat
  | .interrupt => (p.line.map fun line => line.arriving.length).getD 0 / 4

/-- How many chunks a reception can still take. -/
def backlog (d : Loopback) (mode : SyncMode) : Nat :=
  d.stream.size + d.layerComplete.toNat + (d.port .s2mm).signs mode

variable {d d' : Loopback} {mode : SyncMode}

theorem Port.signs_fail (p : Port) (mode : SyncMode) : p.fail.signs mode = p.signs mode := by
  cases mode with
  | poll => exact congrArg Bool.toNat (Status.isDone_or (by decide))
  | interrupt => rfl

/-- A finished chunk adds one sign at most. -/
theorem Port.signs_finish_le (p : Port) (mode : SyncMode) :
    p.finish.signs mode ≤ p.signs mode + 1 := by
  cases mode with
  | poll => exact Nat.le_trans (Bool.toNat_le _) (Nat.le_add_left _ _)
  | interrupt =>
    have hraised (line : Interrupt.Line) :
        line.raise.arriving.length ≤ line.arriving.length + 4 := by
      simp only [Interrupt.Line.raise, Interrupt.Line.feed]
      split
      · rw [List.length_append]
        exact Nat.le_refl _
      · exact Nat.le_add_right _ _
    simp only [signs, finish]
    split
    · cases p.line with
      | none => exact Nat.zero_le _
      | some line =>
        have hline := hraised line
        simp only [Option.map_some, Option.getD_some]
        omega
    · exact Nat.le_succ _

/-- A change of one port leaves all of the backlog but what that port signs. -/
theorem backlog_eq_of_agreesBut {channel : Channel} (hagrees : AgreesBut channel d d') :
    d'.backlog mode = d.stream.size + d.layerComplete.toNat + (d'.port .s2mm).signs mode := by
  rw [backlog, hagrees.stream, hagrees.layerComplete]

/-- A chunk that is completed is taken out of the backlog. -/
theorem backlog_completeChunk_le (mode : SyncMode)
    (harming : ∀ arming, d.armed = some arming → 0 < arming.words) :
    d.completeChunk.backlog mode ≤ d.backlog mode := by
  have hcompletes := d.completes
  generalize d.completeChunk = d' at hcompletes ⊢
  cases hcompletes with
  | waits => exact Nat.le_refl _
  | fails arming harmed =>
    rw [backlog_eq_of_agreesBut (agreesBut_fail { d with armed := none } .s2mm), port_fail,
      Port.signs_fail]
    exact Nat.le_refl _
  | finishes arming destination harmed hrunning hfills =>
    have hpositive := harming arming harmed
    have hsigns : ((d.filled arming destination).port .s2mm).finish.signs mode ≤
        (d.port .s2mm).signs mode + 1 := (d.port .s2mm).signs_finish_le mode
    rw [backlog_eq_of_agreesBut (agreesBut_finish (d.filled arming destination) .s2mm), port_finish]
    generalize ((d.filled arming destination).port .s2mm).finish.signs mode = signs at hsigns ⊢
    simp only [filled, size_drop, backlog]
    -- Either words leave the stream, or the end of the layer is used up.
    by_cases hwords : arming.words ≤ d.stream.size
    · simp only [hwords, decide_true, Bool.and_true]
      omega
    · have hclosed := hfills.resolve_left hwords
      simp only [hwords, hclosed, decide_false, Bool.and_false, Bool.toNat_false, Bool.toNat_true]
      omega

theorem backlog_arm_le (mode : SyncMode) {bytes : Nat} (hbytes : 0 < bytes / wordBytes) :
    (d.arm bytes).backlog mode ≤ d.backlog mode := by
  unfold Loopback.arm
  split
  · apply backlog_completeChunk_le (d := { d with
      armed := some ⟨d.register Channel.s2mm.address, bytes / wordBytes⟩ })
    intro arming harming
    rw [← Option.some.inj harming]
    exact hbytes
  · exact Nat.le_refl _

/-- An acknowledgement that is taken is four bytes. -/
theorem length_of_take_eq_ok {line : Interrupt.Line} {count : UInt32}
    (htake : line.take.1 = .ok count) :
    line.take.2.arriving.length + 4 = line.arriving.length := by
  simp only [Interrupt.Line.take] at htake ⊢
  split at htake
  · next hfour =>
    rw [if_pos hfour, List.length_drop]
    rw [List.length_take] at hfour
    omega
  · exact nomatch htake

theorem arriving_rearm (line : Interrupt.Line) : line.rearm.2.arriving = line.arriving := by
  unfold Interrupt.Line.rearm
  split <;> rfl

/-- Taking a count that is there uses up a sign. -/
theorem signs_takeSignal_lt (hok : (d.run (takeSignal .s2mm)).1 = .ok ()) :
    ((d.run (takeSignal .s2mm)).2.port .s2mm).signs .interrupt <
        (d.port .s2mm).signs .interrupt ∧
      AgreesBut .s2mm d (d.run (takeSignal .s2mm)).2 := by
  have hstart : d.run (takeSignal .s2mm) = (d.answer (.takeInterrupt .s2mm)).2.run
      (afterTaking .s2mm (d.answer (.takeInterrupt .s2mm)).1) := rfl
  cases hline : (d.port .s2mm).line with
  | none =>
    have hlines : d.lines = none := Option.map_eq_none_iff.1 hline
    have hanswer : d.answer (.takeInterrupt .s2mm) =
        (.error (.io (.shortAcknowledgement 0)), d) := by simp only [answer, hlines]
    rw [hstart, hanswer] at hok
    cases hok
  | some line =>
    have htaken : line.take = (line.take.1, line.take.2) := rfl
    obtain ⟨-, hcount, hport, hagrees⟩ := Port.answers_takeInterrupt hline htaken d rfl
    rw [hcount] at hstart
    generalize (d.answer (.takeInterrupt .s2mm)).2 = taken at hstart hport hagrees
    rw [hstart] at hok ⊢
    cases htake : line.take.1 with
    | error cause =>
      rw [htake] at hok
      cases hok
    | ok count =>
      obtain ⟨hcleared, hagrees'⟩ := acknowledge_spec taken .s2mm
      have hrest : taken.run (afterTaking .s2mm (.ok count)) =
          (taken.run (Completion.acknowledge .s2mm)).2.answer (.rearm .s2mm) := rfl
      rw [hrest]
      generalize (taken.run (Completion.acknowledge .s2mm)).2 = cleared at hcleared hagrees' ⊢
      have hline' : (cleared.port .s2mm).line = some line.take.2 := by
        rw [hcleared]
        exact congrArg Port.line hport
      have hrearm : line.take.2.rearm = (line.take.2.rearm.1, line.take.2.rearm.2) := rfl
      obtain ⟨-, -, hrearmed, hagrees''⟩ := Port.answers_rearm hline' hrearm cleared rfl
      refine ⟨?_, (hagrees.trans hagrees').trans hagrees''⟩
      have hlength := length_of_take_eq_ok htake
      rw [hrearmed]
      simp only [Port.signs, hline, Option.map_some, Option.getD_some, arriving_rearm]
      omega

/-- A wait that succeeds uses up a sign. -/
theorem backlog_await_lt {limit : Nat}
    (hok : (d.run (Completion.await mode .s2mm limit)).1 = .ok ()) :
    (d.run (Completion.await mode .s2mm limit)).2.backlog mode < d.backlog mode := by
  cases mode with
  | poll =>
    rw [Completion.await, run_poll] at hok ⊢
    cases hdone : d.done .s2mm with
    | false =>
      rw [hdone] at hok
      cases hok
    | true =>
      obtain ⟨hport, hagrees⟩ := acknowledge_spec d .s2mm
      have hshown : Status.isDone (d.port .s2mm).status = true := hdone
      rw [if_pos rfl, backlog_eq_of_agreesBut hagrees, hport]
      simp only [backlog, Port.signs, Port.isDone_acknowledged, hshown, Bool.toNat_true,
        Bool.toNat_false]
      omega
  | interrupt =>
    rw [Completion.await, run_interrupt] at hok ⊢
    cases hsignalled : d.signalled .s2mm with
    | false =>
      rw [hsignalled] at hok
      cases hok
    | true =>
      rw [hsignalled, if_pos rfl] at hok
      rw [if_pos rfl]
      obtain ⟨hshorter, hagrees⟩ := signs_takeSignal_lt hok
      rw [backlog_eq_of_agreesBut hagrees, backlog]
      omega

end Loopback

namespace Engine

open Loopback

variable {e : Engine} {d : Loopback}

theorem backlog_arm_le (e : Engine) (d : Loopback)
    (hchunk : 0 < (UInt32.ofNat e.chunkBytes).toNat / wordBytes) (half : Half) :
    (d.run (e.arm half)).2.backlog e.mode ≤ d.backlog e.mode := by
  obtain ⟨hport, hagrees⟩ :=
    launched_spec d (e.destination.address half) (UInt32.ofNat e.chunkBytes)
  let launched := (d.write Channel.s2mm.address (e.destination.address half)).withLength .s2mm
    (UInt32.ofNat e.chunkBytes)
  have hlaunched : launched.backlog e.mode = d.backlog e.mode := by
    rw [backlog_eq_of_agreesBut hagrees, hport, backlog]
    cases e.mode <;> rfl
  have harmed : (d.run (e.arm half)).2 = launched.arm (UInt32.ofNat e.chunkBytes).toNat := rfl
  rw [harmed, ← hlaunched]
  exact Loopback.backlog_arm_le e.mode hchunk

/-- A reception whose bound is past the backlog ends for another reason. -/
theorem ending_receiveChunks_ne_unfinished
    (hchunk : 0 < (UInt32.ofNat e.chunkBytes).toNat / wordBytes) (buffer : List UInt64)
    {bound : Nat} (half : Half) (before : List (List UInt64)) (hbound : d.backlog e.mode < bound) :
    (d.run (e.receiveChunks buffer bound half before)).1.ending ≠ .unfinished := by
  induction bound generalizing d half before with
  | zero => exact absurd hbound (Nat.not_lt_zero _)
  | succ bound ih =>
    rw [receiveChunks, run_bind, takeChunk_eq, run_bind]
    cases hawait : (d.run (Completion.await e.mode .s2mm e.limit)).1 with
    | error cause =>
      intro hending
      cases hending
    | ok _ =>
      have hless := backlog_await_lt hawait
      generalize (d.run (Completion.await e.mode .s2mm e.limit)).2 = waited at hless ⊢
      simp only [run_loadChunk]
      cases chunkIn e.destination waited.destination half with
      | error cause =>
        intro hending
        cases hending
      | ok chunk =>
        simp only
        split
        · intro hending
          cases hending
        · rw [run_bind]
          have harmed := e.backlog_arm_le waited hchunk half.other
          exact ih half.other _ (by omega)

/-- A reception that is given the bound of its device ends for another reason than that. -/
theorem ending_receive_ne_unfinished
    (hchunk : 0 < (UInt32.ofNat e.chunkBytes).toNat / wordBytes) (buffer : List UInt64) :
    (d.run (e.receive d.chunkBound buffer)).1.ending ≠ .unfinished := by
  have hbound : d.backlog e.mode < d.chunkBound := by
    have hclosed := Bool.toNat_le d.layerComplete
    have hsigns : (d.port .s2mm).signs e.mode ≤
        (d.lines.map fun lines => lines.s2mm.arriving.length).getD 0 + 1 := by
      cases e.mode with
      | poll => exact Nat.le_trans (Bool.toNat_le _) (Nat.le_add_left _ _)
      | interrupt =>
        simp only [Port.signs, port, Option.map_map]
        exact Nat.le_trans (Nat.div_le_self _ _) (Nat.le_succ _)
    rw [backlog, chunkBound]
    omega
  have harmed := e.backlog_arm_le d hchunk .a
  rw [receive, run_bind]
  exact ending_receiveChunks_ne_unfinished hchunk buffer .a [] (by omega)

end Engine

end DmaLink
