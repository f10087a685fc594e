import DmaLink.Proofs.Loopback.Polled

namespace DmaLink

namespace Status

theorem isDone_or {status bits : UInt32} (hbits : bits &&& transferDone = 0) :
    isDone (status ||| bits) = isDone status := by
  have hdistrib : (status ||| bits) &&& transferDone =
      status &&& transferDone ||| bits &&& transferDone :=
    UInt32.toBitVec_inj.1 BitVec.and_or_distrib_right
  rw [isDone, hdistrib, hbits, UInt32.or_zero, isDone]

theorem isDone_clear {status bits : UInt32} (hbits : ~~~bits &&& transferDone = transferDone) :
    isDone (status &&& ~~~bits) = isDone status := by
  rw [isDone, UInt32.and_assoc, hbits, isDone]

theorem isHalted_or {status bits : UInt32} (hbits : bits &&& halted = halted) :
    isHalted (status ||| bits) = true := by
  have hdistrib : (status ||| bits) &&& halted = status &&& halted ||| bits &&& halted :=
    UInt32.toBitVec_inj.1 BitVec.and_or_distrib_right
  have habsorb : status &&& halted ||| halted = halted := by
    apply UInt32.toBitVec_inj.1
    apply BitVec.eq_of_getElem_eq
    intro i hi
    simp
  rw [isHalted, hdistrib, hbits, habsorb]
  decide

end Status

/-- The bytes of so many interrupts. -/
def Interrupt.counts (count : Nat) : List UInt8 := (List.replicate count rearmBytes).flatten

/-- One more count is four more bytes. -/
theorem Interrupt.counts_succ (count : Nat) : counts (count + 1) = counts count ++ rearmBytes := by
  rw [counts, List.replicate_succ', List.flatten_append]
  simp [counts]

namespace Loopback

/-- A port with interrupts, which are enabled as long as it runs. Its line holds one count for a
    burst that is shown as finished and `late` more. -/
structure Port.Owes (p : Port) (late : Nat) : Prop where
  enabled : p.running = true → (p.control &&& interruptEnable != 0) = true
  counts : ∃ returned, p.line =
    some ⟨Interrupt.counts (late + (Status.isDone p.status).toNat), returned, .listening⟩

namespace Port

variable {p : Port} {late : Nat}

/-- A burst that finishes while the last one is still shown leaves one count more over. -/
theorem Owes.finish (howes : p.Owes late) (hrunning : p.running = true) :
    p.finish.Owes (late + (Status.isDone p.status).toNat) := by
  have henabled := howes.enabled hrunning
  obtain ⟨returned, hline⟩ := howes.counts
  refine ⟨fun _ => henabled, [], ?_⟩
  simp only [Port.finish, henabled, if_true, hline, Status.isDone_or_transferDone, Option.map_some]
  rw [Bool.toNat_true, Interrupt.counts_succ]
  rfl

/-- A transfer that fails halts its channel. -/
theorem running_fail (p : Port) : p.fail.running = false := by
  rw [running, Port.fail, Status.isHalted_or (by decide), Bool.not_true]

theorem Owes.fail (howes : p.Owes late) : p.fail.Owes late := by
  obtain ⟨returned, hline⟩ := howes.counts
  refine ⟨fun hrunning => ?_, returned, ?_⟩
  · rw [running_fail] at hrunning
    exact nomatch hrunning
  · simp only [Port.fail]
    rw [Status.isDone_or (by decide)]
    exact hline

theorem Owes.run (howes : p.Owes late) : (p.run SyncMode.interrupt.runWord).Owes late := by
  obtain ⟨returned, hline⟩ := howes.counts
  have henabled : (SyncMode.interrupt.runWord &&& interruptEnable != 0) = true := by decide
  refine ⟨fun _ => henabled, returned, ?_⟩
  simp only [Port.run]
  rw [Status.isDone_clear (by decide)]
  exact hline

/-- The port after a control word that stops the channel. -/
def halt (p : Port) : Port :=
  { p with control := Control.halt, status := p.status ||| Status.halted }

theorem running_halt (p : Port) : p.halt.running = false := by
  rw [running, halt, Status.isHalted_or (by decide), Bool.not_true]

theorem Owes.halt (howes : p.Owes late) : p.halt.Owes late := by
  obtain ⟨returned, hline⟩ := howes.counts
  refine ⟨fun hrunning => ?_, returned, ?_⟩
  · rw [running_halt] at hrunning
    exact nomatch hrunning
  · simp only [Port.halt]
    rw [Status.isDone_or (by decide)]
    exact hline

/-- The port after a reset. -/
def powerOn (p : Port) : Port := { p with control := Control.halt, status := Status.halted }

/-- A reset takes no count off the line. -/
theorem Owes.powerOn (howes : p.Owes late) :
    p.powerOn.Owes (late + (Status.isDone p.status).toNat) := by
  have hhalted : p.powerOn.running = false :=
    (by decide : (!Status.isHalted Status.halted) = false)
  have hclear : Status.isDone p.powerOn.status = false :=
    (by decide : Status.isDone Status.halted = false)
  obtain ⟨returned, hline⟩ := howes.counts
  refine ⟨fun hrunning => ?_, returned, ?_⟩
  · rw [hhalted] at hrunning
    exact nomatch hrunning
  · rw [hclear]
    exact hline

theorem Owes.withAddress (howes : p.Owes late) (address : UInt32) : { p with address }.Owes late :=
  ⟨howes.enabled, howes.counts⟩

end Port

/-- A device with interrupts, with `late` counts left over on the line of the receiving channel. -/
structure Owing (d : Loopback) (late : Nat) : Prop where
  sending : (d.port .mm2s).Owes 0
  receiving : (d.port .s2mm).Owes late

/-- Whether a burst of a channel is shown as finished. -/
def done (d : Loopback) (channel : Channel) : Bool := Status.isDone (d.status channel)

/-- No chunk is armed while the last one has not been acknowledged. -/
def Fresh (d : Loopback) : Prop := d.done .s2mm = true → d.armed = none

/-- The device with the armed chunk taken from the stream, before the channel shows it. -/
def filled (d : Loopback) (arming : Arming) (destination : Window) : Loopback :=
  { d with
    destination
    stream := d.stream.drop arming.words
    layerComplete := d.layerComplete && decide (arming.words ≤ d.stream.size)
    armed := none }

/-- What completing the armed chunk can come to. -/
inductive Completes (d : Loopback) : Loopback → Prop where
  | waits : Completes d d
  | fails (arming : Arming) (harmed : d.armed = some arming) :
      Completes d (({ d with armed := none } : Loopback).fail .s2mm)
  | finishes (arming : Arming) (destination : Window) (harmed : d.armed = some arming)
      (hrunning : d.running .s2mm = true)
      (hfills : arming.words ≤ d.stream.size ∨ d.layerComplete = true) :
      Completes d ((d.filled arming destination).finish .s2mm)

/-- Completing what is armed ends in one of its ways. -/
theorem completes (d : Loopback) : d.Completes d.completeChunk := by
  simp only [completeChunk]
  split
  case isTrue => exact .waits
  case isFalse hgoes =>
    rw [Bool.or_eq_true, not_or] at hgoes
    have hrunning : d.running .s2mm = true := by simpa using hgoes.2
    split
    · exact .waits
    · next arming harmed =>
      split
      case isTrue => exact .waits
      case isFalse hfills =>
        split
        · exact .fails arming harmed
        · split
          · exact .fails arming harmed
          · refine .finishes arming _ harmed hrunning ?_
            simpa [Classical.or_iff_not_imp_left] using hfills

variable {d : Loopback} {late : Nat}

/-- With no burst shown a device is fresh. -/
theorem fresh_of_not_done (hdone : d.done .s2mm = false) : d.Fresh := by
  intro h
  rw [hdone] at h
  exact nomatch h

/-- The counts that are left over are a matter of the ports. -/
theorem Owing.of_ports {d' : Loopback} (howing : d.Owing late)
    (hports : ∀ channel, d'.port channel = d.port channel) : d'.Owing late :=
  ⟨hports .mm2s ▸ howing.sending, hports .s2mm ▸ howing.receiving⟩

/-- Completing a chunk leaves a count over if the last one has not been acknowledged. -/
theorem Owing.completeChunk (howing : d.Owing late) {arming : Arming}
    (harmed : d.armed = some arming) :
    d.completeChunk.Owing (late +
      (d.done .s2mm && d.completeChunk.armed.isNone && d.completeChunk.running .s2mm).toNat) := by
  have hcompletes := d.completes
  generalize d.completeChunk = d' at hcompletes ⊢
  cases hcompletes with
  | waits =>
    rw [harmed]
    simpa using howing
  | fails =>
    have hagrees := agreesBut_fail { d with armed := none } .s2mm
    have hport := port_fail { d with armed := none } .s2mm
    have hhalted : (({ d with armed := none } : Loopback).fail .s2mm).running .s2mm = false :=
      (congrArg Port.running hport).trans (Port.running_fail _)
    rw [hhalted, Bool.and_false, Bool.toNat_false, Nat.add_zero]
    refine ⟨?_, ?_⟩
    · rw [hagrees.port .mm2s (by decide)]
      exact howing.sending
    · rw [hport]
      exact howing.receiving.fail
  | finishes arming destination _ hrunning hfills =>
    have hports (channel : Channel) : (d.filled arming destination).port channel = d.port channel :=
      rfl
    have hagrees := agreesBut_finish (d.filled arming destination) .s2mm
    have hport := port_finish (d.filled arming destination) .s2mm
    have hrunning' : ((d.filled arming destination).finish .s2mm).running .s2mm = true := by
      refine (congrArg Port.running hport).trans ?_
      rw [Port.running_finish, hports]
      exact hrunning
    have harmed' : ((d.filled arming destination).finish .s2mm).armed = none := hagrees.armed
    rw [hrunning', harmed', Option.isNone_none, Bool.and_true, Bool.and_true]
    refine ⟨?_, ?_⟩
    · rw [hagrees.port .mm2s (by decide), hports]
      exact howing.sending
    · rw [hport, hports]
      exact howing.receiving.finish hrunning

theorem port_completeChunk (d : Loopback) : d.completeChunk.port .mm2s = d.port .mm2s := by
  have hcompletes := d.completes
  generalize d.completeChunk = d' at hcompletes ⊢
  cases hcompletes with
  | waits => rfl
  | fails => exact (agreesBut_fail _ .s2mm).port .mm2s (by decide)
  | finishes => exact (agreesBut_finish _ .s2mm).port .mm2s (by decide)

/-- Completing changes nothing or leaves nothing armed. -/
theorem armed_completeChunk (d : Loopback) :
    d.completeChunk = d ∨ d.completeChunk.armed = none := by
  have hcompletes := d.completes
  generalize d.completeChunk = d' at hcompletes ⊢
  cases hcompletes with
  | waits => exact .inl rfl
  | fails => exact .inr (agreesBut_fail _ .s2mm).armed
  | finishes => exact .inr (agreesBut_finish _ .s2mm).armed

/-- A fresh device completes nothing behind a burst that is still shown. -/
theorem Fresh.completeChunk (hfresh : d.Fresh) : d.completeChunk.Fresh := by
  rcases d.armed_completeChunk with hsame | harmed
  · rw [hsame]
    exact hfresh
  · exact fun _ => harmed

/-- As long as every chunk is acknowledged before the next is armed, none leaves a count over. -/
theorem Owing.completeChunk_of_fresh (howing : d.Owing late) (hfresh : d.Fresh) :
    d.completeChunk.Owing late := by
  cases harmed : d.armed with
  | none =>
    have hsame : d.completeChunk = d := by
      simp only [Loopback.completeChunk, harmed, ite_self]
    rw [hsame]
    exact howing
  | some arming =>
    have hdone : d.done .s2mm = false := by
      rw [Bool.eq_false_iff]
      intro hdone
      rw [hfresh hdone] at harmed
      cases harmed
    have hcompleted := howing.completeChunk harmed
    rw [hdone] at hcompleted
    exact hcompleted

/-- What a reception can still be supplied with: words, the end of a layer, and a chunk that has
    been completed already. -/
def supply (d : Loopback) : Nat :=
  d.stream.size + d.layerComplete.toNat + (d.done .s2mm).toNat

theorem size_drop (stream : Stream) (count : Nat) :
    (stream.drop count).size = stream.size - count := by
  rw [← Stream.length_toList, Stream.toList_drop, List.length_drop, Stream.length_toList]

/-- A chunk that is completed is taken out of the supply. -/
theorem supply_completeChunk_le (harming : ∀ arming, d.armed = some arming → 0 < arming.words) :
    d.completeChunk.supply ≤ d.supply := by
  have hcompletes := d.completes
  generalize d.completeChunk = d' at hcompletes ⊢
  cases hcompletes with
  | waits => exact Nat.le_refl _
  | fails arming harmed =>
    have hagrees := agreesBut_fail { d with armed := none } .s2mm
    have hdone : (({ d with armed := none } : Loopback).fail .s2mm).done .s2mm = d.done .s2mm := by
      have hstatus := congrArg Port.status (port_fail { d with armed := none } .s2mm)
      exact (congrArg Status.isDone hstatus).trans (Status.isDone_or (by decide))
    rw [supply, hagrees.stream, hagrees.layerComplete, hdone]
    exact Nat.le_refl _
  | finishes arming destination harmed hrunning hfills =>
    have hpositive := harming arming harmed
    have hagrees := agreesBut_finish (d.filled arming destination) .s2mm
    have hshown := Bool.toNat_le (((d.filled arming destination).finish .s2mm).done .s2mm)
    rw [supply, hagrees.stream, hagrees.layerComplete]
    simp only [filled, size_drop, supply] at hshown ⊢
    -- Either words leave the stream, or the end of the layer is used up.
    by_cases hwords : arming.words ≤ d.stream.size
    · simp only [hwords, decide_true, Bool.and_true] at hshown ⊢
      omega
    · have hclosed := hfills.resolve_left hwords
      simp only [hwords, hclosed, decide_false, Bool.and_false, Bool.toNat_false,
        Bool.toNat_true] at hshown ⊢
      omega

section Writes

variable {d' : Loopback}

theorem done_eq_of_port {channel : Channel} (hport : d'.port channel = d.port channel) :
    d'.done channel = d.done channel :=
  congrArg (fun p : Port => Status.isDone p.status) hport

/-- A change of the sending port leaves a device fresh. -/
theorem AgreesBut.fresh (hagrees : AgreesBut .mm2s d d') (hfresh : d.Fresh) : d'.Fresh := by
  intro hdone
  rw [done_eq_of_port (hagrees.port .s2mm (by decide))] at hdone
  exact hagrees.armed.trans (hfresh hdone)

theorem Owing.of_sending (howing : d.Owing late) (hagrees : AgreesBut .mm2s d d')
    (hsending : (d'.port .mm2s).Owes 0) : d'.Owing late :=
  ⟨hsending, (hagrees.port .s2mm (by decide)).symm ▸ howing.receiving⟩

theorem Owing.of_receiving {late' : Nat} (howing : d.Owing late) (hagrees : AgreesBut .s2mm d d')
    (hreceiving : (d'.port .s2mm).Owes late') : d'.Owing late' :=
  ⟨(hagrees.port .mm2s (by decide)).symm ▸ howing.sending, hreceiving⟩

/-- A burst is taken in and the armed chunk completed, each with a count on its line. -/
theorem Owing.sendBurst (howing : d.Owing late) (hfresh : d.Fresh) (hquiet : d.done .mm2s = false)
    (bytes : Nat) : (d.sendBurst bytes).Owing late ∧ (d.sendBurst bytes).Fresh := by
  have hfailed : (d.fail .mm2s).Owing late ∧ (d.fail .mm2s).Fresh := by
    have hagrees := agreesBut_fail d .mm2s
    refine ⟨howing.of_sending hagrees ?_, hagrees.fresh hfresh⟩
    rw [port_fail]
    exact howing.sending.fail
  simp only [Loopback.sendBurst]
  split
  case isTrue => exact ⟨howing, hfresh⟩
  case isFalse hgoes =>
    rw [Bool.or_eq_true, not_or] at hgoes
    have hrunning : d.running .mm2s = true := by simpa using hgoes.1
    split
    · exact hfailed
    split
    · exact hfailed
    next start _ _ =>
    generalize (d.source.words.extract start (start + bytes / wordBytes)).toList = burst
    have htaken : (∀ channel, (d.takeBurst burst).port channel = d.port channel) ∧
        (d.takeBurst burst).armed = d.armed := by
      unfold takeBurst
      split <;> exact ⟨fun _ => rfl, rfl⟩
    generalize d.takeBurst burst = taken at htaken
    obtain ⟨hports, harmed⟩ := htaken
    have howing' := howing.of_ports hports
    have hfresh' : taken.Fresh := by
      intro hdone
      rw [done_eq_of_port (hports .s2mm)] at hdone
      exact harmed.trans (hfresh hdone)
    have hagrees := agreesBut_finish taken .mm2s
    have hfinished : ((taken.finish .mm2s).port .mm2s).Owes 0 := by
      have hsent := howing.sending.finish hrunning
      have hnone : Status.isDone (d.port .mm2s).status = false := hquiet
      rw [hnone] at hsent
      rw [port_finish, hports]
      exact hsent
    have hfresh'' := hagrees.fresh hfresh'
    exact ⟨(howing'.of_sending hagrees hfinished).completeChunk_of_fresh hfresh'',
      hfresh''.completeChunk⟩

/-- Arming a chunk leaves a count over if it completes at once while the last has not been
    acknowledged. -/
theorem Owing.arm (howing : d.Owing late) (bytes : Nat) :
    (d.arm bytes).Owing (late +
      (d.done .s2mm && (d.arm bytes).armed.isNone && (d.arm bytes).running .s2mm).toNat) := by
  unfold Loopback.arm
  split
  case isTrue =>
    exact Owing.completeChunk (howing.of_ports fun _ => rfl) rfl
  case isFalse hhalted =>
    rw [Bool.eq_false_iff.2 hhalted, Bool.and_false]
    exact howing

theorem port_arm (d : Loopback) (bytes : Nat) : (d.arm bytes).port .mm2s = d.port .mm2s := by
  unfold Loopback.arm
  split
  · exact port_completeChunk _
  · rfl

/-- Arming a chunk takes no more than there is. -/
theorem supply_arm_le {bytes : Nat} (hbytes : 0 < bytes / wordBytes) :
    (d.arm bytes).supply ≤ d.supply := by
  unfold Loopback.arm
  split
  · apply supply_completeChunk_le
    intro arming harming
    rw [← Option.some.inj harming]
    exact hbytes
  · exact Nat.le_refl _

theorem port_withRun_isDone (channel : Channel) (word : UInt32) :
    (d.withRun channel word).done channel = d.done channel := by
  refine (congrArg (fun p : Port => Status.isDone p.status) (port_withRun d channel word)).trans ?_
  exact Status.isDone_clear (by decide)

/-- The state after a control word that stops a channel. -/
theorem write_halt (channel : Channel) :
    (d.write channel.control Control.halt).port channel = (d.port channel).halt ∧
      AgreesBut channel d (d.write channel.control Control.halt) := by
  have hwrite : d.write channel.control Control.halt =
      (({ d with writes := d.writes.push ⟨channel.control, Control.halt⟩ } : Loopback).setRegister
        channel.control Control.halt).setStatusBits channel Status.halted := by
    cases channel <;> rfl
  rw [hwrite]
  refine ⟨?_, ?_⟩
  · rw [port_setStatusBits, port_setRegister_control]
    rfl
  · exact ((agreesBut_log channel d _).trans (agreesBut_setRegister _ channel (by simp) _)).trans
      (agreesBut_setStatusBits _ channel _)

/-- The registers of a channel after a reset. -/
theorem setRegister_powerOn (channel : Channel) :
    ((d.setRegister channel.control Control.halt).setRegister channel.status Status.halted).port
        channel = (d.port channel).powerOn ∧
      AgreesBut channel d
        ((d.setRegister channel.control Control.halt).setRegister channel.status
          Status.halted) := by
  refine ⟨?_, ?_⟩
  · cases channel <;> simp [port, Port.powerOn, status, Channel.status, Channel.control,
      Channel.address] <;> rfl
  · exact (agreesBut_setRegister d channel (by simp) _).trans
      (agreesBut_setRegister _ channel (by simp) _)

/-- A reset of the sending channel powers its port on and changes nothing else. -/
theorem write_reset_mm2s :
    (d.write Channel.mm2s.control Control.reset).port .mm2s = (d.port .mm2s).powerOn ∧
      AgreesBut .mm2s d (d.write Channel.mm2s.control Control.reset) := by
  obtain ⟨hport, hagrees⟩ := setRegister_powerOn (d := { d with
    writes := d.writes.push ⟨Channel.mm2s.control, Control.reset⟩ }) .mm2s
  exact ⟨hport, (agreesBut_log .mm2s d _).trans hagrees⟩

/-- A reset of the receiving channel gives up the chunk that is armed. -/
theorem write_reset_s2mm :
    (d.write Channel.s2mm.control Control.reset).port .s2mm = (d.port .s2mm).powerOn ∧
      (d.write Channel.s2mm.control Control.reset).port .mm2s = d.port .mm2s ∧
        (d.write Channel.s2mm.control Control.reset).armed = none := by
  obtain ⟨hport, hagrees⟩ := setRegister_powerOn (d := { d with
    writes := d.writes.push ⟨Channel.s2mm.control, Control.reset⟩ }) .s2mm
  exact ⟨hport, hagrees.port .mm2s (by decide), rfl⟩

end Writes

end Loopback

end DmaLink
