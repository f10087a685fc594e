import DmaLink.Proofs.Loopback.Lawful
import DmaLink.Proofs.Loopback.Signals
import DmaLink.Proofs.Queue.Traffic

namespace DmaLink

open Link (Launch)

theorem Status.not_and_of_disjoint {bits mask : UInt32} (hdisjoint : bits &&& mask = 0) :
    ~~~bits &&& mask = mask := by
  apply UInt32.toBitVec_inj.1
  apply BitVec.eq_of_getElem_eq
  intro i hi
  have hbit := congrArg (fun word : UInt32 => word.toBitVec[i]) hdisjoint
  simp at hbit ⊢
  intro hmask
  simpa [hmask] using hbit

/-- What a reception does is an access of the receiving channel. -/
theorem Link.Drains.serves {left left' : Nat} {access : io.Access} {reply : io.Reply access}
    (hdrains : Drains left access reply left') : access.Serves .s2mm := by
  cases hdrains with
  | look limit finished => exact .awaits (.pollDone limit)
  | await limit readable => exact .awaits (.awaitInterrupt limit)
  | take count => exact .awaits .takeInterrupt
  | miss cause => exact .awaits .takeInterrupt
  | rearm left result => exact .awaits .rearm
  | load left start len words => exact .window _
  | write left hoffset value =>
    simp only [List.mem_cons, List.not_mem_nil, or_false] at hoffset
    obtain rfl | rfl | rfl := hoffset
    · exact .awaits (.acknowledge value)
    · exact .address value
    · exact .length value

namespace Loopback

/-- Two states of a device between which no channel is brought up. -/
def Subsides (d d' : Loopback) : Prop :=
  ∀ channel, d.running channel = false → d'.running channel = false

section Subsiding

variable {d d' d'' : Loopback}

theorem Subsides.rfl : d.Subsides d := fun _ hdown => hdown

/-- Subsiding twice is subsiding. -/
theorem Subsides.trans (h : d.Subsides d') (h' : d'.Subsides d'') : d.Subsides d'' :=
  fun channel hdown => h' channel (h channel hdown)

theorem AgreesBut.subsides {channel : Channel} (hagrees : AgreesBut channel d d')
    (hport : (d.port channel).running = false → (d'.port channel).running = false) :
    d.Subsides d' := by
  intro other hdown
  by_cases hsame : other = channel
  · rw [hsame] at hdown ⊢
    exact hport hdown
  · exact (running_of_port (hagrees.port other hsame)).trans hdown

theorem subsides_of_ports (hports : ∀ channel, d'.port channel = d.port channel) :
    d.Subsides d' :=
  fun channel hdown => (running_of_port (hports channel)).trans hdown

theorem subsides_fail (d : Loopback) (channel : Channel) : d.Subsides (d.fail channel) := by
  refine (agreesBut_fail d channel).subsides fun _ => ?_
  rw [port_fail, Port.running_fail]

theorem subsides_finish (d : Loopback) (channel : Channel) : d.Subsides (d.finish channel) := by
  refine (agreesBut_finish d channel).subsides fun hdown => ?_
  rw [port_finish, Port.running_finish, hdown]

theorem subsides_completeChunk (d : Loopback) : d.Subsides d.completeChunk := by
  have hcompletes := d.completes
  generalize d.completeChunk = d' at hcompletes ⊢
  cases hcompletes with
  | waits => exact .rfl
  | fails arming harmed => exact subsides_fail { d with armed := none } .s2mm
  | finishes arming destination => exact subsides_finish (d.filled arming destination) .s2mm

theorem subsides_withLength (d : Loopback) (channel : Channel) (value : UInt32) :
    d.Subsides (d.withLength channel value) := by
  refine (agreesBut_withLength d channel value).subsides fun hdown => ?_
  rw [port_withLength, hdown]

theorem ports_takeBurst (d : Loopback) (burst : List UInt64) (channel : Channel) :
    (d.takeBurst burst).port channel = d.port channel := by
  unfold takeBurst
  split <;> rfl

theorem subsides_sendBurst (d : Loopback) (bytes : Nat) : d.Subsides (d.sendBurst bytes) := by
  simp only [sendBurst]
  split
  · exact .rfl
  split
  · exact subsides_fail d .mm2s
  split
  · exact subsides_fail d .mm2s
  · exact ((subsides_of_ports (ports_takeBurst d _)).trans (subsides_finish _ .mm2s)).trans
      (subsides_completeChunk _)

theorem subsides_arm (d : Loopback) (bytes : Nat) : d.Subsides (d.arm bytes) := by
  unfold arm
  split
  · exact subsides_completeChunk { d with
      armed := some ⟨d.register Channel.s2mm.address, bytes / wordBytes⟩ }
  · exact .rfl

theorem subsides_setStalled (d : Loopback) (stalled : Bool) :
    d.Subsides (d.setStalled stalled) := by
  cases stalled with
  | true => exact .rfl
  | false => exact subsides_completeChunk { d with stalled := false }

theorem port_setStalled (d : Loopback) (stalled : Bool) :
    (d.setStalled stalled).port .mm2s = d.port .mm2s := by
  cases stalled with
  | true => rfl
  | false => exact port_completeChunk { d with stalled := false }

end Subsiding

/-- Both channels are halted at power-on. -/
theorem running_create (sourceWords destinationWords : Nat) (lines : Option Interrupt.Lines)
    (channel : Channel) : (create sourceWords destinationWords lines).running channel = false := by
  have hstatus : (create sourceWords destinationWords lines).status channel = Status.halted := by
    cases channel <;> rfl
  rw [running, hstatus]
  decide

section Accesses

variable (d : Loopback) {channel : Channel} {access : Link.Access}

/-- An access that waits for the burst of a channel concerns its port alone and does not halt
    it. -/
theorem agreesBut_of_awaits (hawaits : access.Awaits channel) :
    AgreesBut channel d (d.answer access).2 ∧
      ((d.answer access).2.port channel).running = (d.port channel).running ∧
        ((d.answer access).2.port channel).address = (d.port channel).address := by
  cases hawaits with
  | pollDone limit => exact ⟨.rfl, rfl, rfl⟩
  | awaitInterrupt limit => exact ⟨.rfl, rfl, rfl⟩
  | takeInterrupt =>
    cases hlines : d.lines with
    | none =>
      have hanswer : (d.answer (.takeInterrupt channel)).2 = d := by simp only [answer, hlines]
      rw [hanswer]
      exact ⟨.rfl, rfl, rfl⟩
    | some lines =>
      have hanswer : (d.answer (.takeInterrupt channel)).2 =
          { d with lines := some (lines.set channel (lines.get channel).take.2) } := by
        simp only [answer, hlines, Interrupt.Lines.take]
      rw [hanswer]
      exact ⟨agreesBut_setLine d hlines channel _, rfl, rfl⟩
  | rearm =>
    cases hlines : d.lines with
    | none =>
      have hanswer : (d.answer (.rearm channel)).2 = d := by simp only [answer, hlines]
      rw [hanswer]
      exact ⟨.rfl, rfl, rfl⟩
    | some lines =>
      have hanswer : (d.answer (.rearm channel)).2 =
          { d with lines := some (lines.set channel (lines.get channel).rearm.2) } := by
        simp only [answer, hlines, Interrupt.Lines.rearm]
      rw [hanswer]
      exact ⟨agreesBut_setLine d hlines channel _, rfl, rfl⟩
  | acknowledge bits =>
    obtain ⟨-, -, hport, hagrees⟩ := (Port.answers_writeStatus bits :
      Port.Answers channel _ _ _ _) d rfl
    have hkeeps : ~~~(bits &&& clearableBits) &&& Status.halted = Status.halted := by
      have hnone : clearableBits &&& Status.halted = 0 := by decide
      apply Status.not_and_of_disjoint
      rw [UInt32.and_assoc, hnone, UInt32.and_zero]
    rw [hport]
    exact ⟨hagrees, congrArg not (Status.isHalted_clear _ hkeeps), rfl⟩

/-- The accesses of a channel bring none up. -/
theorem subsides_of_serves (hserves : access.Serves channel) :
    d.Subsides (d.answer access).2 := by
  cases hserves with
  | awaits hawaits =>
    obtain ⟨hagrees, hrunning, -⟩ := agreesBut_of_awaits d hawaits
    exact hagrees.subsides fun hdown => hrunning.trans hdown
  | window access => cases channel <;> exact subsides_of_ports fun _ => rfl
  | address address =>
    obtain ⟨-, -, hport, hagrees⟩ := (Port.answers_writeAddress address :
      Port.Answers channel _ _ _ _) d rfl
    refine hagrees.subsides fun hdown => ?_
    rw [hport]
    exact hdown
  | length length =>
    cases channel with
    | mm2s => exact (subsides_withLength d .mm2s length).trans (subsides_sendBurst _ _)
    | s2mm => exact (subsides_withLength d .s2mm length).trans (subsides_arm _ _)

/-- The accesses of the receiving channel leave the port of the other alone. -/
theorem port_of_serves (hserves : access.Serves .s2mm) :
    (d.answer access).2.port .mm2s = d.port .mm2s := by
  cases hserves with
  | awaits hawaits => exact (agreesBut_of_awaits d hawaits).1.port .mm2s (by decide)
  | window access => rfl
  | address address =>
    obtain ⟨-, -, -, hagrees⟩ := (Port.answers_writeAddress address :
      Port.Answers .s2mm _ _ _ _) d rfl
    exact hagrees.port .mm2s (by decide)
  | length length =>
    exact (port_arm _ _).trans ((agreesBut_withLength d .s2mm length).port .mm2s (by decide))

end Accesses

section Words

variable (d : Loopback)

theorem answer_write (offset : Nat) (value : UInt32) :
    (d.answer (.writeRegister offset value)).2 = d.write offset value := rfl

/-- A halt or a reset of a channel takes it down and leaves the port of the other alone. -/
theorem write_lowering {word : UInt32} (hword : word = Control.halt ∨ word = Control.reset)
    (channel : Channel) :
    (d.write channel.control word).running channel = false ∧
      ((d.write channel.control word).port .mm2s).address = (d.port .mm2s).address ∧
      ∀ other, other ≠ channel → (d.write channel.control word).port other = d.port other := by
  obtain rfl | rfl := hword
  · obtain ⟨hport, hagrees⟩ := write_halt (d := d) channel
    refine ⟨(running_of_port hport).trans (Port.running_halt _), ?_, hagrees.port⟩
    cases channel with
    | mm2s => rw [hport]; rfl
    | s2mm => rw [hagrees.port .mm2s (by decide)]
  · have hdown (p : Port) : p.powerOn.running = false :=
      (by decide : (!Status.isHalted Status.halted) = false)
    cases channel with
    | mm2s =>
      obtain ⟨hport, hagrees⟩ := write_reset_mm2s (d := d)
      refine ⟨(running_of_port hport).trans (hdown _), ?_, hagrees.port⟩
      rw [hport]
      rfl
    | s2mm =>
      obtain ⟨hreceiving, hsending, -⟩ := write_reset_s2mm (d := d)
      refine ⟨(running_of_port hreceiving).trans (hdown _), ?_, fun other hother => ?_⟩
      · rw [hsending]
      · cases other with
        | mm2s => exact hsending
        | s2mm => exact absurd rfl hother

/-- A word that runs the sending channel brings it up and changes nothing else of the ports. -/
theorem write_run_mm2s (mode : SyncMode) :
    (d.write Channel.mm2s.control mode.runWord).running .mm2s = true ∧
      ((d.write Channel.mm2s.control mode.runWord).port .mm2s).address =
        (d.port .mm2s).address ∧
      (d.write Channel.mm2s.control mode.runWord).port .s2mm = d.port .s2mm := by
  have hport := port_withRun d .mm2s mode.runWord
  rw [write_runWord_mm2s]
  refine ⟨(running_of_port hport).trans ?_, ?_, ?_⟩
  · simp only [Port.running, Port.run, Status.isHalted_clear_halted, Bool.not_false]
  · rw [hport]
    rfl
  · exact (agreesBut_withRun d .mm2s mode.runWord).port .s2mm (by decide)

theorem port_write_run_s2mm (mode : SyncMode) :
    (d.write Channel.s2mm.control mode.runWord).port .mm2s = d.port .mm2s := by
  rw [write_runWord_s2mm, port_completeChunk]
  exact (agreesBut_withRun d .s2mm mode.runWord).port .mm2s (by decide)

end Words

section Tags

variable {d : Loopback}

theorem running_write_address (d : Loopback) (address : UInt32) :
    (d.write Channel.mm2s.address address).running .mm2s = d.running .mm2s ∧
      ((d.write Channel.mm2s.address address).port .mm2s).address = address := by
  obtain ⟨-, -, hport, -⟩ := (Port.answers_writeAddress address :
    Port.Answers .mm2s _ _ _ _) d rfl
  have hport' : (d.write Channel.mm2s.address address).port .mm2s =
      { d.port .mm2s with address } := hport
  refine ⟨running_of_port hport', ?_⟩
  rw [hport']

/-- A word sent from the start of the source window keeps the sending channel up. -/
theorem running_write_length (haddress : (d.port .mm2s).address = sourceBase)
    (hwindow : 0 < d.windowSize .mm2s) :
    (d.write Channel.mm2s.length (UInt32.ofNat wordBytes)).running .mm2s = d.running .mm2s ∧
      ((d.write Channel.mm2s.length (UInt32.ofNat wordBytes)).port .mm2s).address =
        (d.port .mm2s).address := by
  have hport := port_withLength d .mm2s (UInt32.ofNat wordBytes)
  have hwrite : d.write Channel.mm2s.length (UInt32.ofNat wordBytes) =
      (d.withLength .mm2s (UInt32.ofNat wordBytes)).sendBurst wordBytes := rfl
  have hsource : (d.withLength .mm2s (UInt32.ofNat wordBytes)).source = d.source := rfl
  rw [hwrite, ← hport]
  rw [← hport] at haddress
  have hrunning : d.running .mm2s =
      (d.withLength .mm2s (UInt32.ofNat wordBytes)).running .mm2s :=
    (running_of_port hport).symm
  rw [hrunning]
  generalize d.withLength .mm2s (UInt32.ofNat wordBytes) = d' at *
  have hposition : position? (d'.register Channel.mm2s.address) sourceBase = some 0 := by
    rw [show d'.register Channel.mm2s.address = sourceBase from haddress]
    decide
  have hrange : ¬d'.source.size < 0 + wordBytes / wordBytes := by
    rw [hsource]
    exact Nat.not_lt.2 hwindow
  simp only [sendBurst, hposition, hrange, if_false]
  split
  · exact ⟨rfl, rfl⟩
  · generalize (d'.source.words.extract 0 (0 + wordBytes / wordBytes)).toList = burst
    have hsent : (((d'.takeBurst burst).finish .mm2s).completeChunk).port .mm2s =
        (d'.port .mm2s).finish := by
      rw [port_completeChunk, port_finish, ports_takeBurst]
    refine ⟨(running_of_port hsent).trans (Port.running_finish _), ?_⟩
    rw [hsent]
    rfl

end Tags

end Loopback

end DmaLink
