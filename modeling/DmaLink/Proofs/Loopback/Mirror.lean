import DmaLink.Proofs.Loopback.Signals

namespace DmaLink.Loopback

variable {α β : Type} {lines : Option Interrupt.Lines} {d : Loopback}

/-- A program on a device without interrupts and one on the same device with them come to the same
    result, and to the same device but for the interrupts. -/
def Mirrors (lines : Option Interrupt.Lines) (p q : Proc Link.io α) (d : Loopback)
    (post : α → Loopback → Prop) : Prop :=
  (d.polled lines).run p = ((d.run q).1, (d.run q).2.polled lines) ∧ post (d.run q).1 (d.run q).2

theorem Mirrors.mono {p q : Proc Link.io α} {post post' : α → Loopback → Prop}
    (hmirrors : Mirrors lines p q d post) (himp : ∀ result d', post result d' → post' result d') :
    Mirrors lines p q d post' :=
  ⟨hmirrors.1, himp _ _ hmirrors.2⟩

/-- Mirrored programs that go on alike are mirrored. -/
theorem Mirrors.bind {p q : Proc Link.io α} {f f' : α → Proc Link.io β}
    {post : β → Loopback → Prop}
    (hmirrors : Mirrors lines p q d fun result d' => Mirrors lines (f result) (f' result) d' post) :
    Mirrors lines (p >>= f) (q >>= f') d post := by
  obtain ⟨hrun, hrest, hpost⟩ := hmirrors
  rw [Mirrors, run_bind, run_bind, hrun]
  exact ⟨hrest, hpost⟩

theorem mirrors_ret {result : α} {post : α → Loopback → Prop} (hpost : post result d) :
    Mirrors lines (.ret result) (.ret result) d post := ⟨rfl, hpost⟩

theorem mirrors_write {offset : Nat} {value value' : UInt32}
    (hvalue : Control.polledAt offset value = value') {post : Unit → Loopback → Prop}
    (hpost : post () (d.write offset value)) :
    Mirrors lines (Proc.writeRegister offset value') (Proc.writeRegister offset value) d post := by
  refine ⟨?_, hpost⟩
  rw [← hvalue]
  exact congrArg (Prod.mk ()) (write_polled lines d offset value).symm

theorem mirrors_readStatus (channel : Channel) {post : UInt32 → Loopback → Prop}
    (hpost : post (d.status channel) d) :
    Mirrors lines (Proc.readRegister channel.status) (Proc.readRegister channel.status) d post := by
  refine ⟨?_, hpost⟩
  exact congrArg (Prod.mk · (d.polled lines)) (status_polled lines d channel)

/-- A program over the windows sees and leaves nothing else. -/
theorem mirrors_onWindow (channel : Channel) (p : Proc Window.io α) (d : Loopback) :
    Mirrors lines (Proc.onWindow channel p) (Proc.onWindow channel p) d fun _ d' =>
      ∃ source destination, d' = { d with source, destination } := by
  induction p generalizing d with
  | ret result => exact mirrors_ret ⟨d.source, d.destination, rfl⟩
  | act access next ih =>
    obtain ⟨hreply, source, destination, hstate⟩ :
        (d.polled lines).accessWindow channel access =
          ((d.accessWindow channel access).1, (d.accessWindow channel access).2.polled lines) ∧
        ∃ source destination, (d.accessWindow channel access).2 =
          { d with source, destination } := by
      cases channel <;> exact ⟨rfl, _, _, rfl⟩
    obtain ⟨hrun, source', destination', hrest⟩ := ih (d.accessWindow channel access).1
      (d.accessWindow channel access).2
    have hstep (d : Loopback) : d.run (Proc.onWindow channel (.act access next)) =
        (d.accessWindow channel access).2.run (Proc.onWindow channel
          (next (d.accessWindow channel access).1)) := rfl
    rw [Mirrors, hstep, hstep, hreply]
    refine ⟨hrun, source', destination', ?_⟩
    rw [hrest, hstate]

section Waits

variable {channel : Channel} {limit : Nat}

/-- Looking at the status, a wait acknowledges a finished burst and times out otherwise. -/
theorem run_poll (d : Loopback) (channel : Channel) (limit : Nat) :
    d.run (Completion.poll channel limit) =
      if d.done channel then (.ok (), (d.run (Completion.acknowledge channel)).2)
      else (.error (.channelTimeout channel limit), d) := by
  have hlook : d.run (Completion.poll channel limit) = d.run (if d.done channel then (do
      Completion.acknowledge channel
      return .ok ()) else return .error (.channelTimeout channel limit)) := rfl
  rw [hlook]
  split <;> rfl

/-- Taking an interrupt changes the lines alone. -/
theorem polled_takeInterrupt (d : Loopback) (channel : Channel) (lines : Option Interrupt.Lines) :
    (d.answer (.takeInterrupt channel)).2.polled lines = d.polled lines := by
  simp only [answer]
  split <;> rfl

theorem polled_rearm (d : Loopback) (channel : Channel) (lines : Option Interrupt.Lines) :
    (d.answer (.rearm channel)).2.polled lines = d.polled lines := by
  simp only [answer]
  split <;> rfl

theorem run_acknowledge (d : Loopback) (channel : Channel) :
    d.run (Completion.acknowledge channel) =
      ((), (d.write channel.status Status.idle).write channel.status Status.completionInterrupt) :=
  rfl

/-- An acknowledgement is the same with and without interrupts. -/
theorem polled_acknowledge (d : Loopback) (channel : Channel) (lines : Option Interrupt.Lines) :
    (d.run (Completion.acknowledge channel)).2.polled lines =
      ((d.polled lines).run (Completion.acknowledge channel)).2 := by
  rw [run_acknowledge, run_acknowledge, write_polled, write_polled, Control.polledAt_status,
    Control.polledAt_status]

/-- An acknowledgement clears the two bits of a burst and changes nothing else. -/
theorem acknowledge_spec (d : Loopback) (channel : Channel) :
    (d.run (Completion.acknowledge channel)).2.port channel = (d.port channel).acknowledged ∧
      AgreesBut channel d (d.run (Completion.acknowledge channel)).2 := by
  obtain ⟨-, -, hidle, hagrees⟩ := Port.answers_writeStatus Status.idle d rfl
  obtain ⟨-, -, hinterrupt, hagrees'⟩ := Port.answers_writeStatus Status.completionInterrupt
    (d.write channel.status Status.idle) rfl
  refine ⟨hinterrupt.trans ?_, hagrees.trans hagrees'⟩
  exact congrArg (Port.clear · (Status.completionInterrupt &&& clearableBits)) hidle

/-- What a wait for the interrupt does with the count that it took. -/
def afterTaking (channel : Channel) :
    Except LinkError UInt32 → Proc Link.io (Except LinkError Unit)
  | .error cause => return .error cause
  | .ok _ => do
    Completion.acknowledge channel
    Proc.perform (I := Link.io) (.rearm channel)

/-- What a wait for the interrupt does once the interrupt can be read. -/
def takeSignal (channel : Channel) : Proc Link.io (Except LinkError Unit) :=
  Proc.perform (I := Link.io) (.takeInterrupt channel) >>= afterTaking channel

/-- Waiting for the interrupt, a wait takes a signal and times out without one. -/
theorem run_interrupt (d : Loopback) (channel : Channel) (limit : Nat) :
    d.run (Completion.interrupt channel limit) =
      if d.signalled channel then d.run (takeSignal channel)
      else (.error (.channelTimeout channel limit), d) := by
  have hlook : d.run (Proc.perform (I := Link.io) (.awaitInterrupt channel limit)) =
      (.ok (d.signalled channel), d) := rfl
  refine (run_bind d (Proc.perform (I := Link.io) (.awaitInterrupt channel limit)) _).trans ?_
  rw [hlook]
  cases d.signalled channel <;> rfl

/-- A channel is signalled exactly if counts are left on its line. -/
theorem signalled_eq {count : Nat} {returned : List UInt8}
    (hline : (d.port channel).line = some ⟨Interrupt.counts count, returned, .listening⟩) :
    d.signalled channel = decide (0 < count) := by
  obtain ⟨lines', hlines, hget⟩ := exists_line_of_port hline
  simp only [signalled, hlines, hget, Option.map_some, Option.getD_some]
  cases count <;> rfl

/-- Taking a count acknowledges the burst that is shown, whichever burst the count is of. -/
theorem run_takeSignal {count : Nat} {returned : List UInt8}
    (hline : (d.port channel).line = some ⟨Interrupt.counts (count + 1), returned, .listening⟩)
    (lines : Option Interrupt.Lines) :
    ∃ d' returned', d.run (takeSignal channel) = (.ok (), d') ∧
      d'.polled lines = ((d.polled lines).run (Completion.acknowledge channel)).2 ∧
      d'.port channel = { (d.port channel).acknowledged with
        line := some ⟨Interrupt.counts count, returned', .listening⟩ } ∧
      AgreesBut channel d d' := by
  have htake : (⟨Interrupt.counts (count + 1), returned, .listening⟩ : Interrupt.Line).take =
      (.ok 1, ⟨Interrupt.counts count, returned, .listening⟩) := rfl
  have hrearm : (⟨Interrupt.counts count, returned, .listening⟩ : Interrupt.Line).rearm =
      (.ok (), ⟨Interrupt.counts count, returned ++ Interrupt.rearmBytes, .listening⟩) := rfl
  obtain ⟨-, hcount, hport, hagrees⟩ := Port.answers_takeInterrupt hline htake d rfl
  have htaken := polled_takeInterrupt d channel lines
  generalize hfirst : d.answer (.takeInterrupt channel) = taken at hcount hport hagrees htaken
  obtain ⟨reply, taken⟩ := taken
  obtain rfl : reply = (.ok 1 : Except LinkError UInt32) := hcount
  obtain ⟨hport', hagrees'⟩ := acknowledge_spec taken channel
  have hcleared := polled_acknowledge taken channel lines
  have hrun : d.run (takeSignal channel) =
      (taken.run (Completion.acknowledge channel)).2.answer (.rearm channel) := by
    have hstart : d.run (takeSignal channel) =
        (d.answer (.takeInterrupt channel)).2.run (afterTaking channel
          (d.answer (.takeInterrupt channel)).1) := rfl
    rw [hstart, hfirst]
    rfl
  generalize (taken.run (Completion.acknowledge channel)).2 = cleared at *
  have hline' : (cleared.port channel).line =
      some ⟨Interrupt.counts count, returned, .listening⟩ := by
    rw [hport', hport]
    rfl
  obtain ⟨-, hreply, hport'', hagrees''⟩ := Port.answers_rearm hline' hrearm cleared rfl
  refine ⟨_, returned ++ Interrupt.rearmBytes, hrun.trans (Prod.ext hreply rfl), ?_, ?_, ?_⟩
  · rw [polled_rearm, hcleared]
    exact congrArg (fun d : Loopback => (d.run (Completion.acknowledge channel)).2) htaken
  · rw [hport'', hport', hport]
    rfl
  · exact (hagrees.trans hagrees').trans hagrees''

theorem done_polled (d : Loopback) (channel : Channel) :
    (d.polled lines).done channel = d.done channel := by
  rw [done, done, status_polled]

/-- A burst that is acknowledged with its count taken leaves as many counts over as before. -/
theorem Port.Owes.acknowledged {p : Port} {late : Nat} (howes : p.Owes late)
    (returned : List UInt8) :
    { p.acknowledged with
      line := some ⟨Interrupt.counts late, returned, .listening⟩ }.Owes late := by
  refine ⟨fun hrunning => ?_, returned, ?_⟩
  · have hsame : p.acknowledged.running = p.running := running_acknowledged p
    exact howes.enabled (hsame.symm.trans hrunning)
  · simp only [isDone_acknowledged, Bool.toNat_false, Nat.add_zero]

/-- A burst that is shown as finished is acknowledged in either way, and one count is taken. -/
theorem mirrors_await_of_done {late : Nat} (howes : (d.port channel).Owes late)
    (hdone : d.done channel = true) (limit : Nat) :
    Mirrors lines (Completion.await .poll channel limit) (Completion.await .interrupt channel limit)
      d fun result d' => result = .ok () ∧ (d'.port channel).Owes late ∧
        d'.done channel = false ∧ AgreesBut channel d d' := by
  obtain ⟨returned, hline⟩ := howes.counts
  have hdone' : Status.isDone (d.port channel).status = true := hdone
  rw [hdone', Bool.toNat_true] at hline
  have hsignalled : d.signalled channel = true := by
    rw [signalled_eq hline]
    exact decide_eq_true (Nat.succ_pos late)
  obtain ⟨d', returned', hrun, hpolled, hport, hagrees⟩ := run_takeSignal hline lines
  have hinterrupt : d.run (Completion.interrupt channel limit) = (.ok (), d') := by
    rw [run_interrupt, hsignalled, if_pos rfl, hrun]
  have hpoll :
      (d.polled lines).run (Completion.poll channel limit) = (.ok (), d'.polled lines) := by
    rw [run_poll, done_polled, hdone, if_pos rfl, hpolled]
  simp only [Mirrors, Completion.await, hinterrupt, hpoll]
  refine ⟨trivial, trivial, ?_, ?_, hagrees⟩
  · rw [hport]
    exact howes.acknowledged returned'
  · refine (congrArg (fun p : Port => Status.isDone p.status) hport).trans ?_
    exact Port.isDone_acknowledged _

/-- A wait for a burst that is not finished times out in either way, if no count is left over. -/
theorem mirrors_await_of_not_done (howes : (d.port channel).Owes 0)
    (hdone : d.done channel = false) (limit : Nat) :
    Mirrors lines (Completion.await .poll channel limit) (Completion.await .interrupt channel limit)
      d fun result d' => result = .error (.channelTimeout channel limit) ∧ d' = d := by
  obtain ⟨returned, hline⟩ := howes.counts
  have hdone' : Status.isDone (d.port channel).status = false := hdone
  rw [hdone', Bool.toNat_false, Nat.add_zero] at hline
  have hsignalled : d.signalled channel = false := by
    rw [signalled_eq hline]
    rfl
  have hinterrupt : d.run (Completion.interrupt channel limit) =
      (.error (.channelTimeout channel limit), d) := by
    rw [run_interrupt, hsignalled, if_neg Bool.false_ne_true]
  have hpoll : (d.polled lines).run (Completion.poll channel limit) =
      (.error (.channelTimeout channel limit), d.polled lines) := by
    rw [run_poll, done_polled, hdone, if_neg Bool.false_ne_true]
  simp only [Mirrors, Completion.await, hinterrupt, hpoll]
  exact ⟨trivial, trivial, trivial⟩

/-- A count that is left over ends a wait for the interrupt, where a look at the status finds
    nothing. -/
theorem await_of_late {late : Nat} (howes : (d.port channel).Owes (late + 1))
    (hdone : d.done channel = false) (limit : Nat) :
    (d.polled lines).run (Completion.await .poll channel limit) =
        (.error (.channelTimeout channel limit), d.polled lines) ∧
      (d.run (Completion.await .interrupt channel limit)).1 = .ok () := by
  obtain ⟨returned, hline⟩ := howes.counts
  have hdone' : Status.isDone (d.port channel).status = false := hdone
  rw [hdone', Bool.toNat_false, Nat.add_zero] at hline
  have hsignalled : d.signalled channel = true := by
    rw [signalled_eq hline]
    exact decide_eq_true (Nat.succ_pos late)
  obtain ⟨d', returned', hrun, -⟩ := run_takeSignal hline lines
  refine ⟨?_, ?_⟩
  · rw [Completion.await, run_poll, done_polled, hdone, if_neg Bool.false_ne_true]
  · rw [Completion.await, run_interrupt, hsignalled, if_pos rfl, hrun]

end Waits

/-- A device between two operations, with `late` counts left over. -/
structure Between (d : Loopback) (late : Nat) : Prop where
  owing : d.Owing late
  fresh : d.Fresh
  quiet : d.done .mm2s = false

namespace Between

variable {late : Nat}

/-- What is in the windows does not matter between operations. -/
theorem withWindows (hbetween : d.Between late) (source destination : Window) :
    ({ d with source, destination } : Loopback).Between late :=
  ⟨hbetween.owing.of_ports fun _ => rfl, hbetween.fresh, hbetween.quiet⟩

/-- An access that leaves both counts and both status bits of a channel alone. -/
theorem of_agreesBut {d' : Loopback} {channel : Channel} (hbetween : d.Between late)
    (hagrees : AgreesBut channel d d')
    (howes : ∀ {late}, (d.port channel).Owes late → (d'.port channel).Owes late)
    (hdone : d'.done channel = d.done channel) : d'.Between late := by
  obtain ⟨⟨hsending, hreceiving⟩, hfresh, hquiet⟩ := hbetween
  cases channel with
  | mm2s =>
    exact ⟨Owing.of_sending ⟨hsending, hreceiving⟩ hagrees (howes hsending),
      hagrees.fresh hfresh, hdone.trans hquiet⟩
  | s2mm =>
    refine ⟨Owing.of_receiving ⟨hsending, hreceiving⟩ hagrees (howes hreceiving), ?_, ?_⟩
    · intro hshown
      exact hagrees.armed.trans (hfresh (hdone.symm.trans hshown))
    · rw [done_eq_of_port (hagrees.port .mm2s (by decide))]
      exact hquiet

theorem writeAddress (hbetween : d.Between late) (channel : Channel) (address : UInt32) :
    (d.write channel.address address).Between late := by
  obtain ⟨-, -, hport, hagrees⟩ :=
    (Port.answers_writeAddress address : Port.Answers channel _ _ _ _) d rfl
  have hport' : (d.write channel.address address).port channel =
      { d.port channel with address } := hport
  refine hbetween.of_agreesBut hagrees (fun howes => ?_) ?_
  · rw [hport']
    exact howes.withAddress address
  · exact congrArg (fun p : Port => Status.isDone p.status) hport'

theorem completeChunk (hbetween : d.Between late) : d.completeChunk.Between late := by
  refine ⟨hbetween.owing.completeChunk_of_fresh hbetween.fresh, hbetween.fresh.completeChunk, ?_⟩
  rw [done_eq_of_port (port_completeChunk d)]
  exact hbetween.quiet

theorem setStalled (hbetween : d.Between late) (stalled : Bool) :
    (d.setStalled stalled).Between late := by
  have hset : ({ d with stalled } : Loopback).Between late :=
    ⟨hbetween.owing.of_ports fun _ => rfl, hbetween.fresh, hbetween.quiet⟩
  cases stalled with
  | true => exact hset
  | false => exact hset.completeChunk

theorem withRun (hbetween : d.Between late) (channel : Channel) :
    (d.withRun channel SyncMode.interrupt.runWord).Between late := by
  refine hbetween.of_agreesBut (agreesBut_withRun d channel _) (fun howes => ?_)
    (port_withRun_isDone channel _)
  rw [port_withRun]
  exact howes.run

theorem writeRun (hbetween : d.Between late) (channel : Channel) :
    (d.write channel.control SyncMode.interrupt.runWord).Between late := by
  cases channel with
  | mm2s =>
    rw [write_runWord_mm2s]
    exact hbetween.withRun .mm2s
  | s2mm =>
    rw [write_runWord_s2mm]
    exact (hbetween.withRun .s2mm).completeChunk

theorem writeHalt (hbetween : d.Between late) (channel : Channel) :
    (d.write channel.control Control.halt).Between late := by
  obtain ⟨hport, hagrees⟩ := write_halt (d := d) channel
  refine hbetween.of_agreesBut hagrees (fun howes => ?_) ?_
  · rw [hport]
    exact howes.halt
  · refine (congrArg (fun p : Port => Status.isDone p.status) hport).trans ?_
    exact Status.isDone_or (by decide)

/-- A reset leaves the count of a burst over that has not been acknowledged. -/
theorem writeReset (hbetween : d.Between late) :
    ((d.write Channel.s2mm.control Control.reset).write Channel.mm2s.control
      Control.reset).Between (late + (d.done .s2mm).toNat) := by
  have hclear : Status.isDone Status.halted = false := by decide
  have hquiet : Status.isDone (d.port .mm2s).status = false := hbetween.quiet
  obtain ⟨hreceiving, hsending, harmed⟩ := write_reset_s2mm (d := d)
  obtain ⟨hport, hagrees⟩ := write_reset_mm2s (d := d.write Channel.s2mm.control Control.reset)
  refine ⟨⟨?_, ?_⟩, ?_, ?_⟩
  · have howes := hbetween.owing.sending.powerOn
    rw [hquiet] at howes
    rw [hport, hsending]
    exact howes
  · rw [hagrees.port .s2mm (by decide), hreceiving]
    exact hbetween.owing.receiving.powerOn
  · exact fun _ => hagrees.armed.trans harmed
  · exact (congrArg (fun p : Port => Status.isDone p.status) hport).trans hclear

/-- A launch on the sending channel, before it has been waited for. -/
theorem writeLength (hbetween : d.Between late) (length : UInt32) :
    (d.write Channel.mm2s.length length).Owing late ∧
      (d.write Channel.mm2s.length length).Fresh := by
  have hagrees : AgreesBut .mm2s d (({ d with
      writes := d.writes.push ⟨Channel.mm2s.length, length⟩ } : Loopback).setRegister
        Channel.mm2s.length length) :=
    (agreesBut_log .mm2s d _).trans (agreesBut_setRegister _ .mm2s (by simp) length)
  have hport := port_setRegister_length
    { d with writes := d.writes.push ⟨Channel.mm2s.length, length⟩ } .mm2s length
  have hset := hbetween.of_agreesBut hagrees (fun howes => hport.symm ▸ howes)
    (congrArg (fun p : Port => Status.isDone p.status) hport)
  exact hset.owing.sendBurst hset.fresh hset.quiet length.toNat

end Between

/-- The wait for a burst that was sent is mirrored. -/
theorem mirrors_await_mm2s {late : Nat} (howing : d.Owing late) (hfresh : d.Fresh) (limit : Nat) :
    Mirrors lines (Completion.await .poll .mm2s limit) (Completion.await .interrupt .mm2s limit) d
      fun _ d' => d'.Between late := by
  cases hdone : d.done .mm2s with
  | true =>
    apply (mirrors_await_of_done howing.sending hdone limit).mono
    rintro _ d' ⟨-, howes, hquiet, hagrees⟩
    exact ⟨howing.of_sending hagrees howes, hagrees.fresh hfresh, hquiet⟩
  | false =>
    apply (mirrors_await_of_not_done howing.sending hdone limit).mono
    rintro _ d' ⟨-, rfl⟩
    exact ⟨howing, hfresh, hdone⟩

end DmaLink.Loopback
