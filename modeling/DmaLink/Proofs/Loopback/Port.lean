import DmaLink.Loopback

namespace DmaLink

namespace Status

theorem or_and_distrib (a b c : UInt32) : (a ||| b) &&& c = a &&& c ||| b &&& c :=
  UInt32.toBitVec_inj.1 BitVec.and_or_distrib_right

theorem or_and_absorb (a b : UInt32) : (a ||| b) &&& b = b := by
  apply UInt32.toBitVec_inj.1
  apply BitVec.eq_of_getElem_eq
  intro i hi
  simpa using Or.inr

theorem isHalted_or_transferDone (status : UInt32) :
    isHalted (status ||| transferDone) = isHalted status := by
  have hnone : transferDone &&& halted = 0 := by decide
  rw [isHalted, or_and_distrib, hnone, UInt32.or_zero, isHalted]

theorem isDone_or_transferDone (status : UInt32) : isDone (status ||| transferDone) = true := by
  rw [isDone, or_and_absorb, beq_self_eq_true]

/-- A flag is shown once its bits have been set. -/
theorem shows_or (status : UInt32) {bits flag : UInt32} (hflag : flag ≠ running)
    (hbits : bits &&& flag = flag) : shows (status ||| bits) flag = true := by
  have hset : (status ||| bits) &&& flag ≠ 0 := by
    intro hnone
    have habsorb := or_and_absorb (status &&& flag) flag
    rw [or_and_distrib, hbits] at hnone
    rw [hnone, UInt32.zero_and] at habsorb
    exact hflag habsorb.symm
  rw [shows, if_neg hflag]
  exact bne_iff_ne.2 hset

theorem isHalted_clear (status : UInt32) {bits : UInt32} (hbits : ~~~bits &&& halted = halted) :
    isHalted (status &&& ~~~bits) = isHalted status := by
  rw [isHalted, UInt32.and_assoc, hbits, isHalted]

theorem isHalted_clear_halted (status : UInt32) :
    isHalted (status &&& ~~~halted) = false := by
  have hnone : ~~~halted &&& halted = 0 := by decide
  rw [isHalted, UInt32.and_assoc, hnone, UInt32.and_zero]
  rfl

theorem isDone_of_isDone_and {status mask : UInt32} (hdone : isDone (status &&& mask) = true) :
    isDone status = true := by
  simp only [isDone, beq_iff_eq] at hdone ⊢
  rw [← hdone, UInt32.and_assoc, ← UInt32.and_assoc status, UInt32.and_self]

/-- A burst is no longer done once one of its bits has been cleared. -/
theorem isDone_clear_eq_false (status : UInt32) {bits : UInt32} (hbits : isDone (~~~bits) = false) :
    isDone (status &&& ~~~bits) = false := by
  rw [Bool.eq_false_iff] at hbits ⊢
  intro hdone
  rw [UInt32.and_comm] at hdone
  exact hbits (isDone_of_isDone_and hdone)

end Status

namespace Loopback

/-- A register reads as it was set, and every other as before. -/
@[simp]
theorem register_setRegister (d : Loopback) {offset : Nat} (hoffset : offset / 4 < 23)
    (value : UInt32) (other : Nat) :
    (d.setRegister offset value).register other =
      if other / 4 = offset / 4 then value else d.register other := by
  simp only [register, setRegister, Vector.getElem?_setIfInBounds, hoffset, if_true]
  by_cases h : other / 4 = offset / 4
  · simp [h]
  · rw [if_neg h, if_neg (Ne.symm h)]

/-- What the transfers of one channel depend on. -/
structure Port where
  control : UInt32
  status : UInt32
  address : UInt32
  line : Option Interrupt.Line

/-- The port of a channel. -/
def port (d : Loopback) (channel : Channel) : Port where
  control := d.register channel.control
  status := d.status channel
  address := d.register channel.address
  line := d.lines.map fun lines => lines.get channel

namespace Port

def running (p : Port) : Bool := !Status.isHalted p.status

def clear (p : Port) (bits : UInt32) : Port := { p with status := p.status &&& ~~~bits }

/-- The port after a control word that runs the channel. -/
def run (p : Port) (word : UInt32) : Port :=
  { p with control := word, status := p.status &&& ~~~Status.halted }

/-- The port after a finished burst. -/
def finish (p : Port) : Port :=
  { p with
    status := p.status ||| Status.transferDone
    line := if p.control &&& interruptEnable != 0 then p.line.map .raise else p.line }

/-- The port after a transfer with an invalid address or range. -/
def fail (p : Port) : Port :=
  { p with
    status := p.status ||| (Status.decodeError ||| Status.errorInterrupt ||| Status.halted) }

end Port

theorem running_of_port {d : Loopback} {channel : Channel} {p : Port}
    (hport : d.port channel = p) : d.running channel = p.running :=
  hport ▸ rfl

/-- Two states of a device that differ at most in the port of a channel and the logged writes. -/
structure AgreesBut (channel : Channel) (d d' : Loopback) : Prop where
  port : ∀ other, other ≠ channel → d'.port other = d.port other
  source : d'.source = d.source
  destination : d'.destination = d.destination
  stream : d'.stream = d.stream
  layerComplete : d'.layerComplete = d.layerComplete
  armed : d'.armed = d.armed
  stalled : d'.stalled = d.stalled
  tags : d'.tags = d.tags
  received : d'.received = d.received

theorem agreesBut_log (channel : Channel) (d : Loopback) (writes : Array RegisterWrite) :
    AgreesBut channel d { d with writes } :=
  ⟨fun _ _ => rfl, rfl, rfl, rfl, rfl, rfl, rfl, rfl, rfl⟩

theorem AgreesBut.rfl {channel : Channel} {d : Loopback} : AgreesBut channel d d :=
  agreesBut_log channel d d.writes

theorem AgreesBut.trans {channel : Channel} {d d' d'' : Loopback} (h : AgreesBut channel d d')
    (h' : AgreesBut channel d' d'') : AgreesBut channel d d'' where
  port other hother := (h'.port other hother).trans (h.port other hother)
  source := h'.source.trans h.source
  destination := h'.destination.trans h.destination
  stream := h'.stream.trans h.stream
  layerComplete := h'.layerComplete.trans h.layerComplete
  armed := h'.armed.trans h.armed
  stalled := h'.stalled.trans h.stalled
  tags := h'.tags.trans h.tags
  received := h'.received.trans h.received

theorem port_clearStatusBits (d : Loopback) (channel : Channel) (bits : UInt32) :
    (d.clearStatusBits channel bits).port channel = (d.port channel).clear bits := by
  cases channel <;> simp [port, Port.clear, clearStatusBits, status, Channel.status,
    Channel.control, Channel.address] <;> rfl

theorem port_setRegister_address (d : Loopback) (channel : Channel) (address : UInt32) :
    (d.setRegister channel.address address).port channel = { d.port channel with address } := by
  cases channel <;> simp [port, status, Channel.status, Channel.control, Channel.address] <;> rfl

theorem port_setRegister_control (d : Loopback) (channel : Channel) (control : UInt32) :
    (d.setRegister channel.control control).port channel = { d.port channel with control } := by
  cases channel <;> simp [port, status, Channel.status, Channel.control, Channel.address] <;> rfl

theorem port_setRegister_length (d : Loopback) (channel : Channel) (length : UInt32) :
    (d.setRegister channel.length length).port channel = d.port channel := by
  cases channel <;> simp [port, status, Channel.status, Channel.control, Channel.address,
    Channel.length] <;> rfl

theorem agreesBut_setRegister (d : Loopback) (channel : Channel) {offset : Nat}
    (hoffset : offset ∈ [channel.control, channel.status, channel.address, channel.length])
    (value : UInt32) : AgreesBut channel d (d.setRegister offset value) := by
  refine ⟨?_, rfl, rfl, rfl, rfl, rfl, rfl, rfl, rfl⟩
  intro other hother
  simp only [List.mem_cons, List.not_mem_nil, or_false] at hoffset
  obtain rfl | rfl | rfl | rfl := hoffset <;> cases channel <;> cases other <;>
    first
    | exact absurd rfl hother
    | (simp [port, status, Channel.status, Channel.control, Channel.address, Channel.length]; rfl)

theorem port_setLine (d : Loopback) (lines : Interrupt.Lines)
    (channel : Channel) (line : Interrupt.Line) :
    ({ d with lines := some (lines.set channel line) } : Loopback).port channel =
      { d.port channel with line := some line } := by
  cases channel <;> simp [port, status, register, Interrupt.Lines.set, Interrupt.Lines.get]

theorem agreesBut_setLine (d : Loopback) {lines : Interrupt.Lines} (hlines : d.lines = some lines)
    (channel : Channel) (line : Interrupt.Line) :
    AgreesBut channel d { d with lines := some (lines.set channel line) } := by
  refine ⟨?_, rfl, rfl, rfl, rfl, rfl, rfl, rfl, rfl⟩
  intro other hother
  cases channel <;> cases other <;>
    first
    | exact absurd rfl hother
    | simp [port, status, register, Interrupt.Lines.set, Interrupt.Lines.get, hlines]

/-- The state after a control word that runs a channel, before anything is completed. -/
def withRun (d : Loopback) (channel : Channel) (word : UInt32) : Loopback :=
  (({ d with writes := d.writes.push ⟨channel.control, word⟩ } : Loopback).setRegister
    channel.control word).clearStatusBits channel Status.halted

theorem port_withRun (d : Loopback) (channel : Channel) (word : UInt32) :
    (d.withRun channel word).port channel = (d.port channel).run word := by
  rw [withRun, port_clearStatusBits, port_setRegister_control]
  rfl

theorem agreesBut_withRun (d : Loopback) (channel : Channel) (word : UInt32) :
    AgreesBut channel d (d.withRun channel word) :=
  ((agreesBut_log channel d _).trans (agreesBut_setRegister _ channel (by simp) word)).trans
    (agreesBut_setRegister _ channel (by simp) _)

/-- Running the sending channel completes nothing. -/
theorem write_runWord_mm2s (d : Loopback) (mode : SyncMode) :
    d.write Channel.mm2s.control mode.runWord = d.withRun .mm2s mode.runWord := by
  cases mode <;> rfl

/-- Running the receiving channel completes what is armed. -/
theorem write_runWord_s2mm (d : Loopback) (mode : SyncMode) :
    d.write Channel.s2mm.control mode.runWord = (d.withRun .s2mm mode.runWord).completeChunk := by
  cases mode <;> rfl

theorem exists_line_of_port {d : Loopback} {channel : Channel} {line : Interrupt.Line}
    (hline : (d.port channel).line = some line) :
    ∃ lines, d.lines = some lines ∧ lines.get channel = line :=
  Option.map_eq_some_iff.1 hline

/-- An access of a channel on any device whose port of the channel is `p`: it need not wait, gets
    this reply, and leaves the port `p'` and all else as it was. -/
def Port.Answers (channel : Channel) (p : Port) (access : Link.Access) (reply : access.Reply)
    (p' : Port) : Prop :=
  ∀ d : Loopback, d.port channel = p →
    d.blocks access = false ∧ (d.answer access).1 = reply ∧
      (d.answer access).2.port channel = p' ∧ AgreesBut channel d (d.answer access).2

namespace Port

variable {channel : Channel} {p : Port}

/-- A status write clears bits. -/
theorem answers_writeStatus (bits : UInt32) :
    Answers channel p (.writeRegister channel.status bits) ()
      (p.clear (bits &&& clearableBits)) := by
  rintro d rfl
  have hwrite : d.write channel.status bits =
      ({ d with writes := d.writes.push ⟨channel.status, bits⟩ } : Loopback).clearStatusBits
        channel (bits &&& clearableBits) := by
    cases channel <;> rfl
  refine ⟨rfl, rfl, ?_, ?_⟩ <;> simp only [answer, hwrite]
  · exact port_clearStatusBits _ channel _
  · exact (agreesBut_log channel d _).trans (agreesBut_setRegister _ channel (by simp) _)

theorem answers_writeAddress (address : UInt32) :
    Answers channel p (.writeRegister channel.address address) () { p with address } := by
  rintro d rfl
  have hwrite : d.write channel.address address =
      ({ d with writes := d.writes.push ⟨channel.address, address⟩ } : Loopback).setRegister
        channel.address address := by
    cases channel <;> rfl
  refine ⟨rfl, rfl, ?_, ?_⟩ <;> simp only [answer, hwrite]
  · exact port_setRegister_address _ channel address
  · exact (agreesBut_log channel d _).trans (agreesBut_setRegister _ channel (by simp) address)

theorem answers_writeControl (p : Port) (mode : SyncMode) :
    Answers .mm2s p (.writeRegister Channel.mm2s.control mode.runWord) () (p.run mode.runWord) := by
  rintro d rfl
  refine ⟨rfl, rfl, ?_, ?_⟩ <;> simp only [answer, write_runWord_mm2s]
  · exact port_withRun d .mm2s _
  · exact agreesBut_withRun d .mm2s _

theorem answers_pollDone (hdone : Status.isDone p.status = true) (limit : Nat) :
    Answers channel p (.pollDone channel limit) true p := by
  rintro d rfl
  have hstatus : Status.isDone (d.status channel) = true := hdone
  exact ⟨by rw [Loopback.blocks, hstatus]; rfl, hstatus, rfl, .rfl⟩

/-- A wait for an interrupt that can be read need not wait. -/
theorem answers_awaitInterrupt {line : Interrupt.Line} (hline : p.line = some line)
    (hreadable : line.readable = true) (limit : Nat) :
    Answers channel p (.awaitInterrupt channel limit) (.ok true) p := by
  rintro d rfl
  obtain ⟨lines, hlines, rfl⟩ := exists_line_of_port hline
  have hsignalled : d.signalled channel = true := by simpa [signalled, hlines] using hreadable
  refine ⟨by rw [Loopback.blocks, hsignalled]; rfl, ?_, rfl, .rfl⟩
  rw [answer, hsignalled]

theorem answers_takeInterrupt {line line' : Interrupt.Line} (hline : p.line = some line)
    {count : Except LinkError UInt32} (htake : line.take = (count, line')) :
    Answers channel p (.takeInterrupt channel) count { p with line := some line' } := by
  rintro d rfl
  obtain ⟨lines, hlines, rfl⟩ := exists_line_of_port hline
  have hanswer : d.answer (.takeInterrupt channel) =
      (count, { d with lines := some (lines.set channel line') }) := by
    simp only [answer, hlines, Interrupt.Lines.take, htake]
    rfl
  rw [hanswer]
  exact ⟨rfl, rfl, port_setLine d lines channel line', agreesBut_setLine d hlines channel line'⟩

theorem answers_rearm {line line' : Interrupt.Line} (hline : p.line = some line)
    {result : Except LinkError Unit} (hrearm : line.rearm = (result, line')) :
    Answers channel p (.rearm channel) result { p with line := some line' } := by
  rintro d rfl
  obtain ⟨lines, hlines, rfl⟩ := exists_line_of_port hline
  have hanswer : d.answer (.rearm channel) =
      (result, { d with lines := some (lines.set channel line') }) := by
    simp only [answer, hlines, Interrupt.Lines.rearm, hrearm]
    rfl
  rw [hanswer]
  exact ⟨rfl, rfl, port_setLine d lines channel line', agreesBut_setLine d hlines channel line'⟩

/-- A program that accesses one channel alone and never waits, from a port to its result and the
    port that it leaves. -/
inductive Runs (channel : Channel) {α : Type} : Port → Proc Link.io α → α → Port → Prop where
  | ret {p : Port} {result : α} : Runs channel p (.ret result) result p
  | act {p p' p'' : Port} {access : Link.Access} {reply : access.Reply}
      {next : access.Reply → Proc Link.io α} {result : α}
      (hanswers : Answers channel p access reply p')
      (hnext : Runs channel p' (next reply) result p'') :
      Runs channel p (.act access next) result p''

/-- A port that runs and shows no finished burst, as a wait in the mode looks for it. -/
def Quiet (p : Port) (mode : SyncMode) : Prop :=
  p.running = true ∧
    match mode with
    | .poll => Status.isDone p.status = false
    | .interrupt =>
      (p.control &&& interruptEnable != 0) = true ∧
        ∃ returned, p.line = some ⟨[], returned, .listening⟩

/-- A port that runs and shows a finished burst, as a wait in the mode looks for it. -/
def Finished (p : Port) (mode : SyncMode) : Prop :=
  p.running = true ∧
    match mode with
    | .poll => Status.isDone p.status = true
    | .interrupt =>
      (p.control &&& interruptEnable != 0) = true ∧
        ∃ returned, p.line = some ⟨Interrupt.rearmBytes, returned, .listening⟩

/-- A port that shows no finished burst, whether it runs or not. -/
def Silent (p : Port) : SyncMode → Prop
  | .poll => Status.isDone p.status = false
  | .interrupt => ∃ returned, p.line = some ⟨[], returned, .listening⟩

/-- A silent port that is run is quiet. -/
theorem Silent.run {mode : SyncMode} (hsilent : p.Silent mode) :
    (p.run mode.runWord).Quiet mode := by
  refine ⟨by simp only [running, Port.run, Status.isHalted_clear_halted, Bool.not_false], ?_⟩
  cases mode with
  | poll =>
    simp only [Port.run]
    rw [Bool.eq_false_iff]
    intro hdone
    exact Bool.eq_false_iff.1 hsilent (Status.isDone_of_isDone_and hdone)
  | interrupt =>
    have henabled : (SyncMode.interrupt.runWord &&& interruptEnable != 0) = true := by decide
    exact ⟨henabled, hsilent⟩

theorem Silent.withAddress {mode : SyncMode} (hsilent : p.Silent mode) (address : UInt32) :
    { p with address }.Silent mode := by
  cases mode <;> exact hsilent

theorem running_finish (p : Port) : p.finish.running = p.running := by
  simp only [running, finish, Status.isHalted_or_transferDone]

/-- A burst that finishes shows at a quiet port, in either mode. -/
theorem Quiet.finish {mode : SyncMode} (hquiet : p.Quiet mode) : p.finish.Finished mode := by
  refine ⟨(running_finish p).trans hquiet.1, ?_⟩
  cases mode with
  | poll => exact Status.isDone_or_transferDone p.status
  | interrupt =>
    obtain ⟨henabled, returned, hline⟩ := hquiet.2
    refine ⟨henabled, [], ?_⟩
    simp only [Port.finish, henabled, if_true, hline]
    rfl

/-- A burst that finishes while the last has not been acknowledged is not told from it. -/
theorem Finished.finish (hfinished : p.Finished .poll) : p.finish.Finished .poll :=
  ⟨(running_finish p).trans hfinished.1, Status.isDone_or_transferDone p.status⟩

theorem Quiet.withAddress {mode : SyncMode} (hquiet : p.Quiet mode) (address : UInt32) :
    { p with address }.Quiet mode := by
  cases mode <;> exact hquiet

/-- The port after both bits of a finished burst have been cleared. -/
def acknowledged (p : Port) : Port :=
  (p.clear (Status.idle &&& clearableBits)).clear (Status.completionInterrupt &&& clearableBits)

theorem running_acknowledged (p : Port) : p.acknowledged.running = p.running := by
  simp only [running, acknowledged, clear]
  rw [Status.isHalted_clear _ (by decide), Status.isHalted_clear _ (by decide)]

/-- An acknowledged burst is no longer shown. -/
theorem isDone_acknowledged (p : Port) : Status.isDone p.acknowledged.status = false :=
  Status.isDone_clear_eq_false _ (by decide)

theorem Runs.acknowledge {α : Type} {rest : Proc Link.io α} {result : α} {p' : Port}
    (hrest : Runs channel p.acknowledged rest result p') :
    Runs channel p (Completion.acknowledge channel >>= fun _ => rest) result p' :=
  .act (answers_writeStatus _) (.act (answers_writeStatus _) hrest)

/-- A wait on a finished burst succeeds and acknowledges it. -/
theorem Finished.await {mode : SyncMode} (hfinished : p.Finished mode) (channel : Channel)
    (limit : Nat) :
    ∃ p', Runs channel p (Completion.await mode channel limit) (.ok ()) p' ∧ p'.Quiet mode := by
  cases mode with
  | poll =>
    exact ⟨p.acknowledged, .act (answers_pollDone hfinished.2 limit) (.acknowledge .ret),
      (running_acknowledged p).trans hfinished.1, isDone_acknowledged p⟩
  | interrupt =>
    obtain ⟨hrunning, henabled, returned, hline⟩ := hfinished
    have htake : (⟨Interrupt.rearmBytes, returned, .listening⟩ : Interrupt.Line).take =
        (.ok 1, ⟨[], returned, .listening⟩) := rfl
    have hrearm : (⟨[], returned, .listening⟩ : Interrupt.Line).rearm =
        (.ok (), ⟨[], returned ++ Interrupt.rearmBytes, .listening⟩) := rfl
    refine ⟨{ p.acknowledged with
      line := some ⟨[], returned ++ Interrupt.rearmBytes, .listening⟩ }, ?_, ?_⟩
    · exact .act (answers_awaitInterrupt hline rfl limit) (.act (answers_takeInterrupt hline htake)
        (.acknowledge (.act (answers_rearm rfl hrearm) .ret)))
    · exact ⟨(running_acknowledged p).trans hrunning, henabled, _, rfl⟩

/-- The first access of a wait. -/
def look : SyncMode → (channel : Channel) → (limit : Nat) → Link.Access
  | .poll => .pollDone
  | .interrupt => .awaitInterrupt

/-- A wait begins with a look. -/
theorem await_eq_act (mode : SyncMode) (channel : Channel) (limit : Nat) :
    ∃ next, Completion.await mode channel limit = .act (look mode channel limit) next := by
  cases mode <;> exact ⟨_, rfl⟩

/-- A wait on a quiet port finds nothing. -/
theorem Quiet.blocks {mode : SyncMode} {d : Loopback} (hquiet : (d.port channel).Quiet mode)
    (limit : Nat) : d.blocks (look mode channel limit) = true := by
  cases mode with
  | poll =>
    have hopen : Status.isDone (d.status channel) = false := hquiet.2
    simp only [look, Loopback.blocks, hopen, Bool.not_false]
  | interrupt =>
    obtain ⟨-, returned, hline⟩ := hquiet.2
    obtain ⟨lines, hlines, hget⟩ := exists_line_of_port hline
    simp [look, Loopback.blocks, signalled, hlines, hget, Interrupt.Line.readable]

end Port

end Loopback

end DmaLink
