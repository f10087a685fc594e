import DmaLink.Proofs.Engine.Startup
import DmaLink.Proofs.Loopback.Halting

namespace DmaLink.Loopback

/-- A burst that can be found is finished on a device that is not stalled, and otherwise nothing
    comes of it. -/
theorem port_sendBurst {d : Loopback} {bytes start : Nat} (hrunning : d.running .mm2s = true)
    (hposition : position? (d.register Channel.mm2s.address) sourceBase = some start)
    (hrange : start + bytes / wordBytes ≤ d.source.size) :
    (d.sendBurst bytes).port .mm2s =
      if d.stalled then d.port .mm2s else (d.port .mm2s).finish := by
  simp only [sendBurst, hrunning, hposition, if_neg (Nat.not_lt.2 hrange), Bool.not_true,
    Bool.false_or]
  split
  · rfl
  · rw [port_completeChunk, port_finish, ports_takeBurst]

namespace Stalling

open Port (Quiet Silent)

variable {link : Stalling} {p p' : Port}

theorem port_foldl_setStalled (toggles : List Bool) (d : Loopback) :
    (toggles.foldl setStalled d).port .mm2s = d.port .mm2s := by
  induction toggles generalizing d with
  | nil => rfl
  | cons stalled rest ih => rw [List.foldl_cons, ih, port_setStalled]

/-- An access has the effect on the sending port that it has on a device left alone. -/
theorem port_answer (access : Link.Access) (link : Stalling) :
    (Device.answer access link).2.device.port .mm2s =
      (link.device.answer access).2.port .mm2s :=
  port_foldl_setStalled _ _

/-- An access of the sending port is answered alike by a device that stalls. -/
theorem answer_of_answers {access : Link.Access} {reply : access.Reply}
    (hanswers : Port.Answers .mm2s p access reply p') (hport : link.device.port .mm2s = p) :
    (Device.answer access link).1 = reply ∧
      (Device.answer access link).2.device.port .mm2s = p' := by
  obtain ⟨-, hreply, hport', -⟩ := hanswers link.device hport
  exact ⟨hreply, (port_answer access link).trans hport'⟩

/-- A program that never waits goes as it does on a device left alone. -/
theorem run_of_runs {α : Type} {program : Proc Link.io α} {result : α}
    (hruns : Port.Runs .mm2s p program result p') (hport : link.device.port .mm2s = p) :
    (program.run Device.answer link).1 = result := by
  induction hruns generalizing link with
  | ret => rfl
  | act hanswers _ ih =>
    obtain ⟨rfl, hport'⟩ := answer_of_answers hanswers hport
    exact ih hport'

/-- A wait for a burst that is not finished runs out. -/
theorem run_await_of_quiet {mode : SyncMode} (hquiet : (link.device.port .mm2s).Quiet mode)
    (limit : Nat) :
    ((Completion.await mode .mm2s limit).run Device.answer link).1 =
      .error (.channelTimeout .mm2s limit) := by
  cases mode with
  | poll =>
    have hreply : (Device.answer (.pollDone .mm2s limit) link).1 = false := hquiet.2
    have hgoes : (Completion.await .poll .mm2s limit).Goes link [⟨.pollDone .mm2s limit, link⟩]
        (.error (.channelTimeout .mm2s limit)) _ := Proc.Goes.perform_bind hreply ⟨rfl, rfl⟩
    exact congrArg Prod.fst hgoes.run_eq
  | interrupt =>
    obtain ⟨-, -, returned, hline⟩ := hquiet
    obtain ⟨lines, hlines, hline⟩ := exists_line_of_port hline
    have hsignalled : link.device.signalled .mm2s = false := by
      simp only [signalled, hlines, hline, Option.map_some, Option.getD_some]
      rfl
    have hreply : (Device.answer (.awaitInterrupt .mm2s limit) link).1 = .ok false :=
      congrArg Except.ok hsignalled
    have hgoes : (Completion.await .interrupt .mm2s limit).Goes link
        [⟨.awaitInterrupt .mm2s limit, link⟩] (.error (.channelTimeout .mm2s limit)) _ :=
      Proc.Goes.perform_bind hreply ⟨rfl, rfl⟩
    exact congrArg Prod.fst hgoes.run_eq

/-- A length written to a device that is not stalled has its burst finished, and otherwise nothing
    comes of it. -/
theorem port_answer_length {mode : SyncMode} {bytes start : Nat}
    (hquiet : (link.device.port .mm2s).Quiet mode) (hbytes : bytes < UInt32.size)
    (hposition : position? (link.device.port .mm2s).address sourceBase = some start)
    (hrange : start + bytes / wordBytes ≤ link.device.source.size) :
    (Device.answer (.writeRegister Channel.mm2s.length (UInt32.ofNat bytes)) link).2.device.port
        .mm2s =
      if link.device.stalled then link.device.port .mm2s else (link.device.port .mm2s).finish := by
  let written := link.device.withLength .mm2s (UInt32.ofNat bytes)
  have hwritten : written.port .mm2s = link.device.port .mm2s := port_withLength ..
  have hanswer : (link.device.answer
      (.writeRegister Channel.mm2s.length (UInt32.ofNat bytes))).2 = written.sendBurst bytes :=
    congrArg written.sendBurst (UInt32.toNat_ofNat_of_lt' hbytes)
  rw [port_answer, hanswer, ← hwritten]
  exact port_sendBurst ((running_of_port hwritten).trans hquiet.1) (by
    rw [← hwritten] at hposition
    exact hposition) hrange

variable {e : Engine}

theorem size_answer (access : Link.Access) (link : Stalling) :
    (Device.answer access link).2.device.source.size = link.device.source.size :=
  lawful_stalling.size_answer .mm2s access link

/-- Words that fit a half are sent exactly if the device is not stalled when their length is
    written. -/
theorem exists_goes_sendWords (hquiet : (link.device.port .mm2s).Quiet e.mode)
    (hfits : e.source.Fits sourceBase link.device.source.size) {words : List UInt64}
    (hwords : words.length ≤ e.source.halfWords) :
    ∃ launched steps after,
      (e.sendWords words).Goes link steps
        (if launched.device.stalled then .error (.channelTimeout .mm2s e.limit)
          else .ok (words.length * wordBytes)) after ∧
      steps[2]? = some
        ⟨.writeRegister Channel.mm2s.length (UInt32.ofNat (words.length * wordBytes)),
          launched⟩ := by
  let store : Link.Access := .window .mm2s (.store 0 words)
  let stored := (Device.answer store link).2
  let launched := Engine.addressed .mm2s e.source.base stored
  let sent := (Device.answer (.writeRegister Channel.mm2s.length
    (UInt32.ofNat (words.length * wordBytes))) launched).2
  have hbase : e.source.address .a = e.source.base := UInt32.add_zero _
  have hoffset : 0 + e.source.halfWords ≤ link.device.source.size := hfits.offset_le .a
  have hstore : (Device.answer store link).1 = (.ok () : Except LinkError Unit) := by
    have hstored : link.device.source.store 0 words =
        (.ok (), ⟨Memory.put link.device.source.words 0 words⟩) :=
      Window.store_eq_ok_iff.2 ⟨by omega, rfl⟩
    exact congrArg Prod.fst hstored
  -- What the sending port is when the length is written, and after it.
  have hstored : stored.device.port .mm2s = link.device.port .mm2s := port_answer store link
  have haddressed := (answer_of_answers (Port.answers_writeAddress e.source.base) hstored).2
  have hlaunched : (launched.device.port .mm2s).Quiet e.mode :=
    haddressed ▸ hquiet.withAddress e.source.base
  have haddress : (launched.device.port .mm2s).address = e.source.base :=
    congrArg Port.address haddressed
  have hsize : launched.device.source.size = link.device.source.size :=
    (size_answer ..).trans (size_answer ..)
  have hsent : sent.device.port .mm2s =
      if launched.device.stalled then launched.device.port .mm2s
      else (launched.device.port .mm2s).finish := by
    have hbytes := hfits.bytes_lt
    have hposition : position? (launched.device.port .mm2s).address sourceBase = some 0 := by
      rw [haddress, ← hbase]
      exact hfits.position?_address .a
    refine port_answer_length hlaunched
      (Nat.lt_of_le_of_lt (Nat.mul_le_mul_right _ hwords) hbytes) hposition ?_
    rw [hsize, Nat.mul_div_cancel _ (by decide)]
    omega
  have hlaunch : (Engine.launch .mm2s e.source.base (words.length * wordBytes)).Goes stored
      [⟨.writeRegister Channel.mm2s.address e.source.base, stored⟩,
        ⟨.writeRegister Channel.mm2s.length (UInt32.ofNat (words.length * wordBytes)),
          launched⟩] () sent := ⟨rfl, rfl⟩
  have hwait := Proc.goes_self (Completion.await e.mode .mm2s e.limit) sent
  by_cases hstalled : launched.device.stalled
  · rw [if_pos hstalled] at hsent
    rw [run_await_of_quiet (by rw [hsent]; exact hlaunched) e.limit] at hwait
    have hsend : (e.sendWords words).Goes link _ (.error (.channelTimeout .mm2s e.limit)) _ :=
      Proc.Goes.onWindow_bind hstore (hlaunch.bind (hwait.bind ⟨rfl, rfl⟩))
    exact ⟨launched, _, _, by rw [if_pos hstalled]; exact hsend, rfl⟩
  · rw [if_neg hstalled] at hsent
    obtain ⟨p', hruns, -⟩ := hlaunched.finish.await .mm2s e.limit
    rw [run_of_runs hruns hsent] at hwait
    have hsend : (e.sendWords words).Goes link _ (.ok (words.length * wordBytes)) _ :=
      Proc.Goes.onWindow_bind hstore (hlaunch.bind (hwait.bind ⟨rfl, rfl⟩))
    exact ⟨launched, _, _, by rw [if_neg hstalled]; exact hsend, rfl⟩

/-- A reset leaves the sending port as it is after power-on, but for its address and its line. -/
theorem port_reset (link : Stalling) :
    (Engine.reset.run Device.answer link).2.device.port .mm2s =
      (link.device.port .mm2s).powerOn := by
  let first := (Device.answer (.writeRegister Channel.s2mm.control Control.reset) link).2
  have hfirst : first.device.port .mm2s = link.device.port .mm2s :=
    (port_answer _ link).trans link.device.write_reset_s2mm.2.1
  have hsecond : (Engine.reset.run Device.answer link).2.device.port .mm2s =
      (first.device.port .mm2s).powerOn :=
    (port_answer (.writeRegister Channel.mm2s.control Control.reset) first).trans
      first.device.write_reset_mm2s.1
  rw [hsecond, hfirst]

/-- A device that was reset shows no finished burst if its line, where it has one, holds no
    count. -/
theorem silent_reset {mode : SyncMode} (hline : mode = .interrupt →
      ∃ returned, (link.device.port .mm2s).line = some ⟨[], returned, .listening⟩) :
    ((Engine.reset.run Device.answer link).2.device.port .mm2s).Silent mode := by
  rw [port_reset]
  cases mode with
  | poll => exact (by decide : Status.isDone Status.halted = false)
  | interrupt => exact hline rfl

/-- The tag word of a start is sent exactly if the device is not stalled when its length is
    written. -/
theorem exists_launched_start (haccepted : e.Accepted (link.device.geometry e.burstWords))
    (hsilent : (link.device.port .mm2s).Silent e.mode) :
    ∃ launched : Stalling,
      (e.start.trace link)[4]? = some ⟨.writeRegister Channel.mm2s.length 8, launched⟩ ∧
        (e.start.run Device.answer link).1 =
          if launched.device.stalled then .error (.channelTimeout .mm2s e.limit) else .ok () := by
  let named := (Device.answer (.writeRegister Channel.mm2s.address e.source.base) link).2
  let aimed := (Device.answer (.writeRegister Channel.mm2s.control e.mode.runWord) named).2
  have hnamed : named.device.port .mm2s =
      { link.device.port .mm2s with address := e.source.base } :=
    (answer_of_answers (Port.answers_writeAddress e.source.base) rfl).2
  have haimed := (answer_of_answers (Port.answers_writeControl _ e.mode) hnamed).2
  have hquiet : (aimed.device.port .mm2s).Quiet e.mode :=
    haimed ▸ (hsilent.withAddress e.source.base).run
  have hsize : aimed.device.source.size = link.device.source.size :=
    (size_answer ..).trans (size_answer ..)
  have hhalf := haccepted.burst
  have htag : [OperatingMode.partway.tag].length ≤ e.source.halfWords := by
    rw [List.length_singleton]
    omega
  obtain ⟨launched, steps, after, hsend, hlength⟩ :=
    exists_goes_sendWords hquiet (by rw [hsize]; exact haccepted.source) htag
  have haddress := Proc.goes_writeRegister Channel.mm2s.address e.source.base link
  have hcontrol := Proc.goes_writeRegister Channel.mm2s.control e.mode.runWord named
  have hlength' (rest : List (Step Stalling)) : (steps ++ rest)[2]? = some
      ⟨.writeRegister Channel.mm2s.length 8, launched⟩ := by
    rw [List.getElem?_append_left (List.getElem?_eq_some_iff.1 hlength).1, hlength]
    rfl
  refine ⟨launched, ?_⟩
  by_cases hstalled : launched.device.stalled
  · rw [if_pos hstalled] at hsend ⊢
    have hstart : e.start.Goes link _ (.error (.channelTimeout .mm2s e.limit)) _ :=
      haddress.bind (hcontrol.bind (hsend.bind ⟨rfl, rfl⟩))
    exact ⟨hstart.trace_eq ▸ hlength' _, congrArg Prod.fst hstart.run_eq⟩
  · rw [if_neg hstalled] at hsend ⊢
    have hstart : e.start.Goes link _ (.ok ()) _ :=
      haddress.bind (hcontrol.bind (hsend.bind ((Proc.goes_writeRegister Channel.s2mm.control
        e.mode.runWord after).bind ⟨rfl, rfl⟩)))
    exact ⟨hstart.trace_eq ▸ hlength' _, congrArg Prod.fst hstart.run_eq⟩

end Stalling

end DmaLink.Loopback
