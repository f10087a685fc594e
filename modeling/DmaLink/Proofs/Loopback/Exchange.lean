import DmaLink.Proofs.Loopback.Halves

namespace DmaLink.Loopback

variable {α β : Type}

/-- Runs a program on a device. -/
def run (d : Loopback) (p : Proc Link.io α) : α × Loopback := p.run answer d

theorem run_bind (d : Loopback) (p : Proc Link.io α) (f : α → Proc Link.io β) :
    d.run (p >>= f) = (d.run p).2.run (f (d.run p).1) :=
  Proc.run_bind (I := Link.io) answer p f d

/-- An access made with the sending half in state `o`: it need not wait, gets this reply, leaves
    the half in `o'` and gives the bursts over. -/
def Outbound.Steps (o : Outbound) (access : Link.Access) (reply : access.Reply) (o' : Outbound)
    (bursts : List Burst) : Prop :=
  ∀ d : Loopback, d.stalled = false → d.outbound = o →
    d.blocks access = false ∧ (d.answer access).1 = reply ∧
      (d.answer access).2.outbound = o' ∧ d.Emits bursts (d.answer access).2

/-- An access made with the receiving half in state `i`: it need not wait, gets this reply, leaves
    the half in `i'` and all else as it was. -/
def Inbound.Steps (i : Inbound) (access : Link.Access) (reply : access.Reply) (i' : Inbound) :
    Prop :=
  ∀ d : Loopback, d.stalled = false → d.inbound = i →
    d.blocks access = false ∧ (d.answer access).1 = reply ∧
      (d.answer access).2.inbound = i' ∧ d.KeepsOutbound (d.answer access).2

/-- An access waits for something that the receiving half in state `i` has not come to. -/
def Inbound.Blocks (i : Inbound) (access : Link.Access) : Prop :=
  ∀ d : Loopback, d.inbound = i → d.blocks access = true

/-- An access of the sending port gives nothing over. -/
theorem Port.Answers.outbound {p p' : Port} {access : Link.Access} {reply : access.Reply}
    (hanswers : Port.Answers .mm2s p access reply p') {o : Outbound} (hport : o.port = p) :
    o.Steps access reply { o with port := p' } [] := by
  rintro d - rfl
  obtain ⟨hready, hreply, hport', hagrees⟩ := hanswers d hport
  exact ⟨hready, hreply, by rw [hagrees.outbound, hport'], hagrees.emits_nil⟩

theorem Port.Answers.inbound {p p' : Port} {access : Link.Access} {reply : access.Reply}
    (hanswers : Port.Answers .s2mm p access reply p') {i : Inbound} (hport : i.port = p) :
    i.Steps access reply { i with port := p' } := by
  rintro d - rfl
  obtain ⟨hready, hreply, hport', hagrees⟩ := hanswers d hport
  exact ⟨hready, hreply, by rw [hagrees.inbound, hport'], hagrees.keepsOutbound⟩

section Windows

/-- Storing into the source window gives nothing over. -/
theorem Outbound.steps_store (o : Outbound) {start : Nat} {words : List UInt64}
    (hrange : start + words.length ≤ o.source.size) :
    o.Steps (.window .mm2s (.store start words)) (.ok ())
      { o with source := ⟨Memory.put o.source.words start words⟩ } [] := by
  rintro d - rfl
  have hstore := Window.store_eq_ok_iff.2 ⟨hrange, rfl⟩
  have hanswer : d.answer (.window .mm2s (.store start words)) =
      (.ok (), { d with source := ⟨Memory.put d.source.words start words⟩ }) := by
    simp only [answer, accessWindow, Window.answer]
    rw [show d.source = d.outbound.source from rfl, hstore]
    rfl
  rw [hanswer]
  exact ⟨rfl, rfl, rfl, rfl, by simp, by simp, rfl⟩

/-- Loading from the destination window changes nothing. -/
theorem Inbound.steps_load {i : Inbound} {start len : Nat} {words : Vector UInt64 len}
    (hload : i.destination.load start len = .ok words) :
    i.Steps (.window .s2mm (.load start len)) (.ok words) i := by
  rintro d - rfl
  exact ⟨rfl, hload, rfl, .rfl⟩

end Windows

section Lengths

/-- The state after a length has been written but not acted on. -/
def withLength (d : Loopback) (channel : Channel) (value : UInt32) : Loopback :=
  ({ d with writes := d.writes.push ⟨channel.length, value⟩ } : Loopback).setRegister
    channel.length value

theorem port_withLength (d : Loopback) (channel : Channel) (value : UInt32) :
    (d.withLength channel value).port channel = d.port channel :=
  port_setRegister_length _ channel value

theorem agreesBut_withLength (d : Loopback) (channel : Channel) (value : UInt32) :
    AgreesBut channel d (d.withLength channel value) :=
  (agreesBut_log channel d _).trans (agreesBut_setRegister _ channel (by simp) value)

/-- A length written to the sending channel sends the tagged burst at its address. -/
theorem Outbound.steps_length {o : Outbound} (hrunning : o.port.running = true) {bytes start : Nat}
    {data : List UInt64} {mode : OperatingMode} (hbytes : bytes < UInt32.size)
    (hposition : position? o.port.address sourceBase = some start)
    (hrange : start + bytes / wordBytes ≤ o.source.size)
    (hburst : (o.source.words.extract start (start + bytes / wordBytes)).toList =
      data ++ [mode.tag]) :
    o.Steps (.writeRegister Channel.mm2s.length (UInt32.ofNat bytes)) ()
      { o with port := o.port.finish } [⟨data, mode⟩] := by
  rintro d hstalled rfl
  have hlength := agreesBut_withLength d .mm2s (UInt32.ofNat bytes)
  have houtbound : (d.withLength .mm2s (UInt32.ofNat bytes)).outbound = d.outbound := by
    rw [hlength.outbound, port_withLength]
    rfl
  have hwrite : d.write Channel.mm2s.length (UInt32.ofNat bytes) =
      (d.withLength .mm2s (UInt32.ofNat bytes)).sendBurst bytes :=
    congrArg (d.withLength .mm2s (UInt32.ofNat bytes)).sendBurst (UInt32.toNat_ofNat_of_lt' hbytes)
  rw [← houtbound] at hrunning hposition hrange hburst
  obtain ⟨hsent, hemits⟩ := sendBurst_spec (hlength.stalled.trans hstalled) hrunning hposition
    hrange hburst
  refine ⟨rfl, rfl, ?_, ?_⟩ <;> simp only [answer, hwrite]
  · rw [hsent, houtbound]
  · exact hlength.emits_nil.trans hemits

/-- A length written to the receiving channel arms it. -/
theorem Inbound.steps_length {i : Inbound} (hrunning : i.port.running = true) {bytes : Nat}
    (hbytes : bytes < UInt32.size) :
    i.Steps (.writeRegister Channel.s2mm.length (UInt32.ofNat bytes)) ()
      ({ i with armed := some ⟨i.port.address, bytes / wordBytes⟩ } : Inbound).complete := by
  rintro d hstalled rfl
  have hlength := agreesBut_withLength d .s2mm (UInt32.ofNat bytes)
  have hinbound : (d.withLength .s2mm (UInt32.ofNat bytes)).inbound = d.inbound := by
    rw [hlength.inbound, port_withLength]
    rfl
  have hwrite : d.write Channel.s2mm.length (UInt32.ofNat bytes) =
      (d.withLength .s2mm (UInt32.ofNat bytes)).arm bytes :=
    congrArg (d.withLength .s2mm (UInt32.ofNat bytes)).arm (UInt32.toNat_ofNat_of_lt' hbytes)
  rw [← hinbound] at hrunning
  obtain ⟨harmed, hkeeps⟩ := arm_spec (hlength.stalled.trans hstalled) hrunning bytes
  refine ⟨rfl, rfl, ?_, ?_⟩ <;> simp only [answer, hwrite]
  · rw [harmed, hinbound]
  · exact hlength.keepsOutbound.trans hkeeps

end Lengths

/-- A control word that runs the receiving channel while nothing is armed. -/
theorem Inbound.steps_runWord {i : Inbound} (hunarmed : i.armed = none) (mode : SyncMode) :
    i.Steps (.writeRegister Channel.s2mm.control mode.runWord) ()
      { i with port := i.port.run mode.runWord } := by
  rintro d hstalled rfl
  have hrun := agreesBut_withRun d .s2mm mode.runWord
  obtain ⟨hcomplete, hkeeps⟩ := completeChunk_spec _ (hrun.stalled.trans hstalled)
  have hunarmed' : (d.withRun .s2mm mode.runWord).inbound.armed = none :=
    hrun.armed.trans hunarmed
  refine ⟨rfl, rfl, ?_, ?_⟩ <;> simp only [answer, write_runWord_s2mm]
  · rw [hcomplete, Inbound.complete, hunarmed', hrun.inbound, port_withRun]
    rfl
  · exact hrun.keepsOutbound.trans hkeeps

/-- A program of the sending half: from state `o` it gives these bursts over and is over with a
    result and a state in `post`. -/
def Sends (post : α → Outbound → Prop) : Proc Link.io α → Outbound → List Burst → Prop
  | .ret result, o, bursts => bursts = [] ∧ post result o
  | .act access next, o, bursts =>
    ∃ (reply : Link.io.Reply access) (o' : Outbound) (now later : List Burst),
      bursts = now ++ later ∧ o.Steps access reply o' now ∧ Sends post (next reply) o' later

/-- A program of the receiving half, from state `i` with these bursts still to come over. Whichever
    of them come before its next access, the access goes through or has to wait with more to come;
    once the program is over, its result, the state and the bursts still to come are in `post`. -/
def Receives (post : α → Inbound → List Burst → Prop) :
    Proc Link.io α → Inbound → List Burst → Prop
  | .ret result, i, bursts => post result i bursts
  | .act access next, i, bursts =>
    ∀ count, ((i.pushAll (bursts.take count)).Blocks access ∧ bursts.drop count ≠ []) ∨
      ∃ (reply : Link.io.Reply access) (i' : Inbound),
        (i.pushAll (bursts.take count)).Steps access reply i' ∧
          Receives post (next reply) i' (bursts.drop count)

namespace Sends

variable {post : α → Outbound → Prop} {post' : β → Outbound → Prop} {o o' : Outbound}
  {bursts later : List Burst}

/-- A program gives over what its first access gives over, and then the rest. -/
theorem act {access : Link.Access} {reply : access.Reply} {next : access.Reply → Proc Link.io α}
    (hstep : o.Steps access reply o' bursts) (hnext : Sends post (next reply) o' later) :
    Sends post (.act access next) o (bursts ++ later) :=
  ⟨reply, o', bursts, later, rfl, hstep, hnext⟩

/-- An access that gives nothing over. -/
theorem act_silent {access : Link.Access} {reply : access.Reply}
    {next : access.Reply → Proc Link.io α} (hstep : o.Steps access reply o' [])
    (hnext : Sends post (next reply) o' bursts) : Sends post (.act access next) o bursts :=
  act hstep hnext

/-- A program that goes on with a result gives over what both parts give over. -/
theorem bind {p : Proc Link.io α} {f : α → Proc Link.io β} (hp : Sends post p o bursts)
    (hf : ∀ result o', post result o' → Sends post' (f result) o' later) :
    Sends post' (p >>= f) o (bursts ++ later) := by
  induction p generalizing o bursts with
  | ret result =>
    obtain ⟨rfl, hpost⟩ := hp
    exact hf result o hpost
  | act access next ih =>
    obtain ⟨reply, o', now, rest, rfl, hstep, hnext⟩ := hp
    rw [List.append_assoc]
    exact act hstep (ih reply hnext)

/-- A program that goes on without giving anything more over. -/
theorem bind_silent {p : Proc Link.io α} {f : α → Proc Link.io β} (hp : Sends post p o bursts)
    (hf : ∀ result o', post result o' → Sends post' (f result) o' []) :
    Sends post' (p >>= f) o bursts := by
  have hboth := hp.bind hf
  rwa [List.append_nil] at hboth

theorem mono {post' : α → Outbound → Prop} {p : Proc Link.io α} (hp : Sends post p o bursts)
    (himp : ∀ result o', post result o' → post' result o') : Sends post' p o bursts := by
  induction p generalizing o bursts with
  | ret result => exact ⟨hp.1, himp _ _ hp.2⟩
  | act access next ih =>
    obtain ⟨reply, o', now, rest, rfl, hstep, hnext⟩ := hp
    exact act hstep (ih reply hnext)

/-- A program of the sending port gives nothing over. -/
theorem of_runs {p p' : Port} {program : Proc Link.io α} {result : α}
    (hruns : Port.Runs .mm2s p program result p') (hport : o.port = p) :
    Sends (fun r o' => r = result ∧ o' = { o with port := p' }) program o [] := by
  induction hruns generalizing o with
  | ret => exact ⟨rfl, rfl, by rw [← hport]⟩
  | @act p p' p'' access reply next result hanswers hnext ih =>
    have hrest : Sends _ (next reply) { o with port := p' } [] := ih rfl
    exact act (hanswers.outbound hport) hrest

/-- Run on its own, a program of the sending half ends in its postcondition. -/
theorem run {p : Proc Link.io α} (hp : Sends post p o bursts) {d : Loopback}
    (hstalled : d.stalled = false) (ho : d.outbound = o) :
    post (d.run p).1 (d.run p).2.outbound ∧ d.Emits bursts (d.run p).2 := by
  induction p generalizing o bursts d with
  | ret result =>
    obtain ⟨rfl, hpost⟩ := hp
    subst ho
    exact ⟨hpost, AgreesBut.rfl.emits_nil⟩
  | act access next ih =>
    obtain ⟨reply, o', now, rest, rfl, hstep, hnext⟩ := hp
    obtain ⟨-, rfl, ho', hemits⟩ := hstep d hstalled ho
    obtain ⟨hpost, hemits'⟩ := ih _ hnext (hemits.stalled.trans hstalled) ho'
    exact ⟨hpost, hemits.trans hemits'⟩

end Sends

namespace Receives

variable {post : α → Inbound → List Burst → Prop} {post' : β → Inbound → List Burst → Prop}
  {i : Inbound} {bursts : List Burst}

/-- Bursts may come over before a program goes on. -/
theorem pushAll {access : Link.Access} {next : access.Reply → Proc Link.io α}
    (hp : Receives post (.act access next) i bursts) (count : Nat) :
    Receives post (.act access next) (i.pushAll (bursts.take count)) (bursts.drop count) := by
  intro more
  have h := hp (count + more)
  rw [List.take_add, Inbound.pushAll_append, ← List.drop_drop] at h
  exact h

/-- It is enough to follow a program from the states in which its access need not wait. -/
theorem of_forall_blocks_or {access : Link.Access} {next : access.Reply → Proc Link.io α}
    (hp : ∀ count, ((i.pushAll (bursts.take count)).Blocks access ∧ bursts.drop count ≠ []) ∨
      Receives post (.act access next) (i.pushAll (bursts.take count)) (bursts.drop count)) :
    Receives post (.act access next) i bursts := by
  intro count
  rcases hp count with hblocks | hnow
  · exact .inl hblocks
  · exact hnow 0

theorem bind {p : Proc Link.io α} {f : α → Proc Link.io β} (hp : Receives post p i bursts)
    (hf : ∀ result i' later, post result i' later → Receives post' (f result) i' later) :
    Receives post' (p >>= f) i bursts := by
  induction p generalizing i bursts with
  | ret result => exact hf result i bursts hp
  | act access next ih =>
    intro count
    rcases hp count with hblocks | ⟨reply, i', hstep, hnext⟩
    · exact .inl hblocks
    · exact .inr ⟨reply, i', hstep, ih reply hnext⟩

theorem mono {post' : α → Inbound → List Burst → Prop} {p : Proc Link.io α}
    (hp : Receives post p i bursts)
    (himp : ∀ result i' later, post result i' later → post' result i' later) :
    Receives post' p i bursts := by
  induction p generalizing i bursts with
  | ret result => exact himp _ _ _ hp
  | act access next ih =>
    intro count
    rcases hp count with hblocks | ⟨reply, i', hstep, hnext⟩
    · exact .inl hblocks
    · exact .inr ⟨reply, i', hstep, ih reply hnext⟩

/-- A program of the receiving port leaves the half but for the port and for what comes over
    meanwhile. -/
theorem of_runs {p p' : Port} {program : Proc Link.io α} {result : α}
    (hruns : Port.Runs .s2mm p program result p') (hport : i.port = p)
    (hfree : i.armed = none ∨ bursts = []) :
    Receives (fun r i' later => r = result ∧ ∃ count, later = bursts.drop count ∧
      i' = { i.pushAll (bursts.take count) with port := p' }) program i bursts := by
  induction hruns generalizing i bursts with
  | ret => exact ⟨rfl, 0, rfl, by rw [← hport]; rfl⟩
  | @act p p' p'' access reply next result hanswers hnext ih =>
    intro count
    have hport' : (i.pushAll (bursts.take count)).port = p := by
      rw [Inbound.port_pushAll (hfree.imp_right (by simp [·])), hport]
    refine .inr ⟨reply, { i.pushAll (bursts.take count) with port := p' },
      hanswers.inbound hport', mono (ih rfl ?_) ?_⟩
    · exact hfree.imp (Inbound.armed_pushAll_of_unarmed · _) (by simp [·])
    · rintro r i' later ⟨hresult, more, rfl, rfl⟩
      refine ⟨hresult, count + more, by rw [List.drop_drop], ?_⟩
      have hfree' : (i.pushAll (bursts.take count)).armed = none ∨
          (bursts.drop count).take more = [] :=
        hfree.imp (Inbound.armed_pushAll_of_unarmed · _) (by simp [·])
      rw [List.take_add, Inbound.pushAll_append, Inbound.withPort_pushAll hfree']

/-- With nothing more to come, a program of the receiving half ends in its postcondition when it is
    run on its own. -/
theorem run {p : Proc Link.io α} (hp : Receives post p i []) {d : Loopback}
    (hstalled : d.stalled = false) (hi : d.inbound = i) :
    post (d.run p).1 (d.run p).2.inbound [] ∧ d.KeepsOutbound (d.run p).2 := by
  induction p generalizing i d with
  | ret result =>
    subst hi
    exact ⟨hp, .rfl⟩
  | act access next ih =>
    rcases hp 0 with ⟨-, hmore⟩ | ⟨reply, i', hstep, hnext⟩
    · exact absurd rfl hmore
    · obtain ⟨-, rfl, hi', hkeeps⟩ := hstep d hstalled hi
      obtain ⟨hpost, hkeeps'⟩ := ih _ hnext (hkeeps.stalled.trans hstalled) hi'
      exact ⟨hpost, hkeeps.trans hkeeps'⟩

end Receives

end DmaLink.Loopback
