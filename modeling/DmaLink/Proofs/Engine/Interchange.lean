import DmaLink.Proofs.Engine.Inside
import DmaLink.Proofs.Engine.Modes
import DmaLink.Proofs.Engine.Session

namespace DmaLink

open Loopback

namespace Engine

/-- What may happen to an engine on a simulated device. -/
inductive Event where
  | operate (operation : Operation)
  | stall (stalled : Bool)
deriving DecidableEq, Repr

/-- An event that clears no status flag by hand. -/
def Event.Orderly : Event → Prop
  | .operate (.acknowledge _) => False
  | _ => True

variable {lines : Option Interrupt.Lines} {g : Geometry} {e : Engine} {d : Loopback}
  {bound bound' late : Nat}

theorem create_interrupt (g : Geometry) :
    create .interrupt g = (create .poll g).map interrupting := by
  simp only [create, bind, Except.bind]
  split
  · rfl
  cases (Size.add g.burstWords 1).mapError Fault.trap with
  | error cause => rfl
  | ok halfWords =>
    simp only
    cases (Size.mul halfWords wordBytes).mapError Fault.trap with
    | error cause => rfl
    | ok halfBytes =>
      simp only
      split
      · rfl
      cases (g.source.fit halfWords).mapError Fault.error with
      | error cause => rfl
      | ok source =>
        simp only
        cases (g.destination.fit (Layout.defaultReadBytes / wordBytes)).mapError Fault.error <;> rfl

theorem configure_interrupting (e : Engine) (readLength : Nat) :
    e.interrupting.configure readLength = (e.configure readLength).map interrupting := by
  unfold configure
  split
  · rfl
  split
  · rfl
  simp only [interrupting, bind, Except.bind]
  cases e.destination.fit (readLength / wordBytes) <;> rfl

/-- An operation changes the one engine as it changes the other. -/
theorem perform_interrupting (e : Engine) (bound bound' : Nat) (operation : Operation) :
    (e.interrupting.perform bound' operation).1 = (e.perform bound operation).1.interrupting := by
  cases operation with
  | initialise readLength =>
    simp only [Engine.perform, configure_interrupting]
    cases e.configure readLength <;> rfl
  | _ => rfl

section Operations

theorem mirrors_writeBoth {value : UInt32} {post : Loopback → Prop}
    (hvalue : ∀ channel : Channel, Control.polledAt channel.control value = value)
    (hpost : post ((d.write Channel.s2mm.control value).write Channel.mm2s.control value)) :
    let both : Proc Link.io Answer := do
      Proc.writeRegister Channel.s2mm.control value
      Proc.writeRegister Channel.mm2s.control value
      return .done
    Mirrors lines both both d fun _ d' => post d' := by
  apply Mirrors.bind
  apply mirrors_write (hvalue .s2mm)
  apply Mirrors.bind
  apply mirrors_write (hvalue .mm2s)
  exact mirrors_ret hpost

theorem mirrors_initialise (hmode : e.mode = .poll) (hbetween : d.Between late)
    (readLength : Nat) :
    Mirrors lines (e.perform bound (.initialise readLength)).2
      (e.interrupting.perform bound' (.initialise readLength)).2 d fun _ d' => d'.Between late := by
  simp only [Engine.perform, configure_interrupting]
  cases hconfigure : e.configure readLength with
  | error cause => exact mirrors_ret hbetween
  | ok configured =>
    have hmode' : configured.mode = .poll := by
      rw [(configure_eq_ok hconfigure).2.2.2]
      exact hmode
    apply Mirrors.bind
    apply (mirrors_start hmode' hbetween).mono
    intro _ d' hbetween'
    exact mirrors_ret hbetween'

theorem mirrors_send (hmode : e.mode = .poll) (hbetween : d.Between late) (buffer : List UInt64) :
    Mirrors lines (e.perform bound (.send buffer)).2
      (e.interrupting.perform bound' (.send buffer)).2 d fun _ d' => d'.Between late := by
  apply Mirrors.bind
  simp only [Engine.send]
  split
  · exact mirrors_ret (mirrors_ret hbetween)
  · apply (mirrors_sendWords hmode hbetween buffer).mono
    rintro (cause | bytes) d' hbetween' <;> exact mirrors_ret hbetween'

theorem mirrors_sendSplit (hmode : e.mode = .poll) (hbetween : d.Between late)
    (payload : List UInt64) :
    Mirrors lines (e.perform bound (.sendSplit payload)).2
      (e.interrupting.perform bound' (.sendSplit payload)).2 d fun _ d' => d'.Between late := by
  apply Mirrors.bind
  unfold sendSplit
  split
  · exact mirrors_ret (mirrors_ret hbetween)
  · apply (mirrors_sendBursts hmode hbetween .a _).mono
    intro _ d' hbetween'
    exact mirrors_ret hbetween'

/-- All operations but a reception go the same way with and without interrupts. -/
theorem mirrors_perform (hmode : e.mode = .poll) (hbetween : d.Between late) {operation : Operation}
    (horderly : (Event.operate operation).Orderly)
    (hother : ∀ buffer, operation ≠ .receive buffer) :
    Mirrors lines (e.perform bound operation).2 (e.interrupting.perform bound' operation).2 d
      fun _ d' => d'.Between (late + e.overruns d operation) := by
  cases operation with
  | initialise readLength => exact mirrors_initialise hmode hbetween readLength
  | send buffer => exact mirrors_send hmode hbetween buffer
  | sendSplit payload => exact mirrors_sendSplit hmode hbetween payload
  | receive buffer => exact absurd rfl (hother buffer)
  | shows channel flag =>
    apply Mirrors.bind
    apply mirrors_readStatus channel
    exact mirrors_ret hbetween
  | acknowledge channel => exact horderly.elim
  | statuses =>
    apply Mirrors.bind
    apply mirrors_readStatus .mm2s
    apply Mirrors.bind
    apply mirrors_readStatus .s2mm
    exact mirrors_ret hbetween
  | report channel =>
    apply Mirrors.bind
    apply Mirrors.bind
    apply mirrors_readStatus channel
    exact mirrors_ret (mirrors_ret hbetween)
  | reset =>
    apply mirrors_writeBoth
    · intro channel
      cases channel <;> rfl
    · exact hbetween.writeReset
  | halt =>
    apply mirrors_writeBoth
    · intro channel
      cases channel <;> rfl
    · exact (hbetween.writeHalt .s2mm).writeHalt .mm2s
  | setTimeout timeout => exact mirrors_ret hbetween

end Operations

end Engine

namespace Session

open Engine

/-- What an event does to a session, and the answer to it. -/
def undergo (s : Session Loopback) : Event → Answer × Session Loopback
  | .operate operation => s.perform operation
  | .stall stalled => (.done, { s with link := s.link.setStalled stalled })

/-- The answers to events one after the other. -/
def undergoAll (s : Session Loopback) : List Event → List Answer × Session Loopback
  | [] => ([], s)
  | event :: rest =>
    match s.undergo event with
    | (answer, s) =>
      match s.undergoAll rest with
      | (answers, s) => (answer :: answers, s)

/-- The counts that an event leaves over. -/
def overruns (s : Session Loopback) : Event → Nat
  | .operate operation => s.engine.overruns s.link operation
  | .stall _ => 0

/-- Whether an event is a reception that times out. -/
def timesOut (s : Session Loopback) : Event → Bool
  | .operate (.receive buffer) =>
    (s.link.run (s.engine.receive s.link.chunkBound buffer)).1.timedOut
  | _ => false

/-- Whether no reception times out once a count has been left over, if `late` are at the start. -/
def timely (late : Nat) (s : Session Loopback) : List Event → Bool
  | [] => true
  | event :: rest =>
    let late := late + s.overruns event
    (!s.timesOut event || late == 0) && timely late (s.undergo event).2 rest

/-- A session without interrupts and one with them that have gone the same way so far. -/
structure Parallel (lines : Option Interrupt.Lines) (g : Geometry) (late : Nat)
    (s t : Session Loopback) : Prop where
  engine : t.engine = s.engine.interrupting
  mode : s.engine.mode = .poll
  accepted : s.engine.Accepted g
  link : s.link = t.link.polled lines
  between : t.link.Between late

variable {lines : Option Interrupt.Lines} {g : Geometry} {late : Nat} {s t : Session Loopback}

theorem perform_eq_run (s : Session Loopback) (operation : Operation) :
    s.perform operation =
      ((s.link.run (s.engine.perform s.link.chunkBound operation).2).1,
        ⟨(s.engine.perform s.link.chunkBound operation).1,
          (s.link.run (s.engine.perform s.link.chunkBound operation).2).2⟩) := rfl

/-- Sessions that run in parallel give the same answer to an operation whose programs are mirrored,
    and stay in parallel. -/
theorem Parallel.perform_of_mirrors (hparallel : Parallel lines g late s t) {late' : Nat}
    {operation : Operation}
    (hmirrors : Mirrors lines (s.engine.perform s.link.chunkBound operation).2
      (t.engine.perform t.link.chunkBound operation).2 t.link fun _ d' => d'.Between late') :
    (s.perform operation).1 = (t.perform operation).1 ∧
      Parallel lines g late' (s.perform operation).2 (t.perform operation).2 := by
  obtain ⟨hrun, hbetween⟩ := hmirrors
  rw [← hparallel.link] at hrun
  rw [perform_eq_run, perform_eq_run, hrun]
  refine ⟨rfl, ?_, ?_, hparallel.accepted.perform _ operation, rfl, hbetween⟩
  · rw [hparallel.engine]
    exact s.engine.perform_interrupting _ _ operation
  · exact (s.engine.perform_mode _ operation).trans hparallel.mode

/-- One event: the answers are the same and the sessions go on alike, or a reception times out in
    the one and not in the other. -/
inductive Fares (lines : Option Interrupt.Lines) (g : Geometry) (late : Nat)
    (s t : Session Loopback) (event : Event) : Prop where
  | alike (htimely : s.timesOut event = true → late = 0)
      (hanswer : (s.undergo event).1 = (t.undergo event).1)
      (hparallel : Parallel lines g late (s.undergo event).2 (t.undergo event).2)
  | apart (htimeout : s.timesOut event = true) (hlate : 0 < late)
      (hdiffers : (s.undergo event).1 ≠ (t.undergo event).1)

theorem Parallel.overruns_eq (hparallel : Parallel lines g late s t) (operation : Operation) :
    s.overruns (.operate operation) = s.engine.overruns t.link operation := by
  rw [overruns, hparallel.link, overruns_polled]

theorem timesOut_of_ne_receive {operation : Operation}
    (hother : ∀ buffer, operation ≠ .receive buffer) :
    s.timesOut (.operate operation) = false := by
  cases operation with
  | receive buffer => exact absurd rfl (hother buffer)
  | _ => rfl

/-- Any operation but a reception keeps two sessions in parallel. -/
theorem Parallel.perform (hparallel : Parallel lines g late s t) {operation : Operation}
    (horderly : (Event.operate operation).Orderly)
    (hother : ∀ buffer, operation ≠ .receive buffer) :
    Fares lines g (late + s.overruns (.operate operation)) s t (.operate operation) := by
  have hmirrors : Mirrors lines (s.engine.perform s.link.chunkBound operation).2
      (s.engine.interrupting.perform t.link.chunkBound operation).2 t.link _ :=
    mirrors_perform hparallel.mode hparallel.between horderly hother
  rw [← hparallel.engine] at hmirrors
  obtain ⟨hanswer, hparallel'⟩ := hparallel.perform_of_mirrors hmirrors
  rw [hparallel.overruns_eq]
  refine .alike ?_ hanswer hparallel'
  intro htimeout
  rw [timesOut_of_ne_receive hother] at htimeout
  exact nomatch htimeout

/-- A reception keeps two sessions in parallel, or tells them apart by a timeout. -/
theorem Parallel.receive (hparallel : Parallel lines g late s t) (buffer : List UInt64) :
    Fares lines g (late + s.overruns (.operate (.receive buffer))) s t
      (.operate (.receive buffer)) := by
  have hpositive := hparallel.accepted.destination.positive
  have hchunk : 0 < (UInt32.ofNat s.engine.chunkBytes).toNat / wordBytes := by
    rw [Layout.toNat_ofNat_of_le hparallel.accepted.chunk_le, chunkBytes,
      Nat.mul_div_cancel _ (by decide)]
    exact hpositive
  have hbound : t.link.stream.size + 2 < s.link.chunkBound := by
    rw [hparallel.link, chunkBound, show (t.link.polled lines).stream = t.link.stream from rfl]
    omega
  have hbound' : t.link.stream.size + 2 < t.link.chunkBound := by
    rw [chunkBound]
    omega
  have hfares : Engine.Fares lines _ (s.engine.receive s.link.chunkBound buffer)
      (s.engine.interrupting.receive t.link.chunkBound buffer) t.link :=
    fares_receive hparallel.mode hchunk hpositive hparallel.between hbound hbound' buffer
  rw [← hparallel.engine] at hfares
  rw [hparallel.overruns_eq]
  cases hfares with
  | alike htimely hmirrors =>
    rw [← hparallel.link] at htimely
    have hmirrors' : Mirrors lines (s.engine.perform s.link.chunkBound (.receive buffer)).2
        (t.engine.perform t.link.chunkBound (.receive buffer)).2 t.link fun _ d' =>
          d'.Between (late + s.engine.overruns t.link (.receive buffer)) := by
      apply Mirrors.bind
      apply hmirrors.mono
      intro _ d' hbetween
      exact mirrors_ret hbetween
    obtain ⟨hanswer, hparallel'⟩ := hparallel.perform_of_mirrors hmirrors'
    exact .alike htimely hanswer hparallel'
  | apart htimeout hlate hdiffers =>
    rw [← hparallel.link] at htimeout hdiffers
    refine .apart htimeout hlate fun hsame => hdiffers ?_
    have hreceive (s : Session Loopback) : (s.perform (.receive buffer)).1 =
        .received (s.link.run (s.engine.receive s.link.chunkBound buffer)).1 :=
      congrArg Prod.fst (perform_receive s.engine s.link buffer)
    exact Answer.received.inj ((hreceive s).symm.trans (hsame.trans (hreceive t)))

/-- Any orderly event keeps two sessions in parallel, or tells them apart by a timeout. -/
theorem Parallel.undergo (hparallel : Parallel lines g late s t) {event : Event}
    (horderly : event.Orderly) : Fares lines g (late + s.overruns event) s t event := by
  cases event with
  | stall stalled =>
    refine .alike (fun htimeout => nomatch htimeout) rfl ?_
    refine ⟨hparallel.engine, hparallel.mode, hparallel.accepted, ?_,
      hparallel.between.setStalled stalled⟩
    rw [Session.undergo, hparallel.link]
    exact (setStalled_polled lines t.link stalled).symm
  | operate operation =>
    by_cases hreceive : ∃ buffer, operation = .receive buffer
    · obtain ⟨buffer, rfl⟩ := hreceive
      exact hparallel.receive buffer
    · exact hparallel.perform horderly fun buffer hsame => hreceive ⟨buffer, hsame⟩

/-- The sessions go the same way through all events if no reception times out late, and otherwise
    differ in an answer. -/
theorem Parallel.undergoAll (hparallel : Parallel lines g late s t) {events : List Event}
    (horderly : ∀ event ∈ events, event.Orderly) :
    ((s.undergoAll events).1 = (t.undergoAll events).1 ↔ s.timely late events = true) ∧
      (s.timely late events = true →
        (s.undergoAll events).2.link = (t.undergoAll events).2.link.polled lines) := by
  induction events generalizing late s t with
  | nil => exact ⟨iff_of_true rfl rfl, fun _ => hparallel.link⟩
  | cons event rest ih =>
    have hevent := horderly event (List.mem_cons_self ..)
    have hrest : ∀ event ∈ rest, event.Orderly :=
      fun event hmem => horderly event (List.mem_cons_of_mem _ hmem)
    simp only [Session.undergoAll, timely, Bool.and_eq_true, Bool.or_eq_true, Bool.not_eq_true',
      beq_iff_eq, List.cons.injEq]
    -- Nothing is said of the sessions once they are apart: the answers differ already.
    cases hparallel.undergo hevent with
    | alike htimely hanswer hparallel' =>
      obtain ⟨hanswers, hlink⟩ := ih hparallel' hrest
      have hnow : s.timesOut event = false ∨ late + s.overruns event = 0 := by
        cases hout : s.timesOut event with
        | false => exact .inl rfl
        | true => exact .inr (htimely hout)
      exact ⟨⟨fun h => ⟨hnow, hanswers.1 h.2⟩, fun h => ⟨hanswer, hanswers.2 h.2⟩⟩,
        fun h => hlink h.2⟩
    | apart htimeout hlate hdiffers =>
      have hnot : ¬(s.timesOut event = false ∨ late + s.overruns event = 0) := by
        rintro (hout | hnone)
        · rw [htimeout] at hout
          exact nomatch hout
        · exact absurd hnone (Nat.ne_of_gt hlate)
      exact ⟨⟨fun h => absurd h.1 hdiffers, fun h => absurd h.1 hnot⟩, fun h => absurd h.1 hnot⟩

theorem between_create (sourceWords destinationWords : Nat) :
    (Loopback.create sourceWords destinationWords (some {})).Between 0 := by
  have hstatus (channel : Channel) :
      (Loopback.create sourceWords destinationWords (some {})).status channel = Status.halted := by
    cases channel <;> rfl
  have hdone (channel : Channel) :
      (Loopback.create sourceWords destinationWords (some {})).done channel = false := by
    rw [done, hstatus]
    decide
  have hport (channel : Channel) :
      ((Loopback.create sourceWords destinationWords (some {})).port channel).Owes 0 := by
    refine ⟨fun hrunning => ?_, [], ?_⟩
    · have hhalted : (!Status.isHalted Status.halted) = true := by
        rw [← hstatus channel]
        exact hrunning
      exact absurd hhalted (by decide)
    · have hnone : Status.isDone ((Loopback.create sourceWords destinationWords (some {})).port
          channel).status = false := hdone channel
      rw [hnone]
      cases channel <;> rfl
  exact ⟨⟨hport .mm2s, hport .s2mm⟩, fun _ => rfl, hdone .mm2s⟩

/-- On two devices of the same geometry, one without interrupts and one with them, the same events
    come to the same answers exactly if no reception times out after a count has been left over. The
    devices have then taken in the same, and been written the same but for the run words. -/
theorem undergoAll_interrupt {sourceWords destinationWords burstWords : Nat} {e e' : Engine}
    (hpoll : Engine.create .poll
      ((Loopback.create sourceWords destinationWords none).geometry burstWords) = .ok e)
    (hinterrupt : Engine.create .interrupt
      ((Loopback.create sourceWords destinationWords (some {})).geometry burstWords) = .ok e')
    {events : List Event} (horderly : ∀ event ∈ events, event.Orderly) :
    let polling : Session Loopback := ⟨e, Loopback.create sourceWords destinationWords none⟩
    let interrupted : Session Loopback :=
      ⟨e', Loopback.create sourceWords destinationWords (some {})⟩
    ((polling.undergoAll events).1 = (interrupted.undergoAll events).1 ↔
        polling.timely 0 events = true) ∧
      (polling.timely 0 events = true →
        let one := (polling.undergoAll events).2.link
        let other := (interrupted.undergoAll events).2.link
        one.received = other.received ∧ one.tags = other.tags ∧
          one.writes = other.writes.map RegisterWrite.polled) := by
  intro polling interrupted
  have hengine : e' = e.interrupting := by
    rw [create_interrupt] at hinterrupt
    have hcreated : Except.map interrupting (Except.ok e : Except Fault Engine) = .ok e' := by
      rw [← hpoll]
      exact hinterrupt
    exact (Except.ok.inj hcreated).symm
  have hparallel : Parallel none _ 0 polling interrupted :=
    ⟨hengine, (create_eq_ok hpoll).1, accepted_create hpoll,
      (polled_create none sourceWords destinationWords (some {})).symm,
      between_create sourceWords destinationWords⟩
  obtain ⟨hanswers, hlink⟩ := hparallel.undergoAll horderly
  refine ⟨hanswers, fun htimely => ?_⟩
  rw [hlink htimely]
  exact ⟨rfl, rfl, rfl⟩

/-- A reception that times out, a payload that completes its chunk, and a reset. -/
def lateEvents : List Event :=
  [.operate (.initialise 1024), .operate (.receive []), .operate (.sendSplit [1]), .operate .reset,
    .operate (.initialise 1024), .operate (.receive [])]

/-- An interrupt that is left over after a reset tells the two modes apart. -/
theorem undergoAll_interrupt_reset :
    ∃ e e', Engine.create .poll ((Loopback.create 6 256 none).geometry 2) = .ok e ∧
      Engine.create .interrupt ((Loopback.create 6 256 (some {})).geometry 2) = .ok e' ∧
      (undergoAll ⟨e, Loopback.create 6 256 none⟩ lateEvents).1 ≠
        (undergoAll ⟨e', Loopback.create 6 256 (some {})⟩ lateEvents).1 ∧
      (undergoAll ⟨e, Loopback.create 6 256 none⟩ (lateEvents.take 5)).1 =
        (undergoAll ⟨e', Loopback.create 6 256 (some {})⟩ (lateEvents.take 5)).1 := by
  have hpoll := create_small .poll
  have hinterrupt := create_small .interrupt
  rw [← geometry_create 6 256 2 none] at hpoll
  rw [← geometry_create 6 256 2 (some {})] at hinterrupt
  refine ⟨_, _, hpoll, hinterrupt, ?_, ?_⟩
  · intro hsame
    have htimely :=
      (undergoAll_interrupt hpoll hinterrupt (by simp [lateEvents, Event.Orderly])).1.1 hsame
    exact absurd htimely (by decide +kernel)
  · apply (undergoAll_interrupt hpoll hinterrupt (by simp [lateEvents, Event.Orderly])).1.2
    decide +kernel

end Session

end DmaLink
