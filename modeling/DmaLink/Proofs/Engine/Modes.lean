import DmaLink.Proofs.Engine.Programming
import DmaLink.Proofs.Loopback.Mirror

namespace DmaLink

/-- Whether a reception ended in a timeout. -/
def Reception.timedOut (reception : Reception) : Bool :=
  match reception.ending with
  | .failed cause => cause.isTimeout
  | _ => false

namespace Engine

open Loopback

variable {lines : Option Interrupt.Lines} {e : Engine} {d : Loopback} {late : Nat}

/-- The same engine, waiting for interrupts. -/
def interrupting (e : Engine) : Engine := { e with mode := .interrupt }

section Sending

theorem mirrors_launch (channel : Channel) (address : UInt32) (bytes : Nat) :
    Mirrors lines (launch channel address bytes) (launch channel address bytes) d fun _ d' =>
      d' = (d.write channel.address address).write channel.length (UInt32.ofNat bytes) := by
  apply Mirrors.bind
  apply mirrors_write (Control.polledAt_address channel address)
  exact mirrors_write (Control.polledAt_length channel _) rfl

/-- A burst that is launched and waited for is mirrored. -/
theorem mirrors_launch_await (hbetween : d.Between late) (address : UInt32) (bytes limit : Nat) :
    Mirrors lines
      (do
        launch .mm2s address bytes
        Completion.await .poll .mm2s limit)
      (do
        launch .mm2s address bytes
        Completion.await .interrupt .mm2s limit) d fun _ d' => d'.Between late := by
  apply Mirrors.bind
  apply (mirrors_launch .mm2s address bytes).mono
  rintro _ d' rfl
  obtain ⟨howing, hfresh⟩ := (hbetween.writeAddress .mm2s address).writeLength (UInt32.ofNat bytes)
  exact mirrors_await_mm2s howing hfresh limit

theorem mirrors_sendWords (hmode : e.mode = .poll) (hbetween : d.Between late)
    (words : List UInt64) :
    Mirrors lines (e.sendWords words) (e.interrupting.sendWords words) d fun _ d' =>
      d'.Between late := by
  unfold sendWords
  rw [hmode]
  apply Mirrors.bind
  apply (mirrors_onWindow .mm2s _ d).mono
  rintro (cause | _) _ ⟨source, destination, rfl⟩
  · exact mirrors_ret (hbetween.withWindows source destination)
  · apply Mirrors.bind
    apply (mirrors_launch .mm2s _ _).mono
    rintro _ d' rfl
    obtain ⟨howing, hfresh⟩ :=
      ((hbetween.withWindows source destination).writeAddress .mm2s _).writeLength _
    apply Mirrors.bind
    apply (mirrors_await_mm2s howing hfresh _).mono
    rintro (cause | _) d' hbetween' <;> exact mirrors_ret hbetween'

theorem mirrors_sendBurst (hmode : e.mode = .poll) (hbetween : d.Between late) (half : Half)
    (words : List UInt64) (mode : OperatingMode) :
    Mirrors lines (e.sendBurst half words mode) (e.interrupting.sendBurst half words mode) d
      fun _ d' => d'.Between late := by
  unfold sendBurst
  rw [hmode]
  apply Mirrors.bind
  apply (mirrors_onWindow .mm2s _ d).mono
  rintro (cause | staged) _ ⟨source, destination, rfl⟩
  · exact mirrors_ret (hbetween.withWindows source destination)
  · exact mirrors_launch_await (hbetween.withWindows source destination) _ _ _

/-- A row of bursts is mirrored, wherever it stops. -/
theorem mirrors_sendBursts (hmode : e.mode = .poll) (hbetween : d.Between late) (half : Half)
    (ws : List (List UInt64)) :
    Mirrors lines (e.sendBursts half ws) (e.interrupting.sendBursts half ws) d fun _ d' =>
      d'.Between late := by
  induction ws generalizing d half with
  | nil => exact mirrors_ret hbetween
  | cons words rest ih =>
    apply Mirrors.bind
    apply (mirrors_sendBurst hmode hbetween half words _).mono
    rintro (cause | _) d' hbetween'
    · exact mirrors_ret hbetween'
    · exact ih hbetween' half.other

/-- The start of both channels is mirrored. -/
theorem mirrors_start (hmode : e.mode = .poll) (hbetween : d.Between late) :
    Mirrors lines e.start e.interrupting.start d fun _ d' => d'.Between late := by
  have hrun (channel : Channel) : Control.polledAt channel.control SyncMode.interrupt.runWord =
      SyncMode.poll.runWord :=
    (Control.polledAt_control channel _).trans (SyncMode.polled_runWord .interrupt)
  unfold start
  rw [hmode]
  apply Mirrors.bind
  apply mirrors_write (Control.polledAt_address .mm2s _)
  apply Mirrors.bind
  apply mirrors_write (hrun .mm2s)
  apply Mirrors.bind
  apply (mirrors_sendWords hmode ((hbetween.writeAddress .mm2s _).writeRun .mm2s) _).mono
  rintro (cause | _) d' hbetween'
  · exact mirrors_ret hbetween'
  · apply Mirrors.bind
    apply mirrors_write (hrun .s2mm)
    exact mirrors_ret (hbetween'.writeRun .s2mm)

end Sending

section Receiving

/-- A device within a reception. -/
structure Within (d : Loopback) (late total : Nat) : Prop where
  owing : d.Owing late
  quiet : d.done .mm2s = false
  supply_le : d.supply ≤ total

variable {total : Nat}

theorem Within.between (hwithin : Within d late total)
    (hdone : d.done .s2mm = false) : d.Between late :=
  ⟨hwithin.owing, fresh_of_not_done hdone, hwithin.quiet⟩

/-- Whether a chunk that was armed on a device in state `d` has been completed already in state `d'`
    although the last one had not been acknowledged. -/
def overtaken (d d' : Loopback) : Bool :=
  d.done .s2mm && d'.armed.isNone && d'.running .s2mm

/-- The state in which a chunk is armed, with its address and length written. -/
theorem launched_spec (d : Loopback) (address length : UInt32) :
    ((d.write Channel.s2mm.address address).withLength .s2mm length).port .s2mm =
        { d.port .s2mm with address } ∧
      AgreesBut .s2mm d ((d.write Channel.s2mm.address address).withLength .s2mm length) := by
  obtain ⟨-, -, hport, hagrees⟩ :=
    (Port.answers_writeAddress address : Port.Answers .s2mm _ _ _ _) d rfl
  exact ⟨(port_withLength _ .s2mm length).trans hport,
    hagrees.trans (agreesBut_withLength _ .s2mm length)⟩

/-- Arming a half is mirrored, but for a chunk that it may overtake. -/
theorem mirrors_arm (hwithin : Within d late total)
    (hchunk : 0 < (UInt32.ofNat e.chunkBytes).toNat / wordBytes) (half : Half) :
    Mirrors lines (e.arm half) (e.interrupting.arm half) d fun _ d' =>
      Within d' (late + (overtaken d d').toNat) total := by
  have hlaunch : Mirrors lines (e.arm half) (e.interrupting.arm half) d fun _ d' => d' =
      ((d.write Channel.s2mm.address (e.destination.address half)).withLength .s2mm
        (UInt32.ofNat e.chunkBytes)).arm (UInt32.ofNat e.chunkBytes).toNat :=
    mirrors_launch .s2mm (e.destination.address half) e.chunkBytes
  apply hlaunch.mono
  rintro _ d' rfl
  obtain ⟨hport, hagrees⟩ :=
    launched_spec d (e.destination.address half) (UInt32.ofNat e.chunkBytes)
  generalize (d.write Channel.s2mm.address (e.destination.address half)).withLength .s2mm
    (UInt32.ofNat e.chunkBytes) = d' at hport hagrees
  have hdone : d'.done .s2mm = d.done .s2mm :=
    congrArg (fun p : Port => Status.isDone p.status) hport
  have howing : d'.Owing late := by
    refine hwithin.owing.of_receiving hagrees ?_
    rw [hport]
    exact hwithin.owing.receiving.withAddress _
  have harmed := howing.arm (UInt32.ofNat e.chunkBytes).toNat
  rw [hdone] at harmed
  refine ⟨harmed, ?_, ?_⟩
  · have hsending := (port_arm d' (UInt32.ofNat e.chunkBytes).toNat).trans
      (hagrees.port .mm2s (by decide))
    rw [done_eq_of_port hsending]
    exact hwithin.quiet
  · have hsupply : d'.supply = d.supply := by
      rw [supply, hagrees.stream, hagrees.layerComplete, hdone, supply]
    refine Nat.le_trans (supply_arm_le hchunk) ?_
    rw [hsupply]
    exact hwithin.supply_le

/-- A chunk that is shown as finished is acknowledged in either way. -/
theorem mirrors_await_s2mm (hwithin : Within d late total)
    (hdone : d.done .s2mm = true) (limit : Nat) :
    Mirrors lines (Completion.await .poll .s2mm limit) (Completion.await .interrupt .s2mm limit) d
      fun result d' => result = .ok () ∧ Within d' late (total - 1) ∧ d'.done .s2mm = false := by
  apply (mirrors_await_of_done hwithin.owing.receiving hdone limit).mono
  rintro result d' ⟨hresult, howes, hdone', hagrees⟩
  have hsupply := hwithin.supply_le
  refine ⟨hresult, ⟨hwithin.owing.of_receiving hagrees howes, ?_, ?_⟩, hdone'⟩
  · rw [done_eq_of_port (hagrees.port .mm2s (by decide))]
    exact hwithin.quiet
  · simp only [supply, hdone, hdone', hagrees.stream, hagrees.layerComplete] at hsupply ⊢
    simp only [Bool.toNat_true, Bool.toNat_false] at hsupply ⊢
    omega

/-- Takes the words of a chunk out of its half, and its last word first. -/
def loadChunk (e : Engine) (half : Half) :
    Proc Link.io (Except LinkError (UInt64 × List UInt64)) := do
  match ← Proc.onWindow .s2mm (e.destination.last half) with
  | .error cause => return .error cause
  | .ok last =>
    match ← Proc.onWindow .s2mm (e.destination.drain half) with
    | .error cause => return .error cause
    | .ok words => return .ok (last, words.toList)

theorem takeChunk_eq (e : Engine) (half : Half) :
    e.takeChunk half = (do
      match ← Completion.await e.mode .s2mm e.limit with
      | .error cause => return .error cause
      | .ok () => e.loadChunk half) := rfl

/-- The last word and the words of a half, as they stand in a window. -/
def chunkIn (s : Split) (w : Window) (half : Half) : Except LinkError (UInt64 × List UInt64) := do
  let last ← w.load (s.offset half + s.halfWords - 1) 1
  let words ← w.load (s.offset half) s.halfWords
  return (Window.only last, words.toList)

/-- Loading a chunk reads the destination window and changes nothing. -/
theorem run_loadChunk (e : Engine) (half : Half) (d : Loopback) :
    d.run (e.loadChunk half) = (chunkIn e.destination d.destination half, d) := by
  have hloaded (start len : Nat) :
      d.run (Proc.onWindow .s2mm (Proc.perform (I := Window.io) (.load start len))) =
        (d.destination.load start len, d) := rfl
  have hdrain : d.run (Proc.onWindow .s2mm (e.destination.drain half)) =
      (d.destination.load (e.destination.offset half) e.destination.halfWords, d) := rfl
  have hlast : d.run (Proc.onWindow .s2mm (e.destination.last half)) =
      ((d.destination.load (e.destination.offset half + e.destination.halfWords - 1) 1).map
        Window.only, d) := by
    rw [Split.last, Proc.onWindow_bind, run_bind, hloaded]
    cases d.destination.load (e.destination.offset half + e.destination.halfWords - 1) 1 <;> rfl
  rw [loadChunk, run_bind, hlast, chunkIn]
  cases d.destination.load (e.destination.offset half + e.destination.halfWords - 1) 1 with
  | error cause => rfl
  | ok last =>
    refine (run_bind d _ _).trans ?_
    rw [hdrain]
    cases d.destination.load (e.destination.offset half) e.destination.halfWords <;> rfl

theorem isTimeout_of_load_eq_error {w : Window} {start len : Nat} {cause : LinkError}
    (hload : w.load start len = .error cause) : cause.isTimeout = false := by
  unfold Window.load at hload
  split at hload
  · exact nomatch hload
  · rw [← Except.error.inj hload]
    rfl

/-- A chunk that cannot be loaded is no timeout. -/
theorem isTimeout_of_chunkIn_eq_error {s : Split} {w : Window} {half : Half} {cause : LinkError}
    (hchunk : chunkIn s w half = .error cause) : cause.isTimeout = false := by
  unfold chunkIn at hchunk
  cases hlast : w.load (s.offset half + s.halfWords - 1) 1 with
  | error cause' =>
    rw [hlast] at hchunk
    rw [← Except.error.inj hchunk]
    exact isTimeout_of_load_eq_error hlast
  | ok last =>
    rw [hlast] at hchunk
    cases hwords : w.load (s.offset half) s.halfWords with
    | error cause' =>
      simp only [hwords] at hchunk
      rw [← Except.error.inj hchunk]
      exact isTimeout_of_load_eq_error hwords
    | ok words =>
      simp only [hwords] at hchunk
      exact nomatch hchunk

theorem length_of_chunkIn_eq_ok {s : Split} {w : Window} {half : Half}
    {chunk : UInt64 × List UInt64} (hchunk : chunkIn s w half = .ok chunk) :
    chunk.2.length = s.halfWords := by
  obtain ⟨last, -, hchunk⟩ := bind_eq_ok_iff.1 hchunk
  obtain ⟨words, -, hchunk⟩ := bind_eq_ok_iff.1 hchunk
  rw [← Except.ok.inj hchunk]
  exact Vector.length_toList

theorem length_drained (buffer words : List UInt64) (before : List (List UInt64)) :
    (buffer ++ (words :: before).reverse.flatten).length =
      (buffer ++ before.reverse.flatten).length + words.length := by
  simp only [List.reverse_cons, List.flatten_append, List.length_append, List.flatten_cons,
    List.flatten_nil, List.append_nil, Nat.add_assoc]

/-- A reception keeps what the buffer held and what it has drained so far. -/
theorem length_le_receiveChunks (e : Engine) (d : Loopback) (buffer : List UInt64) (bound : Nat)
    (half : Half) (before : List (List UInt64)) :
    (buffer ++ before.reverse.flatten).length ≤
      (d.run (e.receiveChunks buffer bound half before)).1.buffer.length := by
  induction bound generalizing d half before with
  | zero => exact Nat.le_refl _
  | succ bound ih =>
    rw [receiveChunks, run_bind]
    cases (d.run (e.takeChunk half)).1 with
    | error cause => exact Nat.le_refl _
    | ok chunk =>
      have hmore : (buffer ++ before.reverse.flatten).length ≤
          (buffer ++ (chunk.2 :: before).reverse.flatten).length := by
        rw [length_drained]
        exact Nat.le_add_right _ _
      simp only
      split
      · exact hmore
      · rw [run_bind]
        exact Nat.le_trans hmore (ih _ half.other (chunk.2 :: before))

/-- A wait that ends by a count that is left over makes the reception another one than a timeout:
    it takes a chunk, or the window refuses it. -/
theorem receiveChunks_of_await {bound : Nat} {half : Half} {before : List (List UInt64)}
    {buffer : List UInt64} {cause : LinkError} (hpositive : 0 < e.destination.halfWords)
    (hawait : (d.run (Completion.await e.mode .s2mm e.limit)).1 = .ok ())
    (hcause : cause.isTimeout = true) :
    (d.run (e.receiveChunks buffer (bound + 1) half before)).1 ≠
      ⟨buffer ++ before.reverse.flatten, .failed cause⟩ := by
  rw [receiveChunks, run_bind, takeChunk_eq, run_bind, hawait]
  simp only [run_loadChunk]
  intro hsame
  -- What the window refuses is no timeout, and a chunk that is taken makes the buffer longer.
  cases hchunk : chunkIn e.destination
      (d.run (Completion.await e.mode .s2mm e.limit)).2.destination half with
  | error cause' =>
    rw [hchunk] at hsame
    injection hsame with _ hending
    have hother := isTimeout_of_chunkIn_eq_error hchunk
    rw [Reception.Ending.failed.inj hending, hcause] at hother
    exact nomatch hother
  | ok chunk =>
    rw [hchunk] at hsame
    have hwords := length_of_chunkIn_eq_ok hchunk
    have hlonger := length_drained buffer chunk.2 before
    have hlength := congrArg (fun r : Reception => r.buffer.length) hsame
    simp only at hlength
    split at hlength
    · have hlength' : (buffer ++ (chunk.2 :: before).reverse.flatten).length =
          (buffer ++ before.reverse.flatten).length := hlength
      omega
    · rw [run_bind] at hlength
      have hle := e.length_le_receiveChunks
        ((d.run (Completion.await e.mode .s2mm e.limit)).2.run (e.arm half.other)).2 buffer bound
        half.other (chunk.2 :: before)
      omega

/-- A reception without interrupts and one with them, on a device with `late` counts left over: they
    come to the same, or the one times out where a count that is left over ends the wait of the
    other. -/
inductive Fares (lines : Option Interrupt.Lines) (late : Nat) (p q : Proc Link.io Reception)
    (d : Loopback) : Prop where
  | alike (htimely : ((d.polled lines).run p).1.timedOut = true → late = 0)
      (hmirrors : Mirrors lines p q d fun _ d' => d'.Between late)
  | apart (htimeout : ((d.polled lines).run p).1.timedOut = true) (hlate : 0 < late)
      (hdiffers : ((d.polled lines).run p).1 ≠ (d.run q).1)

/-- Mirrored programs that go on alike fare alike. -/
theorem Fares.bind {α : Type} {p q : Proc Link.io α} {f f' : α → Proc Link.io Reception}
    (hmirrors : Mirrors lines p q d fun result d' => Fares lines late (f result) (f' result) d') :
    Fares lines late (p >>= f) (q >>= f') d := by
  obtain ⟨hrun, hrest⟩ := hmirrors
  have hfirst : (d.polled lines).run (p >>= f) =
      (((d.run q).2.polled lines).run (f (d.run q).1)) := by
    rw [run_bind, hrun]
  cases hrest with
  | alike htimely hmirrors =>
    refine .alike ?_ ?_
    · rw [hfirst]
      exact htimely
    · rw [Mirrors, hfirst, run_bind]
      exact hmirrors
  | apart htimeout hlate hdiffers =>
    refine .apart ?_ hlate ?_
    · rw [hfirst]
      exact htimeout
    · rw [hfirst, run_bind]
      exact hdiffers

theorem fares_ret {reception : Reception} (hending : reception.timedOut = false)
    (hbetween : d.Between late) :
    Fares lines late (.ret reception) (.ret reception) d := by
  refine .alike ?_ (mirrors_ret hbetween)
  intro htimeout
  rw [show ((d.polled lines).run (.ret reception)).1 = reception from rfl, hending] at htimeout
  exact nomatch htimeout

/-- A chunk that has been completed is taken alike in both modes. -/
theorem mirrors_takeChunk_of_done (hmode : e.mode = .poll) (hwithin : Within d late total)
    (hdone : d.done .s2mm = true) (half : Half) :
    Mirrors lines (e.takeChunk half) (e.interrupting.takeChunk half) d fun result d' =>
      (∀ cause, result = .error cause → cause.isTimeout = false) ∧ Within d' late (total - 1) ∧
        d'.done .s2mm = false := by
  rw [takeChunk_eq, takeChunk_eq, hmode]
  apply Mirrors.bind
  apply (mirrors_await_s2mm hwithin hdone _).mono
  rintro _ d' ⟨rfl, hwithin', hdone'⟩
  have hload : d'.run (e.interrupting.loadChunk half) =
      (chunkIn e.destination d'.destination half, d') := run_loadChunk e.interrupting half d'
  rw [Mirrors, run_loadChunk, hload]
  exact ⟨rfl, fun _ => isTimeout_of_chunkIn_eq_error, hwithin', hdone'⟩

/-- With no interrupt left over, a chunk that is not completed times out in both modes. -/
theorem mirrors_takeChunk_of_not_done (hmode : e.mode = .poll) (hwithin : Within d 0 total)
    (hdone : d.done .s2mm = false) (half : Half) :
    Mirrors lines (e.takeChunk half) (e.interrupting.takeChunk half) d fun result d' =>
      result = .error (.channelTimeout .s2mm e.limit) ∧ d'.Between 0 := by
  rw [takeChunk_eq, takeChunk_eq, hmode]
  apply Mirrors.bind
  apply (mirrors_await_of_not_done hwithin.owing.receiving hdone _).mono
  rintro _ _ ⟨rfl, rfl⟩
  exact mirrors_ret ⟨rfl, hwithin.between hdone⟩

/-- A count that is left over ends a wait that would time out. -/
theorem receiveChunks_apart (hmode : e.mode = .poll) (hpositive : 0 < e.destination.halfWords)
    (hwithin : Within d (late + 1) total) (hdone : d.done .s2mm = false) {bound bound' : Nat}
    (half : Half) (before : List (List UInt64)) (buffer : List UInt64) :
    Fares lines (late + 1) (e.receiveChunks buffer (bound + 1) half before)
      (e.interrupting.receiveChunks buffer (bound' + 1) half before) d := by
  obtain ⟨hpoll, hinterrupt⟩ : (d.polled lines).run _ = _ ∧ _ :=
    await_of_late hwithin.owing.receiving hdone e.limit
  have hfirst : (d.polled lines).run (e.receiveChunks buffer (bound + 1) half before) =
      (⟨buffer ++ before.reverse.flatten, .failed (.channelTimeout .s2mm e.limit)⟩,
        d.polled lines) := by
    rw [receiveChunks, takeChunk_eq, hmode, run_bind, run_bind, hpoll]
    rfl
  refine .apart ?_ (Nat.succ_pos late) ?_
  · rw [hfirst]
    rfl
  · rw [hfirst]
    have htimeout : (LinkError.channelTimeout .s2mm e.limit).isTimeout = true := rfl
    exact (receiveChunks_of_await (e := e.interrupting) hpositive hinterrupt htimeout).symm

/-- As long as there are more chunks to be taken than can come, the bound does not end a
    reception. -/
theorem fares_receiveChunks (hmode : e.mode = .poll)
    (hchunk : 0 < (UInt32.ofNat e.chunkBytes).toNat / wordBytes)
    (hpositive : 0 < e.destination.halfWords) {bound bound' : Nat} {half : Half}
    {before : List (List UInt64)} {buffer : List UInt64} (hwithin : Within d late total)
    (hbound : total < bound) (hbound' : total < bound') :
    Fares lines late (e.receiveChunks buffer bound half before)
      (e.interrupting.receiveChunks buffer bound' half before) d := by
  -- Every chunk that is taken lowers the supply by one, so both bounds outlast it.
  induction bound generalizing d half before bound' total with
  | zero => exact absurd hbound (Nat.not_lt_zero _)
  | succ bound ih =>
    obtain ⟨bound', rfl⟩ : ∃ less, bound' = less + 1 :=
      ⟨bound' - 1, (Nat.succ_pred_eq_of_pos (Nat.zero_lt_of_lt hbound')).symm⟩
    cases hdone : d.done .s2mm with
    | true =>
      have hsome : 0 < total := by
        have hsupply := hwithin.supply_le
        rw [supply, hdone, Bool.toNat_true] at hsupply
        omega
      apply Fares.bind
      apply (mirrors_takeChunk_of_done hmode hwithin hdone half).mono
      rintro (cause | ⟨last, words⟩) d' ⟨hcause, hwithin', hdone'⟩
      · exact fares_ret (hcause cause rfl) (hwithin'.between hdone')
      · simp only
        split
        · exact fares_ret rfl (hwithin'.between hdone')
        · apply Fares.bind
          apply (mirrors_arm hwithin' hchunk half.other).mono
          intro _ d'' harmed
          rw [overtaken, hdone'] at harmed
          exact ih harmed (by omega) (by omega)
    | false =>
      cases late with
      | zero =>
        refine .alike (fun _ => rfl) ?_
        apply Mirrors.bind
        apply (mirrors_takeChunk_of_not_done hmode hwithin hdone half).mono
        rintro _ d' ⟨rfl, hbetween⟩
        exact mirrors_ret hbetween
      | succ late => exact receiveChunks_apart hmode hpositive hwithin hdone half before buffer

/-- The counts that an operation leaves over besides those that are left over already. -/
def overruns (e : Engine) (d : Loopback) : Operation → Nat
  | .reset => (d.done .s2mm).toNat
  | .receive _ => (overtaken d (d.run (e.arm .a)).2).toNat
  | _ => 0

theorem overtaken_polled (d d' : Loopback) :
    overtaken (d.polled lines) (d'.polled lines) = overtaken d d' := by
  rw [overtaken, done_polled, running_polled, overtaken]
  rfl

theorem overruns_polled (e : Engine) (d : Loopback) (operation : Operation) :
    e.overruns (d.polled lines) operation = e.overruns d operation := by
  cases operation with
  | receive buffer =>
    have harm : Mirrors lines (e.arm .a) (e.arm .a) d fun _ d' => _ :=
      mirrors_launch .s2mm (e.destination.address .a) e.chunkBytes
    have hstate : ((d.polled lines).run (e.arm .a)).2 = (d.run (e.arm .a)).2.polled lines :=
      congrArg Prod.snd harm.1
    rw [overruns, hstate, overtaken_polled, overruns]
  | reset => exact congrArg Bool.toNat (done_polled d .s2mm)
  | _ => rfl

/-- A reception fares alike in both modes, as far as no chunk is overtaken. -/
theorem fares_receive (hmode : e.mode = .poll)
    (hchunk : 0 < (UInt32.ofNat e.chunkBytes).toNat / wordBytes)
    (hpositive : 0 < e.destination.halfWords) (hbetween : d.Between late) {bound bound' : Nat}
    (hbound : d.stream.size + 2 < bound) (hbound' : d.stream.size + 2 < bound')
    (buffer : List UInt64) :
    Fares lines (late + e.overruns d (.receive buffer)) (e.receive bound buffer)
      (e.interrupting.receive bound' buffer) d := by
  have hsupply : d.supply ≤ d.stream.size + 2 := by
    have hclosed := Bool.toNat_le d.layerComplete
    have hshown := Bool.toNat_le (d.done .s2mm)
    rw [supply]
    omega
  have hwithin : Within d late (d.stream.size + 2) := ⟨hbetween.owing, hbetween.quiet, hsupply⟩
  obtain ⟨harmed, hwithin⟩ : Mirrors lines _ _ d _ := mirrors_arm hwithin hchunk .a
  apply Fares.bind
  exact ⟨harmed, fares_receiveChunks hmode hchunk hpositive hwithin hbound hbound'⟩

end Receiving

end Engine

end DmaLink
