import DmaLink.Proofs.Loopback.Exchange

namespace DmaLink.Loopback

variable {α β : Type}

/-- Whose turn it is. -/
inductive Side where
  | writer
  | reader
deriving DecidableEq, Repr

/-- A device with a program at work on either half. -/
structure Duplex (α β : Type) where
  writer : Proc Link.io α
  reader : Proc Link.io β
  link : Loopback

/-- One turn of a program: it makes its next access. A wait that finds nothing yet goes on waiting,
    and a program that is over does nothing. -/
def turn (d : Loopback) : Proc Link.io α → Proc Link.io α × Loopback
  | .ret result => (.ret result, d)
  | .act access next =>
    if d.blocks access then (.act access next, d)
    else
      match d.answer access with
      | (reply, d) => (next reply, d)

/-- A wait that finds nothing yet goes on waiting. -/
theorem turn_of_blocks {d : Loopback} {access : Link.Access}
    (hblocks : d.blocks access = true) (next : access.Reply → Proc Link.io α) :
    turn d (.act access next) = (.act access next, d) :=
  if_pos hblocks

theorem turn_of_ready {d : Loopback} {access : Link.Access}
    (hready : d.blocks access = false) (next : access.Reply → Proc Link.io α) :
    turn d (.act access next) = (next (d.answer access).1, (d.answer access).2) :=
  if_neg (ne_true_of_eq_false hready)

namespace Duplex

def step (s : Duplex α β) : Side → Duplex α β
  | .writer =>
    match turn s.link s.writer with
    | (writer, link) => { s with writer, link }
  | .reader =>
    match turn s.link s.reader with
    | (reader, link) => { s with reader, link }

/-- The state after the first turns of a schedule. -/
def after (s : Duplex α β) (turns : Nat → Side) : Nat → Duplex α β
  | 0 => s
  | count + 1 => (s.after turns count).step (turns count)

/-- The writer is on its way to give `coming` over; the reader, since its last access, has not
    heard of the bursts `passed`. -/
def Coupled (post : α → Outbound → Prop) (post' : β → Inbound → List Burst → Prop)
    (s : Duplex α β) : Prop :=
  ∃ (i : Inbound) (passed coming : List Burst),
    s.link.stalled = false ∧ s.link.inbound = i.pushAll passed ∧
      Sends post s.writer s.link.outbound coming ∧ Receives post' s.reader i (passed ++ coming)

section Invariant

variable {post : α → Outbound → Prop} {post' : β → Inbound → List Burst → Prop}
  {s : Duplex α β}

/-- The writer never waits; its turn gives over the first of what is to come. -/
theorem turn_writer {access : Link.Access} {next : access.Reply → Proc Link.io α}
    {o : Outbound} {coming : List Burst} {d : Loopback} (hstalled : d.stalled = false)
    (ho : d.outbound = o) (hsends : Sends post (.act access next) o coming) :
    ∃ now later, coming = now ++ later ∧ turn d (.act access next) =
        (next (d.answer access).1, (d.answer access).2) ∧
      d.Emits now (d.answer access).2 ∧
      Sends post (next (d.answer access).1) (d.answer access).2.outbound later := by
  obtain ⟨reply, o', now, later, hcoming, hstep, hnext⟩ := hsends
  obtain ⟨hready, rfl, rfl, hemits⟩ := hstep d hstalled ho
  exact ⟨now, later, hcoming, turn_of_ready hready next, hemits, hnext⟩

/-- The reader's turn waits with more to come, or goes through with all that has come over so far.
    -/
theorem turn_reader {access : Link.Access} {next : access.Reply → Proc Link.io β}
    {i : Inbound} {passed coming : List Burst} {d : Loopback} (hstalled : d.stalled = false)
    (hi : d.inbound = i.pushAll passed)
    (hreceives : Receives post' (.act access next) i (passed ++ coming)) :
    (turn d (.act access next) = (.act access next, d) ∧ coming ≠ []) ∨
      turn d (.act access next) = (next (d.answer access).1, (d.answer access).2) ∧
        d.KeepsOutbound (d.answer access).2 ∧
        Receives post' (next (d.answer access).1) (d.answer access).2.inbound coming := by
  have hnow := hreceives passed.length
  rw [List.take_left, List.drop_left] at hnow
  rcases hnow with ⟨hblocks, hmore⟩ | ⟨reply, i', hstep, hnext⟩
  · exact .inl ⟨turn_of_blocks (hblocks d hi) next, hmore⟩
  · obtain ⟨hready, rfl, rfl, hkeeps⟩ := hstep d hstalled hi
    exact .inr ⟨turn_of_ready hready next, hkeeps, hnext⟩

/-- Whoever's turn it is, both sides stay on their way. -/
theorem Coupled.step (h : s.Coupled post post') (side : Side) :
    (s.step side).Coupled post post' := by
  obtain ⟨writer, reader, d⟩ := s
  obtain ⟨i, passed, coming, hstalled, hi, hsends, hreceives⟩ := h
  cases side with
  | writer =>
    cases writer with
    | ret result => exact ⟨i, passed, coming, hstalled, hi, hsends, hreceives⟩
    | act access next =>
      -- What the writer gives over has passed the reader without its hearing of it.
      obtain ⟨now, later, rfl, hturn, hemits, hnext⟩ := turn_writer hstalled rfl hsends
      simp only [Duplex.step, hturn]
      refine ⟨i, passed ++ now, later, hemits.stalled.trans hstalled, ?_, hnext, ?_⟩
      · rw [hemits.inbound, hi, Inbound.pushAll_append]
      · rw [List.append_assoc]
        exact hreceives
  | reader =>
    cases reader with
    | ret result => exact ⟨i, passed, coming, hstalled, hi, hsends, hreceives⟩
    | act access next =>
      rcases turn_reader hstalled hi hreceives with ⟨hturn, -⟩ | ⟨hturn, hkeeps, hnext⟩
      · simp only [Duplex.step, hturn]
        exact ⟨i, passed, coming, hstalled, hi, hsends, hreceives⟩
      · simp only [Duplex.step, hturn]
        refine ⟨_, [], coming, hkeeps.stalled.trans hstalled, rfl, ?_, hnext⟩
        rw [hkeeps.outbound]
        exact hsends

/-- However many turns there have been, both sides are still on their way. -/
theorem Coupled.after (h : s.Coupled post post') (turns : Nat → Side) (count : Nat) :
    (s.after turns count).Coupled post post' := by
  induction count with
  | zero => exact h
  | succ count ih => exact ih.step (turns count)

theorem Coupled.writer_over (h : s.Coupled post post') {result : α}
    (hover : s.writer = .ret result) : post result s.link.outbound := by
  obtain ⟨-, -, coming, -, -, hsends, -⟩ := h
  rw [hover] at hsends
  exact hsends.2

theorem Coupled.reader_over (h : s.Coupled post post') {result : β}
    (hover : s.reader = .ret result) :
    ∃ i bursts, post' result i bursts := by
  obtain ⟨i, passed, coming, -, -, -, hreceives⟩ := h
  rw [hover] at hreceives
  exact ⟨i, passed ++ coming, hreceives⟩

end Invariant

section Fairness

variable {post : α → Outbound → Prop} {post' : β → Inbound → List Burst → Prop}
  {s : Duplex α β} {turns : Nat → Side}

/-- A schedule that gives each side turns again and again. -/
def Fair (turns : Nat → Side) : Prop := ∀ side count, ∃ later ≥ count, turns later = side

/-- What only turns of one side change is still the same at the next turn of that side. -/
theorem exists_turn (hfair : Fair turns) {γ : Type} (part : Duplex α β → γ) (side : Side)
    (hpart : ∀ s : Duplex α β, ∀ other ≠ side, part (s.step other) = part s) (count : Nat) :
    ∃ later ≥ count, turns later = side ∧
      part (s.after turns later) = part (s.after turns count) := by
  obtain ⟨later, hlater, hside⟩ := hfair side count
  -- By induction on how far off a turn of that side is; an earlier one may come first.
  obtain ⟨distance, rfl⟩ := Nat.exists_eq_add_of_le hlater
  induction distance generalizing count with
  | zero => exact ⟨count, Nat.le_refl count, hside, rfl⟩
  | succ distance ih =>
    by_cases hnow : turns count = side
    · exact ⟨count, Nat.le_refl count, hnow, rfl⟩
    · obtain ⟨later, hlater, hside', hsame⟩ := ih (count + 1) (Nat.le_add_right _ _)
        (by rw [← hside]; congr 1; omega)
      exact ⟨later, by omega, hside', hsame.trans (hpart _ _ hnow)⟩

/-- The writer comes to its end, whatever the reader does. -/
theorem exists_writer_over (h : s.Coupled post post') (hfair : Fair turns) (count : Nat) :
    ∃ later ≥ count, ∃ result, (s.after turns later).writer = .ret result := by
  induction hwriter : (s.after turns count).writer generalizing count with
  | ret result => exact ⟨count, Nat.le_refl count, result, hwriter⟩
  | act access next ih =>
    obtain ⟨now, hnow, hturn, hsame⟩ := exists_turn (s := s) hfair Duplex.writer .writer
      (fun s other hother => by cases other <;> trivial) count
    rw [hwriter] at hsame
    obtain ⟨i, passed, coming, hstalled, hi, hsends, -⟩ := h.after turns now
    rw [hsame] at hsends
    obtain ⟨-, -, -, hstep, -, -⟩ := turn_writer hstalled rfl hsends
    have hnext : (s.after turns (now + 1)).writer =
        next ((s.after turns now).link.answer access).1 := by
      simp only [after, hturn, step, hsame, hstep]
    obtain ⟨later, hlater, hover⟩ := ih _ (now + 1) hnext
    exact ⟨later, by omega, hover⟩

theorem writer_after_over {count : Nat} {result : α}
    (hover : (s.after turns count).writer = .ret result) {later : Nat} (hlater : count ≤ later) :
    (s.after turns later).writer = .ret result := by
  induction hlater with
  | refl => exact hover
  | @step later _ ih =>
    simp only [after]
    cases turns later with
    | writer => simp only [step, ih, turn]
    | reader => exact ih

/-- Once the writer is over, nothing is still to come over, so the reader need not wait again. -/
theorem exists_reader_over (h : s.Coupled post post') (hfair : Fair turns) {count : Nat}
    {result : α} (hover : (s.after turns count).writer = .ret result) :
    ∃ later ≥ count, ∃ result, (s.after turns later).reader = .ret result := by
  induction hreader : (s.after turns count).reader generalizing count with
  | ret result => exact ⟨count, Nat.le_refl count, result, hreader⟩
  | act access next ih =>
    obtain ⟨now, hnow, hturn, hsame⟩ := exists_turn (s := s) hfair Duplex.reader .reader
      (fun s other hother => by cases other <;> trivial) count
    rw [hreader] at hsame
    have hover' := writer_after_over hover hnow
    obtain ⟨i, passed, coming, hstalled, hi, hsends, hreceives⟩ := h.after turns now
    rw [hover'] at hsends
    rw [hsame] at hreceives
    obtain ⟨rfl, -⟩ := hsends
    rcases turn_reader hstalled hi hreceives with ⟨-, hmore⟩ | ⟨hstep, -, -⟩
    · exact absurd rfl hmore
    · have hnext : (s.after turns (now + 1)).reader =
          next ((s.after turns now).link.answer access).1 := by
        simp only [after, hturn, step, hsame, hstep]
      obtain ⟨later, hlater, hends⟩ :=
        ih _ (writer_after_over hover' (Nat.le_add_right now 1)) hnext
      exact ⟨later, by omega, hends⟩

/-- Under a fair schedule both programs end. -/
theorem Coupled.exists_over (h : s.Coupled post post') (hfair : Fair turns) :
    ∃ count result result', (s.after turns count).writer = .ret result ∧
      (s.after turns count).reader = .ret result' := by
  obtain ⟨count, -, result, hover⟩ := exists_writer_over h hfair 0
  obtain ⟨later, hlater, result', hends⟩ := exists_reader_over h hfair hover
  exact ⟨later, result, result', writer_after_over hover hlater, hends⟩

end Fairness

end Duplex

end DmaLink.Loopback
