import DmaLink.Bytes
import DmaLink.Fault

namespace DmaLink.Layer

/-- The kinds of failure that a reader of records tells apart. -/
inductive FailureKind where
  /-- There are no more bytes where some were asked for. -/
  | unexpectedEnd
  | other
deriving DecidableEq, Repr

/-- How a source fails. -/
structure Failure where
  kind : FailureKind
  cause : TransportFault
deriving DecidableEq, Repr

/-- The failure to hand out as many bytes as were asked for. -/
def Failure.tooFew : Failure := ⟨.unexpectedEnd, .stated "failed to fill whole buffer"⟩

/-- A source of bytes. -/
structure Source where
  /-- The bytes not handed out yet. -/
  bytes : List UInt8
  /-- How many bytes have been handed out. -/
  position : Nat := 0
  /-- The most bytes handed out by one call, if there is a bound. -/
  chunk : Option Nat := none
  /-- By how many bytes each call falls short of the most that it may hand out. A call that may hand
      out any hands out one all the same. -/
  shortfall : Nat → Nat := fun _ => 0
  /-- Every how many calls one is interrupted; zero if none is. -/
  interruptEvery : Nat := 0
  /-- Where the source fails, and how, if it does. -/
  failure : Option (Nat × Failure) := none
  /-- How many calls have been made. -/
  calls : Nat := 0
  /-- An interrupted call can be made again: not every call is interrupted. -/
  interruptEvery_ne : interruptEvery ≠ 1 := by decide

namespace Source

/-- The source that hands out bytes in one piece. -/
def ofBytes (bytes : List UInt8) : Source := { bytes }

/-- What a call hands out. -/
inductive Delivery where
  /-- At least one byte. -/
  | bytes (first : UInt8) (rest : List UInt8)
  | ended
  | failed (failure : Failure)
deriving DecidableEq, Repr

/-- Whether the next call is interrupted. -/
def interrupts (s : Source) : Bool :=
  s.interruptEvery ≠ 0 && (s.calls + 1) % s.interruptEvery == 0

/-- The source after an interrupted call, which hands out nothing. -/
def skipCall (s : Source) : Source := { s with calls := s.calls + 1 }

/-- How the source fails if it has reached the position where it does. -/
def failure? (s : Source) : Option Failure :=
  s.failure.bind fun (position, failure) => if position ≤ s.position then some failure else none

/-- The bytes that a call for `want` bytes hands out if there are as many: at least one, no more
    than a call's bound and none past the position of failure. -/
def room (s : Source) (want : Nat) : Nat :=
  let want := min want (max 1 (s.chunk.getD want))
  let most := min want ((s.failure.map fun (position, _) => position - s.position).getD want)
  min most (max 1 (most - s.shortfall s.calls))

/-- A call that is not interrupted, for `want` bytes. -/
def deliver (s : Source) (want : Nat) : Delivery × Source :=
  let s := { s with calls := s.calls + 1 }
  match s.failure? with
  | some failure => (.failed failure, s)
  | none =>
    let room := s.room want
    match s.bytes.take room with
    | [] => (.ended, s)
    | first :: rest =>
      (.bytes first rest,
        { s with bytes := s.bytes.drop room, position := s.position + (rest.length + 1) })

/-- A call for `want` bytes, made again if it is interrupted. -/
def pull (s : Source) (want : Nat) : Delivery × Source :=
  if s.interrupts then s.skipCall.deliver want else s.deliver want

/-- Reads exactly `need` bytes behind those of `before`. What there is is taken even if it is too
    little, which is then a failure of the same kind as one that the source may have of its own. -/
def readExact (need : Nat) (before : List UInt8) (s : Source) :
    Except Failure (List UInt8) × Source :=
  match need with
  | 0 => (.ok before, s)
  | need + 1 =>
    match s.pull (need + 1) with
    | (.bytes first rest, s) => readExact (need - rest.length) (before ++ first :: rest) s
    | (.ended, s) => (.error .tooFew, s)
    | (.failed failure, s) => (.error failure, s)
termination_by need

/-- A delivery takes what it hands out, and nothing else. -/
theorem length_deliver (s : Source) (want : Nat) :
    (s.deliver want).2.bytes.length ≤ s.bytes.length ∧
      ∀ first rest, (s.deliver want).1 = .bytes first rest →
        (s.deliver want).2.bytes.length + (rest.length + 1) = s.bytes.length := by
  simp only [deliver]
  split
  · exact ⟨Nat.le_refl _, by simp⟩
  · split
    · exact ⟨Nat.le_refl _, by simp⟩
    · next first rest htake =>
      have hlength := congrArg List.length htake
      simp only [List.length_take, List.length_cons] at hlength
      refine ⟨by simp, ?_⟩
      rintro first' rest' h
      obtain ⟨rfl, rfl⟩ : first = first' ∧ rest = rest' := by simpa using h
      simp only [List.length_drop]
      omega

/-- A pull takes what it hands out, and nothing else. -/
theorem length_pull (s : Source) (want : Nat) :
    (s.pull want).2.bytes.length ≤ s.bytes.length ∧
      ∀ first rest, (s.pull want).1 = .bytes first rest →
        (s.pull want).2.bytes.length + (rest.length + 1) = s.bytes.length := by
  unfold pull
  split
  · exact length_deliver s.skipCall want
  · exact length_deliver s want

theorem length_le_of_pull {s s' : Source} {want : Nat} {delivery : Delivery}
    (hpull : s.pull want = (delivery, s')) : s'.bytes.length ≤ s.bytes.length := by
  have hle := (length_pull s want).1
  rwa [hpull] at hle

/-- A pull that hands out bytes leaves fewer. -/
theorem length_lt_of_pull {s s' : Source} {want : Nat} {first : UInt8} {rest : List UInt8}
    (hpull : s.pull want = (.bytes first rest, s')) : s'.bytes.length < s.bytes.length := by
  have htaken := (length_pull s want).2 first rest
  rw [hpull] at htaken
  exact Nat.lt_of_lt_of_eq (Nat.lt_add_of_pos_right (Nat.zero_lt_succ _)) (htaken rfl)

/-- Reading never puts bytes back. -/
theorem length_readExact_le (need : Nat) (before : List UInt8) (s : Source) :
    (s.readExact need before).2.bytes.length ≤ s.bytes.length := by
  fun_induction readExact need before s with
  | case1 => exact Nat.le_refl _
  | case2 before s need first rest s' hpull ih => exact Nat.le_trans ih (length_le_of_pull hpull)
  | case3 before s need s' hpull => exact length_le_of_pull hpull
  | case4 before s need failure s' hpull => exact length_le_of_pull hpull

end Source

end DmaLink.Layer
