import DmaLink.Layer.Reader

namespace DmaLink.Layer

namespace Source

/-- The bytes of a source that can be read before it fails. -/
def readable (s : Source) : List UInt8 :=
  match s.failure with
  | none => s.bytes
  | some (place, _) => s.bytes.take (place - s.position)

/-- How the source fails behind its readable bytes, if it does not end there. -/
def cut (s : Source) : Option Failure :=
  s.failure.bind fun (place, failure) =>
    if place ≤ s.position + s.bytes.length then some failure else none

/-- The source `s'` is what is left of `s` once its next `count` bytes have been read. -/
structure Advances (s s' : Source) (count : Nat) : Prop where
  failure_eq : s'.failure = s.failure
  cut_eq : s'.cut = s.cut
  readable_eq : s'.readable = s.readable.drop count
  position_eq : s'.position = s.position + count

/-- A source that never fails hands out every byte it holds. -/
theorem readable_of_failure_none {s : Source} (hfailure : s.failure = none) :
    s.readable = s.bytes := by
  simp only [readable, hfailure]

theorem Advances.trans {s s' s'' : Source} {count count' : Nat} (hfirst : s.Advances s' count)
    (hsecond : s'.Advances s'' count') : s.Advances s'' (count + count') where
  failure_eq := hsecond.failure_eq.trans hfirst.failure_eq
  cut_eq := hsecond.cut_eq.trans hfirst.cut_eq
  readable_eq := by rw [hsecond.readable_eq, hfirst.readable_eq, List.drop_drop]
  position_eq := by rw [hsecond.position_eq, hfirst.position_eq, Nat.add_assoc]

theorem Advances.failure_none {s s' : Source} {count : Nat} (hadvances : s.Advances s' count)
    (hfailure : s.failure = none) : s'.failure = none :=
  hadvances.failure_eq.trans hfailure

theorem Advances.bytes_eq {s s' : Source} {count : Nat} (hadvances : s.Advances s' count)
    (hfailure : s.failure = none) : s'.bytes = s.bytes.drop count := by
  have hreadable := hadvances.readable_eq
  rwa [readable_of_failure_none hfailure,
    readable_of_failure_none (hadvances.failure_none hfailure)] at hreadable

theorem Advances.length_eq {s s' : Source} {count : Nat} (hadvances : s.Advances s' count)
    (hfailure : s.failure = none) : s'.bytes.length = s.bytes.length - count := by
  rw [hadvances.bytes_eq hfailure, List.length_drop]

/-- A source that differs only in the calls that were made. -/
theorem advances_zero (s : Source) (calls : Nat) : s.Advances { s with calls } 0 :=
  ⟨rfl, rfl, rfl, rfl⟩

/-- Handing out the front of what can be read is a step of the source. -/
theorem advances_drop (s : Source) {count : Nat} (hcount : count ≤ s.readable.length) :
    s.Advances { s with bytes := s.bytes.drop count, position := s.position + count } count := by
  obtain ⟨bytes, position, chunk, shortfall, every, failure, calls, hevery⟩ := s
  cases failure with
  | none => exact ⟨rfl, rfl, rfl, rfl⟩
  | some failure =>
    obtain ⟨place, cause⟩ := failure
    simp only [readable, List.length_take] at hcount
    refine ⟨rfl, ?_, ?_, rfl⟩
    · simp only [cut, Option.bind_some, List.length_drop]
      congr 1
      simp only [eq_iff_iff]
      omega
    · simp only [readable, List.drop_take]
      congr 1
      omega

/-- What a call hands out stood at the front of the readable bytes; it hands out nothing only if
    there are none left. -/
def Hands (s : Source) (want : Nat) : Delivery → Source → Prop
  | .bytes first rest, s' =>
    rest.length < want ∧ s.readable = first :: rest ++ s'.readable ∧
      s.Advances s' (rest.length + 1)
  | .ended, s' => s.readable = [] ∧ s.cut = none ∧ s.Advances s' 0
  | .failed failure, s' => s.readable = [] ∧ s.cut = some failure ∧ s.Advances s' 0

/-- What is handed out after a delay would have been handed out without it. -/
theorem Hands.of_advances {s s' : Source} (hskip : s.Advances s' 0) {want : Nat}
    {delivery : Delivery} {s'' : Source} (hhands : s'.Hands want delivery s'') :
    s.Hands want delivery s'' := by
  have hreadable : s'.readable = s.readable := hskip.readable_eq
  cases delivery with
  | bytes first rest =>
    obtain ⟨hlength, hfront, hadvances⟩ := hhands
    refine ⟨hlength, hreadable.symm.trans hfront, ?_⟩
    simpa only [Nat.zero_add] using hskip.trans hadvances
  | ended =>
    obtain ⟨hnil, hcut, hadvances⟩ := hhands
    exact ⟨hreadable.symm.trans hnil, hskip.cut_eq.symm.trans hcut, hskip.trans hadvances⟩
  | failed cause =>
    obtain ⟨hnil, hcut, hadvances⟩ := hhands
    exact ⟨hreadable.symm.trans hnil, hskip.cut_eq.symm.trans hcut, hskip.trans hadvances⟩

/-- A source that has not come to its failure may hand out a byte, and none past the failure. -/
theorem room_spec {s : Source} (hfailure : s.failure? = none) {want : Nat} (hwant : 0 < want) :
    0 < s.room want ∧ s.room want ≤ want ∧
      s.bytes.take (s.room want) = s.readable.take (s.room want) := by
  cases hplace : s.failure with
  | none =>
    simp only [room, readable, hplace, Option.map_none, Option.getD_none, and_true]
    omega
  | some failure =>
    obtain ⟨place, cause⟩ := failure
    have hahead : s.position < place := by
      simpa [failure?, hplace] using hfailure
    simp only [room, readable, hplace, Option.map_some, Option.getD_some, List.take_take]
    refine ⟨by omega, by omega, ?_⟩
    congr 1
    omega

/-- At its failure a source has nothing more to read and is cut there. -/
theorem readable_of_failed {s : Source} {failure : Failure}
    (hfailure : s.failure? = some failure) : s.readable = [] ∧ s.cut = some failure := by
  simp only [failure?, Option.bind_eq_some_iff, Option.ite_none_right_eq_some] at hfailure
  obtain ⟨⟨place, _⟩, hplace, hle, hcause⟩ := hfailure
  obtain rfl := Option.some.inj hcause
  refine ⟨?_, ?_⟩
  · simp only [readable, hplace]
    rw [Nat.sub_eq_zero_of_le hle, List.take_zero]
  · simp only [cut, hplace, Option.bind_some]
    exact if_pos (Nat.le_add_right_of_le hle)

/-- At its end a source that does not fail has nothing more to read and is not cut. -/
theorem readable_of_ended {s : Source} (hfailure : s.failure? = none) (hbytes : s.bytes = []) :
    s.readable = [] ∧ s.cut = none := by
  cases hplace : s.failure with
  | none => simp [readable, cut, hplace, hbytes]
  | some failure =>
    obtain ⟨place, cause⟩ := failure
    have hahead : s.position < place := by
      simpa [failure?, hplace] using hfailure
    simp [readable, cut, hplace, hbytes, hahead]

/-- One read hands out the front of what can be read, or fails or ends with nothing left. -/
theorem hands_deliver (s : Source) {want : Nat} (hwant : 0 < want) :
    s.Hands want (s.deliver want).1 (s.deliver want).2 := by
  have hskip := s.advances_zero (s.calls + 1)
  unfold deliver
  extract_lets called
  refine Hands.of_advances hskip ?_
  change called.Hands want _ _
  clear_value called
  split
  case h_1 cause hfailure =>
    obtain ⟨hnil, hcut⟩ := readable_of_failed hfailure
    exact ⟨hnil, hcut, called.advances_zero called.calls⟩
  case h_2 room _ hfailure =>
    obtain ⟨hpositive, hle, htake⟩ : 0 < room ∧ room ≤ want ∧
      called.bytes.take room = called.readable.take room := room_spec hfailure hwant
    clear_value room
    split
    case h_1 hnone =>
      have hbytes : called.bytes = [] := (List.take_eq_nil_iff.1 hnone).resolve_left (by omega)
      obtain ⟨hnil, hcut⟩ := readable_of_ended hfailure hbytes
      exact ⟨hnil, hcut, called.advances_zero called.calls⟩
    case h_2 first rest hfront =>
      have hlength : rest.length < room := by
        have hshort := List.length_take_le room called.bytes
        rw [hfront, List.length_cons] at hshort
        exact hshort
      have hbytes : first :: rest <+: called.bytes := hfront ▸ List.take_prefix room called.bytes
      have hreadable : first :: rest <+: called.readable :=
        htake.symm.trans hfront ▸ List.take_prefix room called.readable
      -- A call that hands out fewer bytes than it may hands out all that there are.
      have hdrop : called.bytes.drop room = called.bytes.drop (rest.length + 1) := by
        refine (List.append_right_inj (first :: rest)).1 ?_
        rw [← List.length_cons, List.prefix_iff_eq_append.1 hbytes, ← hfront,
          List.take_append_drop]
      have hadvances := called.advances_drop hreadable.length_le
      rw [List.length_cons, ← hdrop] at hadvances
      refine ⟨Nat.lt_of_lt_of_le hlength hle, ?_, hadvances⟩
      rw [hadvances.readable_eq]
      exact (List.prefix_iff_eq_append.1 hreadable).symm

/-- The same once the interruptions on the way have been retried. -/
theorem hands_pull (s : Source) {want : Nat} (hwant : 0 < want) :
    s.Hands want (s.pull want).1 (s.pull want).2 := by
  unfold pull
  split
  · exact Hands.of_advances (s.advances_zero (s.calls + 1)) (hands_deliver s.skipCall hwant)
  · exact hands_deliver s hwant

/-- What taking a fixed number of bytes comes to, before a reader says what that means. -/
inductive Filling where
  | full (bytes : List UInt8)
  /-- The source ended after so many bytes. -/
  | ended (count : Nat)
  | failed (failure : Failure)

/-- Takes `need` bytes behind those of `before`, with the calls that either reader of tokens makes.
    -/
def fill (need : Nat) (before : List UInt8) (s : Source) : Filling × Source :=
  match need with
  | 0 => (.full before, s)
  | need + 1 =>
    match s.pull (need + 1) with
    | (.bytes first rest, s) => fill (need - rest.length) (before ++ first :: rest) s
    | (.ended, s) => (.ended before.length, s)
    | (.failed failure, s) => (.failed failure, s)
termination_by need

/-- However a source hands out its bytes, reading takes them off its front, and what reading comes
    to when there are too few is told by the failure behind them. -/
theorem fill_spec (need : Nat) (before : List UInt8) (s : Source) :
    (s.fill need before).1 =
        (if need ≤ s.readable.length then .full (before ++ s.readable.take need)
          else s.cut.elim (.ended (before.length + s.readable.length)) .failed) ∧
      s.Advances (s.fill need before).2 (min need s.readable.length) := by
  fun_induction fill need before s with
  | case1 before s => simpa using s.advances_zero s.calls
  | case2 before s need first rest s' hpull ih =>
    have hhands := hands_pull s (Nat.zero_lt_succ need)
    rw [hpull] at hhands
    obtain ⟨hlength, hfront, hadvances⟩ := hhands
    obtain ⟨hresult, hlater⟩ := ih
    have hle : rest.length ≤ need := Nat.le_of_lt_succ hlength
    have hcount : s.readable.length = rest.length + 1 + s'.readable.length := by
      rw [hfront, List.length_append, List.length_cons]
    refine ⟨?_, ?_⟩
    · rw [hresult, hadvances.cut_eq, hfront]
      simp only [List.cons_append, List.length_cons, List.length_append, List.take_succ_cons,
        List.take_append, List.take_of_length_le hle, List.append_assoc]
      by_cases hfits : need - rest.length ≤ s'.readable.length
      · rw [if_pos hfits, if_pos (by omega)]
      · rw [if_neg hfits, if_neg (by omega)]
        congr 2
        omega
    · have htaken : rest.length + 1 + min (need - rest.length) s'.readable.length =
          min (need + 1) s.readable.length := by omega
      rw [← htaken]
      exact hadvances.trans hlater
  | case3 before s need s' hpull =>
    have hhands := hands_pull s (Nat.zero_lt_succ need)
    rw [hpull] at hhands
    obtain ⟨hnil, hcut, hadvances⟩ := hhands
    simpa [hnil, hcut] using hadvances
  | case4 before s need cause s' hpull =>
    have hhands := hands_pull s (Nat.zero_lt_succ need)
    rw [hpull] at hhands
    obtain ⟨hnil, hcut, hadvances⟩ := hhands
    simpa [hnil, hcut] using hadvances

/-- What the bytes taken are to a reader of a fixed number of them. -/
def Filling.exact : Filling → Except Failure (List UInt8)
  | .full bytes => .ok bytes
  | .ended _ => .error .tooFew
  | .failed failure => .error failure

/-- Reading exactly so many bytes is filling the buffer, with every short end an error. -/
theorem readExact_eq_fill (need : Nat) (before : List UInt8) (s : Source) :
    s.readExact need before = ((s.fill need before).1.exact, (s.fill need before).2) := by
  fun_induction fill need before s with
  | case1 before s => rw [readExact]; rfl
  | case2 before s need first rest s' hpull ih =>
    rw [readExact, hpull]
    exact ih
  | case3 before s need s' hpull => rw [readExact, hpull]; rfl
  | case4 before s need failure s' hpull => rw [readExact, hpull]; rfl

end Source

open Source

/-- What the bytes taken are to the reader of the first token of a record. -/
def Source.Filling.first : Filling → Except LayerError (Option Int)
  | .full bytes => .ok (some (Bytes.toInt32 bytes))
  | .ended 0 => .ok none
  | .ended (_ + 1) => .error (.truncated (.header .layerType))
  | .failed failure => .error (.io failure.cause)

/-- What the bytes taken are to the reader of a later token. -/
def Source.Filling.later (field : Field) : Filling → Except LayerError Int
  | .full bytes => .ok (Bytes.toInt32 bytes)
  | .ended _ => .error (.truncated field)
  | .failed failure => .error (failure.inside field)

/-- The loop of the first token is filling its buffer, with an end before any byte apart. -/
theorem fillFirst_eq_fill (need : Nat) (before : List UInt8) (s : Source) :
    fillFirst need before s = ((s.fill need before).1.first, (s.fill need before).2) := by
  fun_induction fill need before s with
  | case1 before s => rw [fillFirst]; rfl
  | case2 before s need first rest s' hpull ih =>
    rw [fillFirst, hpull]
    exact ih
  | case3 before s need s' hpull =>
    rw [fillFirst, hpull]
    cases before <;> rfl
  | case4 before s need failure s' hpull => rw [fillFirst, hpull]; rfl

theorem firstToken_eq_fill (s : Source) :
    firstToken s = ((s.fill tokenBytes []).1.first, (s.fill tokenBytes []).2) :=
  fillFirst_eq_fill tokenBytes [] s

theorem token_eq_fill (field : Field) (s : Source) :
    token field s =
      ((s.fill tokenBytes []).1.later field, (s.fill tokenBytes []).2) := by
  rw [token, readExact_eq_fill]
  cases (s.fill tokenBytes []).1 <;> rfl

/-- The reader of the first token takes the same bytes as the reader of a later one, and gives the
    same token or error, save in two cases. A source that ends before the first byte has no more
    records for the one, where the other is cut short. A source that fails as if its bytes had ended
    is cut short for the other, where the one reports the failure. -/
theorem firstToken_eq_token (s : Source) :
    (firstToken s).2 = (token (.header .layerType) s).2 ∧
      ((firstToken s).1 = (token (.header .layerType) s).1.map some ∨
        (s.readable = [] ∧ s.cut = none ∧ (firstToken s).1 = .ok none ∧
          (token (.header .layerType) s).1 = .error (.truncated (.header .layerType))) ∨
        ∃ cause, s.readable.length < tokenBytes ∧ s.cut = some ⟨.unexpectedEnd, cause⟩ ∧
          (firstToken s).1 = .error (.io cause) ∧
          (token (.header .layerType) s).1 = .error (.truncated (.header .layerType))) := by
  obtain ⟨hresult, -⟩ := fill_spec tokenBytes [] s
  rw [firstToken_eq_fill, token_eq_fill]
  refine ⟨rfl, ?_⟩
  by_cases hfits : tokenBytes ≤ s.readable.length
  · rw [if_pos hfits] at hresult
    rw [hresult]
    exact .inl rfl
  rw [if_neg hfits, List.length_nil, Nat.zero_add] at hresult
  rw [hresult]
  have hshort := Nat.not_le.1 hfits
  cases hcut : s.cut with
  | none =>
    cases hreadable : s.readable with
    | nil => exact .inr (.inl ⟨rfl, rfl, rfl, rfl⟩)
    | cons first rest => exact .inl rfl
  | some failure =>
    obtain ⟨_ | _, cause⟩ := failure
    · exact .inr (.inr ⟨cause, hshort, rfl, rfl, rfl⟩)
    · exact .inl rfl

end DmaLink.Layer
