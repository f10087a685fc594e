import DmaLink.Proofs.Bytes
import DmaLink.Proofs.Layer.Filling

namespace DmaLink

namespace Bytes

/-- The numbers that have a 32-bit two's complement. -/
def FitsInt32 (value : Int) : Prop := -2147483648 ≤ value ∧ value < 2147483648

@[simp]
theorem length_ofInt32 (value : Int) : (ofInt32 value).length = 4 := length_ofNat 4 _

/-- A number within range survives being written and read. -/
theorem toInt32_ofInt32 {value : Int} (hvalue : FitsInt32 value) :
    toInt32 (ofInt32 value) = value := by
  obtain ⟨hlow, hhigh⟩ := hvalue
  have hnat : toNat (ofInt32 value) = (value % 4294967296).toNat := by
    rw [ofInt32, toNat_ofNat]
    exact Nat.mod_eq_of_lt (by omega)
  simp only [toInt32, hnat]
  split <;> omega

/-- Four bytes survive being read and written. -/
theorem ofInt32_toInt32 {bytes : List UInt8} (hlength : bytes.length = 4) :
    ofInt32 (toInt32 bytes) = bytes := by
  have hlt := toNat_lt bytes
  rw [hlength] at hlt
  have hvalue : (toInt32 bytes % 4294967296).toNat = toNat bytes := by
    simp only [toInt32]
    split <;> omega
  have hback := ofNat_toNat bytes
  rw [hlength] at hback
  rw [ofInt32, hvalue, hback]

/-- Four bytes stand for a number within range. -/
theorem fitsInt32_toInt32 {bytes : List UInt8} (hlength : bytes.length = 4) :
    FitsInt32 (toInt32 bytes) := by
  have hlt := toNat_lt bytes
  rw [hlength] at hlt
  simp only [FitsInt32, toInt32]
  split <;> omega

/-- The tokens that stand at the front of some bytes. -/
def int32s : (count : Nat) → List UInt8 → List Int
  | 0, _ => []
  | count + 1, bytes => toInt32 (bytes.take 4) :: int32s count (bytes.drop 4)

theorem length_int32s (count : Nat) (bytes : List UInt8) :
    (int32s count bytes).length = count := by
  induction count generalizing bytes with
  | zero => rfl
  | succ count ih => rw [int32s, List.length_cons, ih]

/-- The tokens at the front of some bytes fit in 32 bits, and their bytes stand there. -/
theorem int32s_spec {count : Nat} {bytes : List UInt8} (hlong : 4 * count ≤ bytes.length) :
    (∀ token ∈ int32s count bytes, FitsInt32 token) ∧
      (int32s count bytes).flatMap ofInt32 = bytes.take (4 * count) := by
  induction count generalizing bytes with
  | zero => simp [int32s]
  | succ count ih =>
    have hfirst : (bytes.take 4).length = 4 := by
      rw [List.length_take]
      omega
    have hrest : 4 * count ≤ (bytes.drop 4).length := by
      rw [List.length_drop]
      omega
    obtain ⟨hfits, hbytes⟩ := ih hrest
    refine ⟨?_, ?_⟩
    · intro token htoken
      rcases List.mem_cons.1 htoken with rfl | hmem
      · exact fitsInt32_toInt32 hfirst
      · exact hfits token hmem
    · have hcount : 4 * (count + 1) = 4 + 4 * count := by omega
      rw [int32s, List.flatMap_cons, ofInt32_toInt32 hfirst, hbytes, hcount, List.take_add]

/-- Tokens that fit in 32 bits are found again behind their bytes. -/
theorem int32s_flatMap {tokens : List Int} (hfits : ∀ token ∈ tokens, FitsInt32 token)
    (rest : List UInt8) : int32s tokens.length (tokens.flatMap ofInt32 ++ rest) = tokens := by
  induction tokens with
  | nil => rfl
  | cons token tokens ih =>
    rw [List.flatMap_cons, List.append_assoc, List.length_cons, int32s,
      List.take_left' (length_ofInt32 token), List.drop_left' (length_ofInt32 token),
      toInt32_ofInt32 (hfits token List.mem_cons_self),
      ih fun t ht => hfits t (List.mem_cons_of_mem _ ht)]

theorem length_flatMap_ofInt32 (tokens : List Int) :
    (tokens.flatMap ofInt32).length = 4 * tokens.length := by
  induction tokens with
  | nil => rfl
  | cons token tokens ih =>
    rw [List.flatMap_cons, List.length_append, length_ofInt32, ih, List.length_cons]
    omega

end Bytes

namespace Layer

open Source

variable {s s' : Source}

/-- With four bytes left a token's buffer is filled with them. -/
theorem fill_of_failure_none (hfailure : s.failure = none) (hlong : tokenBytes ≤ s.bytes.length) :
    ∃ s', s.fill tokenBytes [] = (.full (s.bytes.take 4), s') ∧ s.Advances s' 4 := by
  obtain ⟨hresult, hadvances⟩ := s.fill_spec tokenBytes []
  rw [readable_of_failure_none hfailure] at hresult hadvances
  rw [if_pos hlong] at hresult
  rw [Nat.min_eq_left hlong] at hadvances
  exact ⟨_, Prod.ext hresult rfl, hadvances⟩

/-- With fewer than four bytes left the buffer is never full, and all of them are taken. -/
theorem fill_of_short (hfailure : s.failure = none) (hshort : s.bytes.length < tokenBytes) :
    ∃ s', s.fill tokenBytes [] = (.ended s.bytes.length, s') ∧ s.Advances s' s.bytes.length := by
  obtain ⟨hresult, hadvances⟩ := s.fill_spec tokenBytes []
  have hcut : s.cut = none := by rw [cut, hfailure, Option.bind_none]
  rw [readable_of_failure_none hfailure] at hresult hadvances
  rw [if_neg (Nat.not_le.2 hshort), hcut, List.length_nil, Nat.zero_add] at hresult
  rw [Nat.min_eq_right (Nat.le_of_lt hshort)] at hadvances
  exact ⟨_, Prod.ext hresult rfl, hadvances⟩

/-- A token is read from a source that does not fail if its four bytes are there. -/
theorem exists_token_ok (field : Field) (hfailure : s.failure = none)
    (hlong : 4 ≤ s.bytes.length) :
    ∃ s', token field s = (.ok (Bytes.toInt32 (s.bytes.take 4)), s') ∧ s.Advances s' 4 := by
  obtain ⟨s', hfill, hadvances⟩ := fill_of_failure_none hfailure hlong
  exact ⟨s', by rw [token_eq_fill, hfill]; rfl, hadvances⟩

/-- Fewer bytes than a token has are all taken, and the field is named. -/
theorem exists_token_truncated (field : Field) (hfailure : s.failure = none)
    (hshort : s.bytes.length < 4) :
    ∃ s', token field s = (.error (.truncated field), s') ∧ s.Advances s' s.bytes.length := by
  obtain ⟨s', hfill, hadvances⟩ := fill_of_short hfailure hshort
  exact ⟨s', by rw [token_eq_fill, hfill]; rfl, hadvances⟩

/-- The first token of a record is read from a source that does not fail if its four bytes are
    there. -/
theorem exists_firstToken_ok (hfailure : s.failure = none) (hlong : 4 ≤ s.bytes.length) :
    ∃ s', firstToken s = (.ok (some (Bytes.toInt32 (s.bytes.take 4))), s') ∧ s.Advances s' 4 := by
  obtain ⟨s', hfill, hadvances⟩ := fill_of_failure_none hfailure hlong
  exact ⟨s', by rw [firstToken_eq_fill, hfill]; rfl, hadvances⟩

/-- A record that breaks off within its first token is truncated there. -/
theorem exists_firstToken_truncated (hfailure : s.failure = none) (hpositive : 1 ≤ s.bytes.length)
    (hshort : s.bytes.length < 4) :
    ∃ s', firstToken s = (.error (.truncated (.header .layerType)), s') ∧
      s.Advances s' s.bytes.length := by
  obtain ⟨s', hfill, hadvances⟩ := fill_of_short hfailure hshort
  obtain ⟨count, hcount⟩ := Nat.exists_eq_succ_of_ne_zero (Nat.ne_of_gt hpositive)
  refine ⟨s', ?_, hadvances⟩
  rw [firstToken_eq_fill, hfill, hcount]
  rfl

/-- At the end of the bytes there is no further record. -/
theorem exists_firstToken_none (hfailure : s.failure = none) (hbytes : s.bytes = []) :
    ∃ s', firstToken s = (.ok none, s') ∧ s.Advances s' 0 := by
  obtain ⟨s', hfill, hadvances⟩ := fill_of_short hfailure (by rw [hbytes]; decide)
  rw [hbytes] at hfill hadvances
  exact ⟨s', by rw [firstToken_eq_fill, hfill]; rfl, hadvances⟩

/-- The first token is the number whose bytes come next. -/
theorem firstToken_of_bytes_eq (hfailure : s.failure = none) {value : Int} {rest : List UInt8}
    (hfits : Bytes.FitsInt32 value) (hbytes : s.bytes = Bytes.ofInt32 value ++ rest) :
    ∃ s', firstToken s = (.ok (some value), s') ∧ s'.failure = none ∧ s'.bytes = rest := by
  have hlength := Bytes.length_ofInt32 value
  obtain ⟨s', htoken, hadvances⟩ := exists_firstToken_ok hfailure
    (by rw [hbytes, List.length_append, hlength]; exact Nat.le_add_right 4 _)
  refine ⟨s', ?_, hadvances.failure_none hfailure, ?_⟩
  · rw [htoken, hbytes, List.take_left' hlength, Bytes.toInt32_ofInt32 hfits]
  · rw [hadvances.bytes_eq hfailure, hbytes, List.drop_left' hlength]

/-- A first token that is read from a source that does not fail fits in 32 bits, and its bytes stood
    at the front. -/
theorem bytes_of_firstToken_some (hfailure : s.failure = none) {value : Int}
    (htoken : firstToken s = (.ok (some value), s')) :
    s'.failure = none ∧ Bytes.FitsInt32 value ∧ s.bytes = Bytes.ofInt32 value ++ s'.bytes := by
  rcases Nat.lt_or_ge s.bytes.length 4 with hshort | hlong
  · obtain ⟨s₁, hfill, -⟩ := fill_of_short hfailure hshort
    rw [firstToken_eq_fill, hfill] at htoken
    cases hlength : s.bytes.length <;> rw [hlength] at htoken <;> cases htoken
  · obtain ⟨s₁, hfull, hadvances⟩ := exists_firstToken_ok hfailure hlong
    rw [htoken] at hfull
    cases hfull
    have hfour : (s.bytes.take 4).length = 4 := by rw [List.length_take, Nat.min_eq_left hlong]
    refine ⟨hadvances.failure_none hfailure, Bytes.fitsInt32_toInt32 hfour, ?_⟩
    rw [Bytes.ofInt32_toInt32 hfour, hadvances.bytes_eq hfailure, List.take_append_drop]

/-- There is no further record only at the end of the bytes. -/
theorem bytes_of_firstToken_none (hfailure : s.failure = none)
    (htoken : firstToken s = (.ok none, s')) : s.bytes = [] := by
  rcases Nat.lt_or_ge s.bytes.length 4 with hshort | hlong
  · rcases Nat.eq_zero_or_pos s.bytes.length with hnone | hpositive
    · exact List.eq_nil_of_length_eq_zero hnone
    · obtain ⟨s₁, htruncated, -⟩ := exists_firstToken_truncated hfailure hpositive hshort
      rw [htoken] at htruncated
      cases htruncated
  · obtain ⟨s₁, hfull, -⟩ := exists_firstToken_ok hfailure hlong
    rw [htoken] at hfull
    cases hfull

/-- Tokens are read if there are bytes for all of them. -/
theorem exists_readTokens_ok (field : Nat → Field) (count index : Nat) (before : List Int)
    (s : Source) (hfailure : s.failure = none) (hlong : 4 * count ≤ s.bytes.length) :
    ∃ s', readTokens field count index before s =
        (.ok (before.reverse ++ Bytes.int32s count s.bytes), s') ∧
      s.Advances s' (4 * count) := by
  induction count generalizing index before s with
  | zero => exact ⟨s, by simp [readTokens, Bytes.int32s], s.advances_zero s.calls⟩
  | succ count ih =>
    obtain ⟨s₁, htoken, hfirst⟩ := exists_token_ok (field index) hfailure (by omega)
    have hrest := hfirst.length_eq hfailure
    obtain ⟨s₂, hread, hlater⟩ := ih (index + 1) (Bytes.toInt32 (s.bytes.take 4) :: before) s₁
      (hfirst.failure_none hfailure) (by omega)
    refine ⟨s₂, ?_, ?_⟩
    · rw [readTokens, htoken]
      dsimp only
      rw [hread, hfirst.bytes_eq hfailure, List.reverse_cons, List.append_assoc]
      rfl
    · have hcount : 4 + 4 * count = 4 * (count + 1) := by omega
      rw [← hcount]
      exact hfirst.trans hlater

/-- If there are too few bytes, the token at which they end is named, and all of them are taken. -/
theorem exists_readTokens_truncated (field : Nat → Field) (count index : Nat) (before : List Int)
    (s : Source) (hfailure : s.failure = none) (hshort : s.bytes.length < 4 * count) :
    ∃ s', readTokens field count index before s =
        (.error (.truncated (field (index + s.bytes.length / 4))), s') ∧
      s.Advances s' s.bytes.length := by
  induction count generalizing index before s with
  | zero => omega
  | succ count ih =>
    by_cases hlong : 4 ≤ s.bytes.length
    · obtain ⟨s₁, htoken, hfirst⟩ := exists_token_ok (field index) hfailure hlong
      have hrest := hfirst.length_eq hfailure
      obtain ⟨s₂, hread, hlater⟩ := ih (index + 1) (Bytes.toInt32 (s.bytes.take 4) :: before) s₁
        (hfirst.failure_none hfailure) (by omega)
      refine ⟨s₂, ?_, ?_⟩
      · have hindex : index + 1 + s₁.bytes.length / 4 = index + s.bytes.length / 4 := by omega
        rw [readTokens, htoken]
        dsimp only
        rw [hread, hindex]
      · have hcount : 4 + s₁.bytes.length = s.bytes.length := by omega
        rw [← hcount]
        exact hfirst.trans hlater
    · obtain ⟨s₁, htoken, hfirst⟩ :=
        exists_token_truncated (field index) hfailure (Nat.not_le.1 hlong)
      have hindex : index + s.bytes.length / 4 = index := by omega
      refine ⟨s₁, ?_, hfirst⟩
      rw [readTokens, htoken, hindex]

/-- Tokens whose bytes stand at the front of a source that does not fail are read back. -/
theorem readTokens_of_bytes_eq (field : Nat → Field) (tokens : List Int)
    (hfits : ∀ token ∈ tokens, Bytes.FitsInt32 token) (index : Nat) (before : List Int)
    (rest : List UInt8) (s : Source) (hfailure : s.failure = none)
    (hbytes : s.bytes = tokens.flatMap Bytes.ofInt32 ++ rest) :
    ∃ s', readTokens field tokens.length index before s = (.ok (before.reverse ++ tokens), s') ∧
      s'.failure = none ∧ s'.bytes = rest := by
  have hlength := Bytes.length_flatMap_ofInt32 tokens
  obtain ⟨s', hread, hadvances⟩ := exists_readTokens_ok field tokens.length index before s hfailure
    (by rw [hbytes, List.length_append, hlength]; omega)
  rw [hbytes, Bytes.int32s_flatMap hfits] at hread
  refine ⟨s', hread, hadvances.failure_none hfailure, ?_⟩
  rw [hadvances.bytes_eq hfailure, hbytes, List.drop_left' hlength]

/-- What is read from a source that does not fail are 32-bit tokens, and their bytes stood at its
    front. -/
theorem bytes_of_readTokens_ok (field : Nat → Field) (count index : Nat) (before result : List Int)
    (s s' : Source) (hfailure : s.failure = none)
    (hread : readTokens field count index before s = (.ok result, s')) :
    ∃ tokens, result = before.reverse ++ tokens ∧ tokens.length = count ∧
      (∀ token ∈ tokens, Bytes.FitsInt32 token) ∧
      s.bytes = tokens.flatMap Bytes.ofInt32 ++ s'.bytes ∧ s'.failure = none := by
  rcases Nat.lt_or_ge s.bytes.length (4 * count) with hshort | hlong
  · obtain ⟨s₁, htruncated, -⟩ :=
      exists_readTokens_truncated field count index before s hfailure hshort
    rw [hread] at htruncated
    cases htruncated
  · obtain ⟨s₁, hall, hadvances⟩ := exists_readTokens_ok field count index before s hfailure hlong
    obtain ⟨hfits, hbytes⟩ := Bytes.int32s_spec hlong
    rw [hread] at hall
    cases hall
    refine ⟨_, rfl, Bytes.length_int32s count s.bytes, hfits, ?_, hadvances.failure_none hfailure⟩
    rw [hbytes, hadvances.bytes_eq hfailure, List.take_append_drop]

end Layer

end DmaLink
