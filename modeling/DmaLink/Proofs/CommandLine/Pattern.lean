import DmaLink.CommandLine
import DmaLink.Proofs.Engine.Endings
import Mathlib.Data.List.Infix
import Mathlib.Data.Nat.Bitwise

namespace DmaLink

/-- The end bit is the highest one. -/
theorem Word.endsLayer_iff {word : UInt64} :
    Word.endsLayer word = true ↔ 2 ^ 63 ≤ word.toNat := by
  have hbit : (word &&& Word.endBit).toNat = (word.toNat.testBit 63).toNat * 2 ^ 63 := by
    rw [UInt64.toNat_and]
    exact Nat.and_two_pow word.toNat 63
  rw [Word.endsLayer, bne_iff_ne, ne_eq, ← UInt64.toNat_inj, hbit, UInt64.toNat_zero]
  rcases Nat.lt_or_ge word.toNat (2 ^ 63) with hlow | hhigh
  · rw [Nat.testBit_lt_two_pow hlow]
    simpa using hlow
  · rw [Nat.testBit_of_two_pow_le_and_two_pow_add_one_gt hhigh word.toNat_lt]
    simpa using hhigh

namespace CommandLine

/-- The number that the words of the test pattern are multiples of. -/
def patternStep : Nat := 0x010101010101

/-- The first chunk of the test pattern whose last word has the end bit set. The last words are the
    multiples of what the first chunk ends with. -/
def patternChunks (chunkWords : Nat) : Nat := (2 ^ 63 - 1) / (chunkWords * patternStep) + 1

/-- How much of a test pattern there is to read before a chunk of it ends the layer. -/
def patternLimit (chunkWords : Nat) : Nat := patternChunks chunkWords * chunkWords

variable {chunkWords count : Nat}

@[simp]
theorem length_pattern (count : Nat) : (pattern count).length = count := by simp [pattern]

theorem pattern_ne_nil (hcount : 0 < count) : pattern count ≠ [] := by
  rwa [← List.length_pos_iff_ne_nil, length_pattern]

/-- The front of a pattern is a shorter pattern. -/
theorem take_pattern (count taken : Nat) :
    (pattern count).take taken = pattern (min taken count) := by
  rw [pattern, ← List.map_take, List.take_range, pattern]

theorem pattern_prefix_pattern {total : Nat} (hle : count ≤ total) :
    pattern count <+: pattern total := by
  rw [← Nat.min_eq_left hle, ← take_pattern]
  exact List.take_prefix _ _

/-- The word at the end of a chunk. -/
theorem toNat_of_getElem?_pattern {chunk : Nat} {word : UInt64}
    (hend : 0 < chunk * chunkWords) (hword : (pattern count)[chunk * chunkWords - 1]? = some word) :
    chunk * chunkWords ≤ count ∧ word.toNat = chunk * (chunkWords * patternStep) % 2 ^ 64 := by
  obtain ⟨hlt, rfl⟩ := List.getElem?_eq_some_iff.1 hword
  rw [length_pattern] at hlt
  refine ⟨by omega, ?_⟩
  have hindex : chunk * chunkWords - 1 + 1 = chunk * chunkWords := Nat.sub_add_cancel hend
  simp only [pattern, List.getElem_map, List.getElem_range, hindex]
  rw [UInt64.toNat_mul, UInt64.toNat_ofNat', ← Nat.mul_assoc]
  exact Nat.mod_mul_mod _ _ _

/-- The chunks that keep to the pattern are those whose words stay below the tag's bit. -/
theorem lt_patternChunks_iff {chunk : Nat} (hpositive : 0 < chunkWords) :
    chunk < patternChunks chunkWords ↔ chunk * (chunkWords * patternStep) < 2 ^ 63 := by
  have hstep : 0 < chunkWords * patternStep := Nat.mul_pos hpositive (by decide)
  rw [patternChunks, Nat.lt_succ_iff, Nat.le_div_iff_mul_le hstep]
  omega

/-- Before that chunk, no chunk ends with a word that has the end bit set. -/
theorem endsLayer_pattern_eq_false {chunk : Nat} {word : UInt64} (hpositive : 0 < chunkWords)
    (hchunk : 0 < chunk) (hbefore : chunk < patternChunks chunkWords)
    (hword : (pattern count)[chunk * chunkWords - 1]? = some word) :
    Word.endsLayer word = false := by
  have hlow := (lt_patternChunks_iff hpositive).1 hbefore
  have hvalue := (toNat_of_getElem?_pattern (Nat.mul_pos hchunk hpositive) hword).2
  rw [Nat.mod_eq_of_lt (by omega)] at hvalue
  rw [Bool.eq_false_iff, ne_eq, Word.endsLayer_iff, hvalue]
  omega

/-- A pattern that stops short of that chunk is open. -/
theorem chunksOpen_pattern (hpositive : 0 < chunkWords) (hshort : count < patternLimit chunkWords) :
    ChunksOpen chunkWords (pattern count) := by
  intro chunk word hchunk hword
  refine endsLayer_pattern_eq_false hpositive hchunk ?_ hword
  have hle := (toNat_of_getElem?_pattern (Nat.mul_pos hchunk hpositive) hword).1
  exact Nat.lt_of_mul_lt_mul_right (Nat.lt_of_le_of_lt hle hshort)

/-- A pattern that goes as far as that chunk ends there. -/
theorem endsAt_pattern (hpositive : 0 < chunkWords) (hstep : chunkWords * patternStep ≤ 2 ^ 63)
    (hlong : patternLimit chunkWords ≤ count) :
    Engine.EndsAt chunkWords (patternChunks chunkWords) (pattern count) where
  positive := Nat.succ_pos _
  openBefore chunk word := endsLayer_pattern_eq_false hpositive
  ends := by
    have hchunks : 0 < patternChunks chunkWords := Nat.succ_pos _
    have hend : 0 < patternLimit chunkWords := Nat.mul_pos hchunks hpositive
    have hlast : patternLimit chunkWords - 1 < (pattern count).length := by
      rw [length_pattern]
      omega
    refine ⟨_, List.getElem?_eq_getElem hlast, ?_⟩
    have hvalue := (toNat_of_getElem?_pattern hend (List.getElem?_eq_getElem hlast)).2
    -- It is the first multiple past the end bit, and the next one is still below `2 ^ 64`.
    have hhigh : ¬patternChunks chunkWords * (chunkWords * patternStep) < 2 ^ 63 := fun hlow =>
      Nat.lt_irrefl _ ((lt_patternChunks_iff hpositive).2 hlow)
    have hbefore : (patternChunks chunkWords - 1) * (chunkWords * patternStep) < 2 ^ 63 :=
      (lt_patternChunks_iff hpositive).1 (by omega)
    rw [Nat.sub_mul] at hbefore
    rw [Nat.mod_eq_of_lt (by omega)] at hvalue
    rw [Word.endsLayer_iff, hvalue]
    omega

/-- Of chunks of 1025 words, the first 8152 are open. -/
example : patternLimit 1025 = 8153 * 1025 := by decide

end CommandLine

end DmaLink
