namespace DmaLink.Memory

variable {α : Type}

/-- Puts values one after the other from `start` on. Values past the end are dropped. -/
def put (memory : Array α) (start : Nat) : List α → Array α
  | [] => memory
  | value :: rest => put (memory.setIfInBounds start value) (start + 1) rest

@[simp]
theorem size_put (memory : Array α) (start : Nat) (values : List α) :
    (put memory start values).size = memory.size := by
  induction values generalizing memory start with
  | nil => rfl
  | cons value rest ih => simp [put, ih]

/-- After a row has been put into memory its values stand in their range, as far as memory goes, and
    everything else is as it was. -/
theorem getElem?_put (memory : Array α) (start : Nat) (values : List α) (i : Nat) :
    (put memory start values)[i]? =
      if start ≤ i ∧ i < start + values.length ∧ i < memory.size then values[i - start]?
      else memory[i]? := by
  induction values generalizing memory start with
  | nil => simp [put]; omega
  | cons value rest ih =>
    simp only [put, ih, Array.size_setIfInBounds, List.length_cons]
    rcases Nat.lt_trichotomy i start with h | rfl | h
    · rw [if_neg (by omega), if_neg (by omega), Array.getElem?_setIfInBounds_ne (by omega)]
    · by_cases hi : i < memory.size
      · rw [if_neg (by omega), if_pos (by omega)]
        simp [hi]
      · rw [if_neg (by omega), if_neg (by omega)]
        simp [hi]
    · obtain ⟨k, rfl⟩ : ∃ k, i = start + 1 + k := ⟨i - (start + 1), by omega⟩
      rw [Array.getElem?_setIfInBounds_ne (by omega)]
      have hk : start + 1 + k - start = k + 1 := by omega
      have hk' : start + 1 + k - (start + 1) = k := by omega
      simp only [hk, hk', List.getElem?_cons_succ]
      congr 1
      simp only [eq_iff_iff]
      omega

end DmaLink.Memory
