namespace DmaLink

variable {ε α β : Type}

/-- Two computations in a row succeed exactly if each of them does. -/
theorem bind_eq_ok_iff {x : Except ε α} {f : α → Except ε β} {b : β} :
    (x >>= f) = .ok b ↔ ∃ a, x = .ok a ∧ f a = .ok b := by
  cases x <;> simp [bind, Except.bind]

theorem eq_error_of_map_eq_error {f : α → β} {result : Except ε α} {cause : ε}
    (herror : result.map f = .error cause) : result = .error cause := by
  cases result with
  | error why => exact congrArg Except.error (Except.error.inj herror)
  | ok value => cases herror

/-- A row of computations succeeds with the results of its entries if each of them succeeds. -/
theorem mapM_eq_ok_map {f : α → Except ε β} {g : α → β} {entries : List α}
    (hok : ∀ entry ∈ entries, f entry = .ok (g entry)) :
    entries.mapM f = .ok (entries.map g) := by
  induction entries with
  | nil => rfl
  | cons entry rest ih =>
    rw [List.mapM_cons, hok entry List.mem_cons_self,
      ih fun entry hentry => hok entry (List.mem_cons_of_mem _ hentry)]
    rfl

/-- The steps are made one after the other, up to the first that fails. -/
theorem mapM_eq_error {f : α → Except ε β} {cause : ε} {entries : List α}
    (hends : ∀ entry ∈ entries, (∃ b, f entry = .ok b) ∨ f entry = .error cause)
    (hfails : ∃ entry ∈ entries, f entry = .error cause) : entries.mapM f = .error cause := by
  induction entries with
  | nil =>
    obtain ⟨entry, hentry, -⟩ := hfails
    exact absurd hentry List.not_mem_nil
  | cons entry rest ih =>
    rw [List.mapM_cons]
    rcases hends entry List.mem_cons_self with ⟨b, hfirst⟩ | hfirst
    · have hlater : ∃ entry ∈ rest, f entry = .error cause := by
        obtain ⟨other, hother, herror⟩ := hfails
        rcases List.mem_cons.1 hother with rfl | hrest
        · rw [hfirst] at herror
          cases herror
        · exact ⟨other, hrest, herror⟩
      rw [hfirst, ih (fun entry hentry => hends entry (List.mem_cons_of_mem _ hentry)) hlater]
      rfl
    · rw [hfirst]
      rfl

end DmaLink
