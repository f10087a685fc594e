import Mathlib
import DmaLink.Text.Blank
import DmaLink.Text.Numeral

namespace DmaLink.Text

/-- The blanks of ASCII: the space, and the characters from the horizontal tab to the carriage
    return. -/
def IsAsciiBlank (c : Char) : Prop := c.toNat = 0x20 ∨ 0x09 ≤ c.toNat ∧ c.toNat ≤ 0x0d

instance : DecidablePred IsAsciiBlank := fun c =>
  inferInstanceAs (Decidable (c.toNat = 0x20 ∨ 0x09 ≤ c.toNat ∧ c.toNat ≤ 0x0d))

/-- A text of a given form with any number of blanks on either side. -/
def Padded (form : List Char → Prop) (text : String) : Prop :=
  ∃ before body after, text.toList = before ++ body ++ after ∧ (∀ c ∈ before, IsAsciiBlank c) ∧
    (∀ c ∈ after, IsAsciiBlank c) ∧ form body

/-- A number in decimal, behind any number of zeros. -/
def Decimal (n : Nat) (text : List Char) : Prop :=
  ∃ zeros, text = List.replicate zeros '0' ++ Nat.toDigits 10 n

/-- A number in hexadecimal digits of either case, behind any number of zeros. -/
def Hexadecimal (n : Nat) (text : List Char) : Prop :=
  ∃ zeros, text.map Char.toLower = List.replicate zeros '0' ++ Nat.toDigits 16 n

/-- A name in any letter case. -/
def Named (name : String) (text : List Char) : Prop := text.map Char.toLower = name.toList

/-- The blanks of ASCII are blank. -/
theorem isBlank_of_isAsciiBlank {c : Char} (h : IsAsciiBlank c) : isBlank c = true := by
  simp only [IsAsciiBlank] at h
  simp only [isBlank, blankRanges, List.any_cons, Bool.or_eq_true, Bool.and_eq_true,
    decide_eq_true_eq]
  omega

/-- A printed character of ASCII is not blank. -/
theorem isBlank_eq_false {c : Char} (hlow : 0x21 ≤ c.toNat) (hhigh : c.toNat ≤ 0x7e) :
    isBlank c = false := by
  simp only [isBlank, blankRanges, List.any_cons, List.any_nil, Bool.or_false, Bool.or_eq_false_iff,
    Bool.and_eq_false_iff, decide_eq_false_iff_not]
  omega

theorem dropWhile_isBlank_append {blanks text : List Char}
    (hblanks : ∀ c ∈ blanks, isBlank c = true)
    (htext : ∀ c ∈ text.head?, isBlank c = false) : (blanks ++ text).dropWhile isBlank = text := by
  rw [List.dropWhile_append_of_pos hblanks]
  cases text with
  | nil => rfl
  | cons c rest => exact List.dropWhile_cons_of_neg (Bool.eq_false_iff.1 (htext c rfl))

/-- Trimming takes away the blanks around a body that has none. -/
theorem trim_padded {before body after : List Char} (hbefore : ∀ c ∈ before, isBlank c = true)
    (hafter : ∀ c ∈ after, isBlank c = true) (hbody : ∀ c ∈ body, isBlank c = false) :
    trim (before ++ body ++ after) = body := by
  have hend : trimEnd (body ++ after) = body := by
    rw [trimEnd, List.reverse_append, dropWhile_isBlank_append, List.reverse_reverse]
    · exact fun c hc => hafter c (List.mem_reverse.1 hc)
    · exact fun c hc => hbody c (List.mem_reverse.1 (List.mem_of_mem_head? hc))
  cases body with
  | nil =>
    have hall : ∀ c ∈ before ++ [] ++ after, isBlank c = true := by
      simpa using fun c hc => hc.elim (hbefore c) (hafter c)
    rw [trim, List.dropWhile_eq_nil_iff.2 hall]
    rfl
  | cons first rest =>
    rw [trim, List.append_assoc, dropWhile_isBlank_append hbefore]
    · exact hend
    · intro c hc
      exact hbody c (List.mem_of_mem_head? hc)

/-- Blanks around a text are gone when it is trimmed. -/
theorem Padded.trim_toList {form : List Char → Prop} {text : String} (htext : Padded form text)
    (hform : ∀ body, form body → ∀ c ∈ body, isBlank c = false) : form (trim text.toList) := by
  obtain ⟨before, body, after, htext, hbefore, hafter, hbody⟩ := htext
  have htrim : trim text.toList = body := by
    rw [htext]
    exact trim_padded (fun c hc => isBlank_of_isAsciiBlank (hbefore c hc))
      (fun c hc => isBlank_of_isAsciiBlank (hafter c hc)) (hform body hbody)
  exact htrim.symm ▸ hbody

/-- What a character stands for as a digit, by its number. -/
theorem digitValue?_eq (base : Nat) (c : Char) :
    digitValue? base c =
      Option.filter (· < base)
        (if 48 ≤ c.toNat ∧ c.toNat ≤ 57 then some (c.toNat - 48)
        else if 97 ≤ c.toNat ∧ c.toNat ≤ 122 then some (c.toNat - 97 + 10)
        else if 65 ≤ c.toNat ∧ c.toNat ≤ 90 then some (c.toNat - 65 + 10)
        else none) := rfl

/-- The case of a digit does not matter. -/
theorem digitValue?_toLower (base : Nat) (c : Char) :
    digitValue? base c.toLower = digitValue? base c := by
  by_cases hupper : c.isUpper = true
  · have hrange : 65 ≤ c.toNat ∧ c.toNat ≤ 90 := by
      simpa [Char.isUpper, UInt32.le_iff_toNat_le] using hupper
    have hlower : (Char.ofNat (c.toNat + 32)).toNat = c.toNat + 32 := by
      rw [Char.toNat_ofNat, if_pos (.inl (by omega))]
    have hvalue : c.toNat + 32 - 97 + 10 = c.toNat - 65 + 10 := by omega
    rw [Char.toLower_eq_of_isUpper hupper, digitValue?_eq, digitValue?_eq, hlower,
      if_neg (by omega), if_pos (by omega), if_neg (by omega), if_neg (by omega), if_pos hrange,
      hvalue]
  · rw [Char.toLower_eq_of_not_isUpper hupper]

/-- A digit's character is read as that digit. -/
theorem digitValue?_digitChar {base digit : Nat} (hbase : base ≤ 16) (hdigit : digit < base) :
    digitValue? base digit.digitChar = some digit := by
  -- In one base this is a finite check, and all a smaller base changes is which digits it has.
  have hvalue : ∀ digit < 16, digitValue? 17 (Nat.digitChar digit) = some digit := by decide
  have hwide := hvalue digit (Nat.lt_of_lt_of_le hdigit hbase)
  rw [digitValue?_eq, Option.filter_eq_some_iff] at hwide ⊢
  exact ⟨hwide.1, decide_eq_true hdigit⟩

/-- Digits lie between `0` and `z`: they are neither blanks nor signs. -/
theorem bounds_of_digitValue? {base value : Nat} {c : Char}
    (hvalue : digitValue? base c = some value) : 0x30 ≤ c.toNat ∧ c.toNat ≤ 0x7a := by
  rw [digitValue?_eq, Option.filter_eq_some_iff] at hvalue
  have hdigit := hvalue.1
  split at hdigit
  · omega
  · split at hdigit
    · omega
    · split at hdigit
      · omega
      · cases hdigit

/-- A numeral is read digit after digit. -/
theorem numeralOfDigits_append (base bound : Nat) (front text : List Char) (value : Nat) :
    numeralOfDigits base bound (front ++ text) value =
      numeralOfDigits base bound front value >>= numeralOfDigits base bound text := by
  induction front generalizing value with
  | nil => rfl
  | cons c front ih =>
    simp only [List.cons_append, numeralOfDigits]
    split
    · rfl
    · split
      · exact ih _
      · rfl

theorem numeralOfDigits_map_toLower (base bound : Nat) (text : List Char) (value : Nat) :
    numeralOfDigits base bound (text.map Char.toLower) value =
      numeralOfDigits base bound text value := by
  induction text generalizing value with
  | nil => rfl
  | cons c rest ih => simp only [List.map_cons, numeralOfDigits, digitValue?_toLower, ih]

/-- One more digit is taken in unless the number leaves its range. -/
theorem numeralOfDigits_digitChar {base bound value digit : Nat} (hbase : base ≤ 16)
    (hdigit : digit < base) :
    numeralOfDigits base bound [digit.digitChar] value =
      if value * base + digit < bound then .ok (value * base + digit) else .error .tooLarge := by
  simp only [numeralOfDigits, digitValue?_digitChar hbase hdigit]

/-- The number that the digits but the last stand for is no larger than the whole. -/
theorem numeralOfDigits_toDigits {base bound : Nat} (hone : 1 < base) (hbase : base ≤ 16)
    (n : Nat) : numeralOfDigits base bound (Nat.toDigits base n) 0 =
      if n < bound then .ok n else .error .tooLarge := by
  induction n using Nat.strongRecOn with
  | ind n ih =>
    rw [Nat.toDigits_eq_if hone]
    split
    case isTrue hlast => rw [numeralOfDigits_digitChar hbase hlast, Nat.zero_mul, Nat.zero_add]
    case isFalse hmore =>
      have hlow : n % base < base := Nat.mod_lt n (by omega)
      rw [numeralOfDigits_append, ih (n / base) (Nat.div_lt_self (by omega) hone)]
      split
      case isTrue =>
        refine (numeralOfDigits_digitChar hbase hlow).trans ?_
        rw [Nat.div_add_mod']
      case isFalse hlarge =>
        have hle : n / base ≤ n := Nat.div_le_self n base
        rw [if_neg (by omega)]
        rfl

/-- Zeros in front come to nothing. -/
theorem numeralOfDigits_zeros {base bound : Nat} (hbase : 0 < base) (hbound : 0 < bound)
    (zeros : Nat) : numeralOfDigits base bound (List.replicate zeros '0') 0 = .ok 0 := by
  induction zeros with
  | zero => rfl
  | succ zeros ih =>
    have hzero : digitValue? base '0' = some 0 := by
      rw [digitValue?_eq, Option.filter_eq_some_iff]
      exact ⟨rfl, decide_eq_true hbase⟩
    simp only [List.replicate_succ, numeralOfDigits, hzero, Nat.zero_mul, Nat.add_zero, hbound,
      if_true, ih]

/-- A numeral that is read has nothing but digits. -/
theorem exists_digitValue?_of_numeralOfDigits {base bound value n : Nat} {text : List Char}
    (hread : numeralOfDigits base bound text value = .ok n) :
    ∀ c ∈ text, ∃ digit, digitValue? base c = some digit := by
  induction text generalizing value with
  | nil => exact nofun
  | cons c rest ih =>
    simp only [numeralOfDigits] at hread
    split at hread
    · cases hread
    · next digit hdigit =>
      split at hread
      · exact List.forall_mem_cons.2 ⟨⟨digit, hdigit⟩, ih hread⟩
      · cases hread

/-- A text of digits, at least one, that stands for a number: whatever room there is, it is read as
    that number or is too large. -/
structure Denotes (base n : Nat) (text : List Char) : Prop where
  ne_nil : text ≠ []
  read : ∀ bound, 0 < bound →
    numeralOfDigits base bound text 0 = if n < bound then .ok n else .error .tooLarge

namespace Denotes

variable {base n : Nat} {text : List Char}

/-- The digits of a number, with zeros in front or none, denote it. -/
theorem zeros_toDigits (hone : 1 < base) (hbase : base ≤ 16) (zeros n : Nat) :
    Denotes base n (List.replicate zeros '0' ++ Nat.toDigits base n) where
  ne_nil := List.append_ne_nil_of_right_ne_nil _ Nat.toDigits_ne_nil
  read bound hbound := by
    rw [numeralOfDigits_append, numeralOfDigits_zeros (by omega) hbound]
    exact numeralOfDigits_toDigits hone hbase n

/-- A decimal text denotes its number in base ten. -/
theorem of_decimal (htext : Decimal n text) : Denotes 10 n text := by
  obtain ⟨zeros, rfl⟩ := htext
  exact zeros_toDigits (by decide) (by decide) zeros n

theorem of_hexadecimal (htext : Hexadecimal n text) : Denotes 16 n text := by
  obtain ⟨zeros, hlower⟩ := htext
  have hdenotes : Denotes 16 n (text.map Char.toLower) :=
    hlower ▸ zeros_toDigits (by decide) (by decide) zeros n
  refine ⟨fun hnil => hdenotes.ne_nil (congrArg (List.map Char.toLower) hnil), ?_⟩
  intro bound hbound
  rw [← numeralOfDigits_map_toLower]
  exact hdenotes.read bound hbound

/-- Where there is room for the number the text is read to its end, so all of it is digits. -/
theorem exists_digitValue? (htext : Denotes base n text) :
    ∀ c ∈ text, ∃ digit, digitValue? base c = some digit := by
  have hread := htext.read (n + 1) (Nat.succ_pos n)
  rw [if_pos (Nat.lt_succ_self n)] at hread
  exact exists_digitValue?_of_numeralOfDigits hread

/-- The characters of a numeral lie between the digit zero and the letter z. -/
theorem bounds (htext : Denotes base n text) {c : Char} (hc : c ∈ text) :
    0x30 ≤ c.toNat ∧ c.toNat ≤ 0x7a := by
  obtain ⟨digit, hdigit⟩ := htext.exists_digitValue? c hc
  exact bounds_of_digitValue? hdigit

theorem isBlank_eq_false (htext : Denotes base n text) : ∀ c ∈ text, isBlank c = false := by
  intro c hc
  have hbounds := htext.bounds hc
  exact Text.isBlank_eq_false (by omega) (by omega)

/-- No sign comes before the digits. -/
theorem numeral_eq (htext : Denotes base n text) {bound : Nat} (hbound : 0 < bound) :
    numeral base bound text = if n < bound then .ok n else .error .tooLarge := by
  have hsign (rest : List Char) : text ≠ '+' :: rest := by
    rintro rfl
    exact absurd (htext.bounds List.mem_cons_self).1 (by decide)
  rw [← htext.read bound hbound]
  unfold numeral
  split
  · exact absurd rfl htext.ne_nil
  · exact absurd rfl (hsign [])
  · exact absurd rfl (hsign _)
  · rfl

end Denotes

/-- Names are written in letters, which are digits of a large enough base. -/
theorem Named.isBlank_eq_false {name : String} {text : List Char} (htext : Named name text)
    (hname : (name.toList.all fun c => (digitValue? 36 c).isSome) = true) :
    ∀ c ∈ text, isBlank c = false := by
  intro c hc
  have hlower : c.toLower ∈ name.toList := htext ▸ List.mem_map_of_mem hc
  obtain ⟨digit, hdigit⟩ := Option.isSome_iff_exists.1 (List.all_eq_true.1 hname c.toLower hlower)
  rw [digitValue?_toLower] at hdigit
  have hbounds := bounds_of_digitValue? hdigit
  exact Text.isBlank_eq_false (by omega) (by omega)

end DmaLink.Text
