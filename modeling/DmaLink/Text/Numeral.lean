namespace DmaLink.Text

/-- Why a text is not a numeral of the wanted range. -/
inductive NumeralError where
  | empty
  | badDigit
  | tooLarge
deriving DecidableEq, Repr

/-- The text a numeral error is reported with. -/
def NumeralError.message : NumeralError → String
  | .empty => "cannot parse integer from empty string"
  | .badDigit => "invalid digit found in string"
  | .tooLarge => "number too large to fit in target type"

/-- The value of a digit of `base`, in either case. Only ASCII digits and letters count. -/
def digitValue? (base : Nat) (c : Char) : Option Nat :=
  let value? :=
    if '0' ≤ c ∧ c ≤ '9' then some (c.toNat - '0'.toNat)
    else if 'a' ≤ c ∧ c ≤ 'z' then some (c.toNat - 'a'.toNat + 10)
    else if 'A' ≤ c ∧ c ≤ 'Z' then some (c.toNat - 'A'.toNat + 10)
    else none
  value?.filter (· < base)

/-- Reads digits after those that made up `value`. A character that is no digit is reported
    before the number it stands in grows too large, a later one after it. -/
def numeralOfDigits (base bound : Nat) : List Char → Nat → Except NumeralError Nat
  | [], value => .ok value
  | c :: rest, value =>
    match digitValue? base c with
    | none => .error .badDigit
    | some digit =>
      if value * base + digit < bound then numeralOfDigits base bound rest (value * base + digit)
      else .error .tooLarge

/-- Reads a numeral below `bound`. -/
def numeral (base bound : Nat) (text : List Char) : Except NumeralError Nat :=
  match text with
  | [] => .error .empty
  | ['+'] => .error .badDigit
  | '+' :: digits => numeralOfDigits base bound digits 0
  | digits => numeralOfDigits base bound digits 0

theorem numeralOfDigits_lt {base bound value n : Nat} {text : List Char} (hvalue : value < bound)
    (h : numeralOfDigits base bound text value = .ok n) : n < bound := by
  induction text generalizing value with
  | nil => simp_all [numeralOfDigits]
  | cons c rest ih =>
    simp only [numeralOfDigits] at h
    split at h
    · cases h
    · split at h
      · next hlt => exact ih hlt h
      · cases h

/-- A numeral that is read is below the bound. -/
theorem numeral_lt {base bound n : Nat} {text : List Char} (hbound : 0 < bound)
    (h : numeral base bound text = .ok n) : n < bound := by
  unfold numeral at h
  split at h
  · cases h
  · cases h
  · exact numeralOfDigits_lt hbound h
  · exact numeralOfDigits_lt hbound h

end DmaLink.Text
