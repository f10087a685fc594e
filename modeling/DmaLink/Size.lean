namespace DmaLink

/-- Why an operation is abandoned on the spot, with no error handed to its caller. -/
inductive Trap where
  /-- A sum of sizes does not fit in 64 bits. -/
  | sumTooLarge
  /-- A product of sizes does not fit in 64 bits. -/
  | productTooLarge
  /-- A register outside the mapped block was touched. -/
  | registerOutOfBounds
  /-- A wait would end after the clock does. -/
  | deadlineTooLate
  /-- A mapped page was touched that its file does not have. -/
  | pageMissing
deriving DecidableEq, Repr

/-- The text a trap is reported with. -/
def Trap.message : Trap → String
  | .sumTooLarge => "attempt to add with overflow"
  | .productTooLarge => "attempt to multiply with overflow"
  | .registerOutOfBounds => "Register offset out of bounds"
  | .deadlineTooLate => "overflow when adding duration to instant"
  | .pageMissing => "Bus error"

namespace Size

/-- The first size that does not fit. -/
def limit : Nat := 18446744073709551616

/-- The sum of two sizes. -/
def add (a b : Nat) : Except Trap Nat :=
  if a + b < limit then .ok (a + b) else .error .sumTooLarge

/-- The product of two sizes. -/
def mul (a b : Nat) : Except Trap Nat :=
  if a * b < limit then .ok (a * b) else .error .productTooLarge

/-- Twice a size, or the largest size if that is more. -/
def doubled (a : Nat) : Nat := min (2 * a) (limit - 1)

/-- The bytes that `words` stream words take, or the largest size if that is more. -/
def bytesOfWords (words : Nat) : Nat := min (8 * words) (limit - 1)

/-- A sum is given exactly if it fits. -/
theorem add_eq_ok_iff {a b n : Nat} : add a b = .ok n ↔ a + b < limit ∧ n = a + b := by
  grind [add]

/-- A product is given exactly if it fits. -/
theorem mul_eq_ok_iff {a b n : Nat} : mul a b = .ok n ↔ a * b < limit ∧ n = a * b := by
  grind [mul]

end Size

end DmaLink
