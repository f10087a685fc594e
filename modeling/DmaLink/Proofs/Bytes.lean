import DmaLink.Bytes
import Mathlib.Algebra.Group.Nat.Defs

namespace DmaLink.Bytes

/-- The bytes of a number stand for its remainder. -/
theorem toNat_ofNat (width n : Nat) : toNat (ofNat width n) = n % 256 ^ width := by
  induction width generalizing n with
  | zero => simp [ofNat, toNat, Nat.mod_one]
  | succ width ih =>
    have hbyte : (UInt8.ofNat (n % 256)).toNat = n % 256 := by
      simp [Nat.mod_eq_of_lt (Nat.mod_lt n (by decide : 0 < 256))]
    rw [ofNat, toNat, ih, hbyte, Nat.pow_succ', Nat.mod_mul]

theorem toNat_lt (bytes : List UInt8) : toNat bytes < 256 ^ bytes.length := by
  induction bytes with
  | nil => simp [toNat]
  | cons byte rest ih =>
    have hbyte : byte.toNat < 256 := byte.toNat_lt
    rw [toNat, List.length_cons, Nat.pow_succ']
    omega

/-- Later bytes are the higher ones. -/
theorem toNat_append (bytes rest : List UInt8) :
    toNat (bytes ++ rest) = toNat bytes + 256 ^ bytes.length * toNat rest := by
  induction bytes with
  | nil => simp [toNat]
  | cons byte bytes ih =>
    rw [List.cons_append, toNat, ih, toNat, List.length_cons, Nat.pow_succ', Nat.mul_add,
      Nat.mul_assoc, Nat.add_assoc]

end DmaLink.Bytes
