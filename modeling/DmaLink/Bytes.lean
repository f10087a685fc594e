namespace DmaLink.Bytes

/-- The `width` little-endian bytes of a number. Higher bytes are dropped. -/
def ofNat : (width : Nat) → Nat → List UInt8
  | 0, _ => []
  | width + 1, n => UInt8.ofNat (n % 256) :: ofNat width (n / 256)

/-- The number that little-endian bytes stand for. -/
def toNat : List UInt8 → Nat
  | [] => 0
  | byte :: rest => byte.toNat + 256 * toNat rest

/-- The four bytes of a register value. -/
def ofUInt32 (value : UInt32) : List UInt8 := ofNat 4 value.toNat

/-- The register value of four bytes. -/
def toUInt32 (bytes : List UInt8) : UInt32 := UInt32.ofNat (toNat bytes)

/-- The eight bytes of a stream word. -/
def ofUInt64 (value : UInt64) : List UInt8 := ofNat 8 value.toNat

/-- The stream word of eight bytes. -/
def toUInt64 (bytes : List UInt8) : UInt64 := UInt64.ofNat (toNat bytes)

/-- The four bytes of a signed number, in two's complement. -/
def ofInt32 (value : Int) : List UInt8 := ofNat 4 (value % 4294967296).toNat

/-- The signed number of four bytes, in two's complement. -/
def toInt32 (bytes : List UInt8) : Int :=
  let value := toNat bytes
  if value < 2147483648 then value else value - 4294967296

@[simp]
theorem length_ofNat (width n : Nat) : (ofNat width n).length = width := by
  induction width generalizing n with
  | zero => rfl
  | succ width ih => simp [ofNat, ih]

/-- Writing the number that bytes stand for gives the bytes back. -/
theorem ofNat_toNat (bytes : List UInt8) : ofNat bytes.length (toNat bytes) = bytes := by
  induction bytes with
  | nil => rfl
  | cons byte rest ih =>
    have hbyte : byte.toNat < 256 := byte.toNat_lt
    rw [List.length_cons, ofNat, toNat]
    congr 1
    · rw [Nat.add_mul_mod_self_left, Nat.mod_eq_of_lt hbyte, UInt8.ofNat_toNat]
    · rw [Nat.add_mul_div_left _ _ (by decide), Nat.div_eq_of_lt hbyte, Nat.zero_add, ih]

end DmaLink.Bytes
