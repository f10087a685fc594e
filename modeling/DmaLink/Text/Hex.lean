namespace DmaLink.Text

/-- The lower-case hexadecimal digits of `n`, at least one. -/
def hexDigits (n : Nat) : String := String.ofList (Nat.toDigits 16 n)

/-- The hexadecimal text of `n` after `0x`. -/
def hex (n : Nat) : String := "0x" ++ hexDigits n

/-- A 32-bit register value with all its eight digits. -/
def hexRegister (value : UInt32) : String :=
  let digits := Nat.toDigits 16 value.toNat
  "0x" ++ String.ofList (List.replicate (8 - digits.length) '0' ++ digits)

/-- A byte with both its digits. -/
def hexByte (byte : UInt8) : String :=
  let digits := Nat.toDigits 16 byte.toNat
  String.ofList (List.replicate (2 - digits.length) '0' ++ digits)

/-- The bytes one after the other, two digits each. -/
def hexBytes (bytes : List UInt8) : String := String.join (bytes.map hexByte)

end DmaLink.Text
