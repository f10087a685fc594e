import DmaLink.Size

namespace DmaLink

/-- A length of time. -/
structure Duration where
  nanoseconds : Nat
deriving DecidableEq, Repr

namespace Duration

/-- So many microseconds. -/
def ofMicroseconds (count : Nat) : Duration := ⟨1000 * count⟩

/-- So many seconds and nanoseconds. -/
def ofSeconds (seconds nanoseconds : Nat) : Duration := ⟨1000000000 * seconds + nanoseconds⟩

/-- The whole seconds. -/
def seconds (d : Duration) : Nat := d.nanoseconds / 1000000000

/-- The nanoseconds past the whole seconds. -/
def subsecond (d : Duration) : Nat := d.nanoseconds % 1000000000

/-- The whole microseconds. -/
def microseconds (d : Duration) : Nat := d.nanoseconds / 1000

/-- The first reading that a clock cannot show: its seconds are a signed 64-bit number. -/
def clockEnd : Nat := 0x8000000000000000 * 1000000000

/-- The reading of the clock when a wait is over that begins at the reading `now`. -/
def deadline (now timeout : Duration) : Except Trap Duration :=
  if now.nanoseconds + timeout.nanoseconds < clockEnd then
    .ok ⟨now.nanoseconds + timeout.nanoseconds⟩
  else .error .deadlineTooLate

end Duration

end DmaLink
