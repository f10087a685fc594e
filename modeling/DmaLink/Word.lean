import DmaLink.Size

namespace DmaLink

/-- Bytes per stream word. -/
def wordBytes : Nat := 8

namespace Word

/-- The bit that the last word of a layer's last chunk has set. -/
def endBit : UInt64 := 0x8000000000000000

/-- The word the controller emits while it runs idle. It has the end bit set. -/
def idle : UInt64 := 0x800000e700000001

/-- Whether a word marks the last chunk of a layer. -/
def endsLayer (word : UInt64) : Bool := word &&& endBit != 0

end Word

/-- The mode a burst is sent in. -/
inductive OperatingMode where
  /-- More bursts of the same payload follow. -/
  | partway
  /-- This is the last burst of the payload. -/
  | complete
deriving DecidableEq, Repr

namespace OperatingMode

/-- The name of a mode in reports. -/
def name : OperatingMode → String
  | .partway => "Partial"
  | .complete => "Complete"

/-- The tag word that closes a burst of this mode. -/
def tag : OperatingMode → UInt64
  | .partway => 0x000c000000000000
  | .complete => 0x0004000000000000

/-- The mode that a word is the tag of, if it is a tag. -/
def ofWord? (word : UInt64) : Option OperatingMode :=
  if word = tag .partway then some .partway
  else if word = tag .complete then some .complete
  else none

/-- The mode of chunk `index` of a payload of `count` chunks. -/
def ofPosition (index count : Nat) : Except Trap OperatingMode :=
  (Size.add index 1).map fun next => if count ≤ next then .complete else .partway

/-- Exactly the tag words are read as tags. -/
theorem ofWord?_eq_some_iff {word : UInt64} {mode : OperatingMode} :
    ofWord? word = some mode ↔ word = mode.tag := by
  cases mode <;> grind [ofWord?, tag]

end OperatingMode

/-- How many words of each kind a received layer holds. -/
structure Census where
  /-- Words equal to zero. -/
  zero : Nat := 0
  /-- Words equal to the idle word. -/
  idle : Nat := 0
  /-- Words with the end bit set. -/
  endMarked : Nat := 0
deriving DecidableEq, Repr

/-- Counts the words of a layer. -/
def Census.ofWords (words : List UInt64) : Census where
  zero := words.countP (· == 0)
  idle := words.countP (· == Word.idle)
  endMarked := words.countP Word.endsLayer

end DmaLink
