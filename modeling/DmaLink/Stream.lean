namespace DmaLink

/-- The words on their way from the sending to the receiving side of a device, as a queue. The first
    `taken` words put in have left it again. -/
structure Stream where
  words : Array UInt64
  taken : Nat
  taken_le : taken ≤ words.size := by omega
deriving DecidableEq, Repr

namespace Stream

/-- A stream without words. -/
def empty : Stream := ⟨#[], 0, Nat.le_refl 0⟩

/-- The words in the stream, oldest first. -/
def toList (s : Stream) : List UInt64 := s.words.toList.drop s.taken

/-- The number of words in the stream. -/
def size (s : Stream) : Nat := s.words.size - s.taken

/-- Puts words behind those in the stream. -/
def append (s : Stream) (words : List UInt64) : Stream where
  words := s.words ++ words.toArray
  taken := s.taken
  taken_le := by simpa using Nat.le_add_right_of_le s.taken_le

/-- The oldest `count` words, or all if there are fewer. -/
def front (s : Stream) (count : Nat) : List UInt64 :=
  (s.words.extract s.taken (s.taken + count)).toList

/-- The stream without its oldest `count` words. -/
def drop (s : Stream) (count : Nat) : Stream where
  words := s.words
  taken := min (s.taken + count) s.words.size
  taken_le := Nat.min_le_right ..

@[simp]
theorem toList_empty : empty.toList = [] := rfl

@[simp]
theorem length_toList (s : Stream) : s.toList.length = s.size := by simp [toList, size]

@[simp]
theorem toList_append (s : Stream) (words : List UInt64) :
    (s.append words).toList = s.toList ++ words := by
  have := s.taken_le
  simp [toList, append, List.drop_append_of_le_length, this]

@[simp]
theorem front_eq (s : Stream) (count : Nat) : s.front count = s.toList.take count := by
  simp [front, toList, List.extract_eq_take_drop]

@[simp]
theorem toList_drop (s : Stream) (count : Nat) :
    (s.drop count).toList = s.toList.drop count := by
  simp only [toList, drop, List.drop_drop]
  rcases Nat.le_total (s.taken + count) s.words.size with h | h
  · rw [Nat.min_eq_left h]
  · rw [Nat.min_eq_right h, List.drop_of_length_le (by simp), List.drop_of_length_le (by simpa)]

end Stream

end DmaLink
