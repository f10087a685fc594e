import DmaLink.Fault
import DmaLink.Memory
import DmaLink.Proc

namespace DmaLink

/-- Refuses an access of `len` units at `offset` in a window of `limit` units that runs past
    its end. -/
def checkBounds (offset len limit : Nat) : Except LinkError Unit :=
  if offset + len ≤ limit then .ok () else .error (.outOfBounds offset len limit)

/-- A memory window of one direction of the link. Ranges of 64-bit words are loaded and stored; a
    range that runs past the end is refused and nothing moves. -/
structure Window where
  words : Array UInt64
deriving DecidableEq, Repr

namespace Window

/-- A window of zero words. -/
def zeroed (size : Nat) : Window := ⟨Array.replicate size 0⟩

/-- The number of words of a window. -/
def size (w : Window) : Nat := w.words.size

/-- The word at a position, zero past the end. -/
def get (w : Window) (position : Nat) : UInt64 := w.words.getD position 0

/-- The `len` words at `start`. -/
def load (w : Window) (start len : Nat) : Except LinkError (Vector UInt64 len) :=
  if h : start + len ≤ w.size then
    .ok ⟨w.words.extract start (start + len), by simp [size] at h ⊢; omega⟩
  else .error (.outOfBounds start len w.size)

/-- Writes `words` at `start`. A refused window is left as it is. -/
def store (w : Window) (start : Nat) (words : List UInt64) : Except LinkError Unit × Window :=
  if start + words.length ≤ w.size then (.ok (), ⟨Memory.put w.words start words⟩)
  else (.error (.outOfBounds start words.length w.size), w)

/-- The word that a load of one word gives. -/
def only (words : Vector UInt64 1) : UInt64 := words[0]

/-- The word at `position`. -/
def word (w : Window) (position : Nat) : Except LinkError UInt64 :=
  (w.load position 1).map only

/-- The buffer of a load: the words that were loaded take the place of what it held, and a refused
    load leaves it as it is. -/
def fill {len : Nat} (buffer : List UInt64) :
    Except LinkError (Vector UInt64 len) → Except LinkError Unit × List UInt64
  | .ok words => (.ok (), words.toList)
  | .error cause => (.error cause, buffer)

/-- A store succeeds exactly when the words fit behind `start`. -/
theorem store_eq_ok_iff {w w' : Window} {start : Nat} {words : List UInt64} :
    w.store start words = (.ok (), w') ↔
      start + words.length ≤ w.size ∧ w' = ⟨Memory.put w.words start words⟩ := by
  grind [store]

/-- A store keeps the size of its window. -/
theorem size_store (w : Window) (start : Nat) (words : List UInt64) :
    (w.store start words).2.size = w.size := by
  unfold store
  split
  · exact Memory.size_put w.words start words
  · rfl

/-- The accesses of a window. -/
inductive Access where
  /-- Loads `len` words from `start` on. -/
  | load (start len : Nat)
  /-- Stores words from `start` on. -/
  | store (start : Nat) (words : List UInt64)
deriving DecidableEq, Repr

/-- The reply to an access of a window. -/
def Access.Reply : Access → Type
  | .load _ len => Except LinkError (Vector UInt64 len)
  | .store _ _ => Except LinkError Unit

/-- Loading from and storing to one window. -/
def io : Interface := ⟨Access, Access.Reply⟩

/-- What a window in memory answers. -/
def answer : (access : Access) → Window → access.Reply × Window
  | .load start len, w => (w.load start len, w)
  | .store start words, w => w.store start words

end Window

end DmaLink
