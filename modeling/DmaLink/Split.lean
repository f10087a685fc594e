import DmaLink.Layout
import DmaLink.Window

namespace DmaLink

/-- One of the two halves of a split window. -/
inductive Half where
  /-- The lower half, from the start of the window on. -/
  | a
  /-- The upper half, right behind the lower one. -/
  | b
deriving DecidableEq, Repr

/-- The opposite half. -/
def Half.other : Half → Half
  | .a => .b
  | .b => .a

/-- A window of `windowWords` words at physical address `base`, split into halves of `halfWords`
    words. -/
structure Split where
  windowWords : Nat
  base : UInt32
  halfWords : Nat
deriving DecidableEq, Repr

namespace Split

/-- The split with halves of `halfWords` words. Both halves have to lie in the window, and the
    upper one has to end within 32-bit physical addressing. -/
def fit (s : Split) (halfWords : Nat) : Except LinkError Split :=
  if halfWords = 0 then .error (.configuration .emptyHalf)
  else if s.windowWords < Size.doubled halfWords then
    .error (.configuration (.halvesExceedWindow halfWords s.windowWords))
  else if Layout.addressLimit < s.base.toNat + Size.doubled halfWords * wordBytes then
    .error (.configuration (.beyondAddressing s.base))
  else .ok { s with halfWords }

/-- The end of two halves that lie in the window, in physical memory. -/
def endAddress (s : Split) (halfWords : Nat) : Except Trap Nat := do
  Size.add s.base.toNat (← Size.mul (Size.doubled halfWords) wordBytes)

/-- The split with halves of `halfWords` words, for windows of any claimed length: where the end
    of the halves has to be looked at, it has to fit in 64 bits. -/
def resize (s : Split) (halfWords : Nat) : Except Fault Split := do
  if halfWords ≠ 0 ∧ Size.doubled halfWords ≤ s.windowWords then
    let _ ← (s.endAddress halfWords).mapError Fault.trap
  (s.fit halfWords).mapError Fault.error

/-- A window not split yet. -/
def whole (windowWords : Nat) (base : UInt32) : Split := ⟨windowWords, base, 0⟩

/-- The word offset of a half in its window. -/
def offset (s : Split) : Half → Nat
  | .a => 0
  | .b => s.halfWords

/-- The physical address of a half. -/
def address (s : Split) (half : Half) : UInt32 :=
  s.base + UInt32.ofNat (s.offset half * wordBytes)

/-- Copies words to the start of a half, with a tag word behind them if one is given, and replies
    how many words were staged. Words that do not fit the half are refused before any is
    written. -/
def stage (s : Split) (half : Half) (words : List UInt64) (tag : Option UInt64) :
    Proc Window.io (Except LinkError Nat) := do
  let count := words.length + tag.toList.length
  match checkBounds 0 count s.halfWords with
  | .error cause => return .error cause
  | .ok () =>
    match ← Proc.perform (I := Window.io) (.store (s.offset half) words) with
    | .error cause => return .error cause
    | .ok () =>
      match tag with
      | none => return .ok count
      | some word =>
        match ← Proc.perform (I := Window.io) (.store (s.offset half + words.length) [word]) with
        | .error cause => return .error cause
        | .ok () => return .ok count

/-- Copies the whole contents of a half out. -/
def drain (s : Split) (half : Half) :
    Proc Window.io (Except LinkError (Vector UInt64 s.halfWords)) :=
  Proc.perform (I := Window.io) (.load (s.offset half) s.halfWords)

/-- Appends the whole contents of a half to a list. The room for them is made before they are
    loaded, and is given back if the window refuses. -/
def drainInto (s : Split) (half : Half) (out : List UInt64) :
    Proc Window.io (Except LinkError Unit × List UInt64) := do
  match Window.fill (List.replicate s.halfWords 0) (← s.drain half) with
  | (.ok (), room) => return (.ok (), out ++ room)
  | (.error cause, room) => return (.error cause, (out ++ room).take out.length)

/-- Copies the last word of a half out. -/
def last (s : Split) (half : Half) : Proc Window.io (Except LinkError UInt64) := do
  match ← Proc.perform (I := Window.io) (.load (s.offset half + s.halfWords - 1) 1) with
  | .error cause => return .error cause
  | .ok words => return .ok (Window.only words)

end Split

/-- A split with the window it is of. -/
structure SplitWindow where
  split : Split
  window : Window
deriving DecidableEq, Repr

namespace SplitWindow

/-- Resizes the halves. A refused size leaves them as they are. -/
def resize : SplitWindow → Nat → Except Fault Unit × SplitWindow
  | ⟨split, window⟩, halfWords =>
    match split.resize halfWords with
    | .ok split => (.ok (), ⟨split, window⟩)
    | .error fault => (.error fault, ⟨split, window⟩)

/-- Copies words to the start of a half, with a tag word behind them if one is given. -/
def stage : SplitWindow → Half → List UInt64 → Option UInt64 → Except LinkError Nat × SplitWindow
  | ⟨split, window⟩, half, words, tag =>
    match (split.stage half words tag).run Window.answer window with
    | (result, window) => (result, ⟨split, window⟩)

/-- Appends the whole contents of a half to a list. -/
def drainInto : SplitWindow → Half → List UInt64 →
    (Except LinkError Unit × List UInt64) × SplitWindow
  | ⟨split, window⟩, half, out =>
    match (split.drainInto half out).run Window.answer window with
    | (drained, window) => (drained, ⟨split, window⟩)

/-- Copies the last word of a half out. -/
def last : SplitWindow → Half → Except LinkError UInt64 × SplitWindow
  | ⟨split, window⟩, half =>
    match (split.last half).run Window.answer window with
    | (result, window) => (result, ⟨split, window⟩)

end SplitWindow

end DmaLink
