import DmaLink.Memory
import DmaLink.Size
import Std.Data.TreeMap.Basic
import Std.Data.TreeMap.Lemmas

namespace DmaLink

/-- The unit that files are held and mapped in, in bytes. -/
def File.pageBytes : Nat := 4096

/-- The bytes of one page. -/
abbrev File.Page := Vector UInt8 File.pageBytes

/-- A file with the pages that hold it. Only those that something was written to are kept, so a file
    may be far larger than what is in it. Its last page may go on behind its last byte. -/
structure File where
  /-- The bytes that belong to the file. -/
  size : Nat
  /-- The pages that something was written to, by their number. -/
  pages : Std.TreeMap Nat File.Page

namespace File

/-- A count of bytes rounded up to whole pages. -/
def wholePages (bytes : Nat) : Nat := (bytes + (pageBytes - 1)) / pageBytes * pageBytes

/-- A page that nothing was written to. -/
def blankPage : Page := Vector.replicate pageBytes 0

theorem mod_pageBytes_lt (position : Nat) : position % pageBytes < pageBytes :=
  Nat.mod_lt position (by decide)

/-- A file of zero bytes. -/
def zeroed (size : Nat) : File := ⟨size, ∅⟩

/-- The byte that is kept for a position, zero if nothing was written there. -/
def byteAt (f : File) (position : Nat) : UInt8 :=
  have inPage := mod_pageBytes_lt position
  match f.pages[position / pageBytes]? with
  | none => 0
  | some page => page[position % pageBytes]

/-- Puts bytes into a page, from an offset on. Bytes past the end of the page are dropped. -/
def Page.put (page : Page) (offset : Nat) (bytes : List UInt8) : Page :=
  ⟨Memory.put page.toArray offset bytes, by simp⟩

/-- The bytes from a position to the end of its page. -/
def room (position : Nat) : Nat := pageBytes - position % pageBytes

theorem room_pos (position : Nat) : 0 < room position :=
  Nat.sub_pos_of_lt (mod_pageBytes_lt position)

/-- Puts bytes at a position, as far as they fit its page. -/
def putInPage (f : File) (position : Nat) (bytes : List UInt8) : File :=
  { f with
    pages := f.pages.alter (position / pageBytes) fun page =>
      some ((page.getD blankPage).put (position % pageBytes) (bytes.take (room position))) }

/-- The `count` bytes kept for a position and those behind it. -/
def load (f : File) (position count : Nat) : List UInt8 :=
  (List.range count).map fun i => f.byteAt (position + i)

/-- Puts bytes at a position, a page at a time. The file keeps its size. -/
def store (f : File) (position : Nat) (bytes : List UInt8) : File :=
  if bytes = [] then f
  else
    (f.putInPage position bytes).store (position + room position) (bytes.drop (room position))
termination_by bytes.length
decreasing_by
  have hroom := room_pos position
  have hlength := List.length_pos_iff.2 ‹bytes ≠ []›
  rw [List.length_drop]
  omega

/-- Whether the pages of a file hold a range. A range of no bytes is held everywhere. -/
def covers (f : File) (position count : Nat) : Bool :=
  count = 0 || position + count ≤ wholePages f.size

/-- Reads through a mapping of the file. -/
def loadMapped (f : File) (position count : Nat) : Except Trap (List UInt8) :=
  if f.covers position count then .ok (f.load position count) else .error .pageMissing

/-- Writes through a mapping of the file, which keeps its size. Bytes ahead of a page that is
    missing are written. -/
def storeMapped (f : File) (position : Nat) (bytes : List UInt8) : Except Trap Unit × File :=
  if f.covers position bytes.length then (.ok (), f.store position bytes)
  else (.error .pageMissing, f.store position (bytes.take (wholePages f.size - position)))

/-- The bytes of a file at a position: `count` of them, or as many as there are. -/
def read (f : File) (position count : Nat) : List UInt8 :=
  f.load position (min (position + count) f.size - position)

/-- Writes bytes into a file, which grows if it has to. -/
def write (f : File) (position : Nat) (bytes : List UInt8) : File :=
  if bytes = [] then f
  else { f.store position bytes with size := max f.size (position + bytes.length) }

/-- Writes several pieces into a file, one after the other. -/
def writeAll (f : File) (pieces : List (Nat × List UInt8)) : File :=
  pieces.foldl (fun f piece => f.write piece.1 piece.2) f

/-- A file with the given contents. -/
def ofBytes (bytes : List UInt8) : File := (zeroed bytes.length).store 0 bytes

/-- The bytes that belong to a file. -/
def contents (f : File) : List UInt8 := f.load 0 f.size

theorem Page.getElem_put (page : Page) (offset i : Nat) (bytes : List UInt8)
    (hi : i < pageBytes) :
    (page.put offset bytes)[i] =
      if offset ≤ i ∧ i < offset + bytes.length then bytes.getD (i - offset) 0 else page[i] := by
  have hsize : i < page.toArray.size := by simpa using hi
  apply Option.some.inj
  rw [Page.put, Vector.getElem_mk, ← Array.getElem?_eq_getElem, Memory.getElem?_put]
  by_cases hrange : offset ≤ i ∧ i < offset + bytes.length
  · have hbytes : i - offset < bytes.length := by omega
    rw [if_pos ⟨hrange.1, hrange.2, hsize⟩, if_pos hrange, List.getElem?_eq_getElem hbytes,
      List.getD_eq_getElem?_getD, List.getElem?_eq_getElem hbytes, Option.getD_some]
  · rw [if_neg fun h => hrange ⟨h.1, h.2.1⟩, if_neg hrange, Array.getElem?_eq_getElem hsize,
      Vector.getElem_toArray]

/-- In the page of a position the new bytes stand from there on, and nothing else changes. -/
theorem byteAt_putInPage (f : File) (position i : Nat) (bytes : List UInt8) :
    (f.putInPage position bytes).byteAt i =
      if position ≤ i ∧ i < position + min (room position) bytes.length
      then bytes.getD (i - position) 0 else f.byteAt i := by
  have hi := Nat.div_add_mod i pageBytes
  have hposition := Nat.div_add_mod position pageBytes
  have hlt := mod_pageBytes_lt i
  have hlt' := mod_pageBytes_lt position
  have hroom : room position + position % pageBytes = pageBytes :=
    Nat.sub_add_cancel (Nat.le_of_lt hlt')
  simp only [byteAt, putInPage, Std.TreeMap.getElem?_alter]
  by_cases hpage : i / pageBytes = position / pageBytes
  · rw [hpage] at hi
    have hstart : position % pageBytes ≤ i % pageBytes ↔ position ≤ i := by omega
    have hdistance : i % pageBytes - position % pageBytes = i - position := by omega
    simp only [hpage, Std.ReflCmp.compare_self, if_true, Page.getElem_put, List.length_take,
      hstart, hdistance]
    by_cases hrange : position ≤ i ∧ i < position + min (room position) bytes.length
    · have hnear : i - position < room position := by omega
      rw [if_pos (by omega), if_pos hrange]
      simp [List.getD_eq_getElem?_getD, hnear]
    · rw [if_neg (by omega), if_neg hrange]
      cases f.pages[position / pageBytes]? <;> simp [blankPage]
  · have hne : compare (position / pageBytes) (i / pageBytes) ≠ .eq := by
      simpa using Ne.symm hpage
    have hfar : ¬ (position ≤ i ∧ i < position + min (room position) bytes.length) := by
      rintro ⟨hle, hbound⟩
      have hlow := Nat.div_le_div_right (c := pageBytes) hle
      have hhigh : i / pageBytes < position / pageBytes + 1 := by
        apply Nat.div_lt_of_lt_mul
        rw [Nat.mul_add]
        omega
      omega
    simp only [if_neg hne, if_neg hfar]

/-- After a store the new bytes stand at their positions, and nothing else changes. -/
theorem byteAt_store (f : File) (position i : Nat) (bytes : List UInt8) :
    (f.store position bytes).byteAt i =
      if position ≤ i ∧ i < position + bytes.length then bytes.getD (i - position) 0
      else f.byteAt i := by
  fun_induction store f position bytes with
  | case1 => rw [List.length_nil, if_neg (by omega)]
  | case2 f position bytes hbytes ih =>
    rw [ih, byteAt_putInPage, List.length_drop]
    by_cases hpast : position + room position ≤ i ∧ i < position + bytes.length
    · have hskip : room position + (i - (position + room position)) = i - position := by omega
      rw [if_pos (by omega), if_pos (by omega), List.getD_eq_getElem?_getD, List.getElem?_drop,
        hskip, List.getD_eq_getElem?_getD]
    · rw [if_neg (by omega)]
      congr 1
      simp only [eq_iff_iff]
      omega

@[simp]
theorem size_store (f : File) (position : Nat) (bytes : List UInt8) :
    (f.store position bytes).size = f.size := by
  fun_induction store f position bytes with
  | case1 => rfl
  | case2 f position bytes hbytes ih => rw [ih, putInPage]

/-- A file made of bytes holds them. -/
@[simp]
theorem contents_ofBytes (bytes : List UInt8) : (ofBytes bytes).contents = bytes := by
  apply List.ext_getElem
  · simp [contents, load, ofBytes, zeroed]
  · intro i h₁ h₂
    simp [contents, load, ofBytes, byteAt_store, h₂]

end File

end DmaLink
