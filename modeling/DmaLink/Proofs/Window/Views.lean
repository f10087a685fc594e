import DmaLink.Proofs.Bytes
import DmaLink.Region

namespace DmaLink

/-- A row of bytes that was written to a file, from a position on. -/
structure Patch where
  start : Nat
  bytes : List UInt8
deriving DecidableEq, Repr

namespace Patch

/-- The byte that a patch puts at a position. -/
def byte? (patch : Patch) (position : Nat) : Option UInt8 :=
  if patch.start ≤ position then patch.bytes[position - patch.start]? else none

/-- The byte at a position after some patches, the latest one last: what the latest patch over it
    puts there, and what was there before if there is none. -/
def latest (before : Nat → UInt8) (patches : List Patch) (position : Nat) : UInt8 :=
  (patches.reverse.findSome? (·.byte? position)).getD (before position)

variable {patch : Patch} {patches : List Patch} {before : Nat → UInt8} {position : Nat}

theorem byte?_of_outside
    (houtside : position < patch.start ∨ patch.start + patch.bytes.length ≤ position) :
    patch.byte? position = none := by
  rw [byte?]
  split
  case isTrue hstart => exact List.getElem?_eq_none (by omega)
  case isFalse => rfl

/-- A byte behind a store is the one stored there, or the one it was. -/
theorem byteAt_store (f : File) (patch : Patch) (position : Nat) :
    (f.store patch.start patch.bytes).byteAt position =
      (patch.byte? position).getD (f.byteAt position) := by
  rw [File.byteAt_store]
  split
  case isTrue hinside =>
    have hbyte : position - patch.start < patch.bytes.length := by omega
    rw [byte?, if_pos hinside.1, List.getD_eq_getElem?_getD, List.getElem?_eq_getElem hbyte,
      Option.getD_some, Option.getD_some]
  case isFalse houtside => rw [byte?_of_outside (by omega), Option.getD_none]

/-- What the first patch leaves is what was there before the others. -/
theorem latest_cons (before : Nat → UInt8) (patch : Patch) (patches : List Patch)
    (position : Nat) :
    latest before (patch :: patches) position =
      latest (fun i => (patch.byte? i).getD (before i)) patches position := by
  rw [latest, latest, List.reverse_cons, List.findSome?_append, List.findSome?_singleton]
  cases patches.reverse.findSome? (·.byte? position) with
  | none => rw [Option.none_or, Option.getD_none]
  | some byte => rfl

/-- Patches elsewhere do not matter to a byte. -/
theorem latest_of_outside (houtside : ∀ patch ∈ patches,
      position < patch.start ∨ patch.start + patch.bytes.length ≤ position) :
    latest before patches position = before position := by
  have hnone : patches.reverse.findSome? (·.byte? position) = none :=
    List.findSome?_eq_none_iff.2 fun patch hpatch =>
      byte?_of_outside (houtside patch (List.mem_reverse.1 hpatch))
  rw [latest, hnone, Option.getD_none]

end Patch

namespace Bytes

@[simp]
theorem length_ofUInt32 (value : UInt32) : (ofUInt32 value).length = 4 := length_ofNat 4 _

@[simp]
theorem length_ofUInt64 (value : UInt64) : (ofUInt64 value).length = 8 := length_ofNat 8 _

theorem length_flatMap_ofUInt64 (words : List UInt64) :
    (words.flatMap ofUInt64).length = words.length * 8 := by
  induction words with
  | nil => rfl
  | cons word rest ih =>
    rw [List.flatMap_cons, List.length_append, ih, length_ofUInt64, List.length_cons]
    omega

/-- Eight bytes as one word are its lower and its upper four bytes as two registers. -/
theorem toNat_toUInt64_append {low : List UInt8} (high : List UInt8) (hlow : low.length = 4) :
    (toUInt64 (low ++ high)).toNat =
      (toUInt32 low).toNat + 2 ^ 32 * (toUInt32 high).toNat := by
  have hlower := toNat_lt low
  rw [hlow] at hlower
  rw [toUInt64, toUInt32, toUInt32, UInt64.toNat_ofNat', UInt32.toNat_ofNat', UInt32.toNat_ofNat',
    toNat_append, hlow]
  omega

end Bytes

namespace Region

/-- What can be done to a region that its bytes may change by. -/
inductive Access where
  /-- Writes the register at an offset. -/
  | writeRegister (offset : Nat) (value : UInt32)
  /-- Writes words at a position. -/
  | writeWords (start : Nat) (words : List UInt64)
  /-- Reads words at a position over a buffer. -/
  | readWords (start : Nat) (buffer : List UInt64)
  /-- Reads the word at a position. -/
  | readWord (position : Nat)

/-- The pages of the file hold all of the region. -/
def Backed (r : Region) (memory : File) : Prop :=
  r.address + r.size ≤ File.wholePages memory.size

/-- Registers are at aligned offsets and lie in the region. Words may be anywhere. -/
def Access.Proper (r : Region) : Access → Prop
  | .writeRegister offset _ => 4 ∣ offset ∧ offset + 4 ≤ r.size
  | _ => True

/-- The file after an access. -/
def perform (r : Region) (memory : File) : Access → File
  | .writeRegister offset value => (r.writeRegister memory offset value).2
  | .writeWords start words => (r.writeWords memory start words).2
  | .readWords start buffer => (r.answer (.load start buffer.length) memory).2
  | .readWord position => (r.answer (.load position 1) memory).2

/-- The file after one access after the other. -/
def performAll (r : Region) (memory : File) (accesses : List Access) : File :=
  accesses.foldl r.perform memory

/-- What an access writes to the file, if it writes anything. -/
def Access.patch? (r : Region) : Access → Option Patch
  | .writeRegister offset value => some ⟨r.address + offset, Bytes.ofUInt32 value⟩
  | .writeWords start words =>
    if start + words.length ≤ r.words then
      some ⟨r.address + 8 * start, words.flatMap Bytes.ofUInt64⟩
    else none
  | _ => none

section Backing

variable {r : Region} {memory : File}

theorem Backed.of_size_eq (hbacked : r.Backed memory) {memory' : File}
    (hsize : memory'.size = memory.size) : r.Backed memory' := by
  rwa [Backed, hsize]

/-- Memory that backs a region covers every range inside it. -/
theorem Backed.covers (hbacked : r.Backed memory) {offset count : Nat}
    (hinside : offset + count ≤ r.size) : memory.covers (r.address + offset) count = true := by
  have hpages : r.address + offset + count ≤ File.wholePages memory.size :=
    Nat.le_trans (by omega) hbacked
  rw [File.covers, decide_eq_true hpages, Bool.or_true]

/-- What lies in a region that its file holds can be read. -/
theorem Backed.loadMapped_eq (hbacked : r.Backed memory) {offset count : Nat}
    (hinside : offset + count ≤ r.size) :
    memory.loadMapped (r.address + offset) count =
      .ok (memory.load (r.address + offset) count) :=
  if_pos (hbacked.covers hinside)

/-- What lies in a region that its file holds can be written. -/
theorem Backed.storeMapped_eq (hbacked : r.Backed memory) {offset : Nat} {bytes : List UInt8}
    (hinside : offset + bytes.length ≤ r.size) :
    memory.storeMapped (r.address + offset) bytes =
      (.ok (), memory.store (r.address + offset) bytes) :=
  if_pos (hbacked.covers hinside)

theorem Backed.coversWords (hbacked : r.Backed memory) {start len : Nat}
    (hshort : start + len ≤ r.words) : r.coversWords memory start len = true := by
  refine hbacked.covers ?_
  simp only [Region.words, wordBytes] at hshort ⊢
  omega

end Backing

section Steps

variable {r : Region} {access : Access}

/-- A register inside the region passes its check. -/
theorem checkRegister_eq_ok (hsize : r.size < Size.limit) {offset : Nat}
    (hinside : offset + 4 ≤ r.size) : r.checkRegister offset = .ok () := by
  have hsum : Size.add offset 4 = .ok (offset + 4) :=
    Size.add_eq_ok_iff.2 ⟨Nat.lt_of_le_of_lt hinside hsize, rfl⟩
  rw [checkRegister, hsum]
  exact if_pos hinside

theorem writeRegister_eq (hsize : r.size < Size.limit) {memory : File}
    (hbacked : r.Backed memory) {offset : Nat} (hinside : offset + 4 ≤ r.size) (value : UInt32) :
    r.writeRegister memory offset value =
      (.ok (), memory.store (r.address + offset) (Bytes.ofUInt32 value)) := by
  rw [writeRegister, checkRegister_eq_ok hsize hinside]
  exact hbacked.storeMapped_eq (by rwa [Bytes.length_ofUInt32])

/-- Storing words inside the region stores their bytes. -/
theorem answer_store {memory : File} (hbacked : r.Backed memory) {start : Nat}
    {words : List UInt64} (hshort : start + words.length ≤ r.words) :
    r.answer (.store start words) memory =
      (.ok (.ok ()), memory.store (r.address + start * 8) (words.flatMap Bytes.ofUInt64)) := by
  have hcheck : checkBounds start words.length r.words = .ok () := if_pos hshort
  have hinside : start * 8 + (words.flatMap Bytes.ofUInt64).length ≤ r.size := by
    simp only [Region.words, wordBytes] at hshort
    rw [Bytes.length_flatMap_ofUInt64]
    omega
  simp only [answer, hcheck, wordBytes, hbacked.storeMapped_eq hinside]
  rfl

theorem answer_store_of_lt (memory : File) {start : Nat} {words : List UInt64}
    (hlong : r.words < start + words.length) :
    r.answer (.store start words) memory =
      (.ok (.error (.outOfBounds start words.length r.words)), memory) := by
  have hcheck : checkBounds start words.length r.words =
      .error (.outOfBounds start words.length r.words) := if_neg (Nat.not_le.2 hlong)
  rw [answer, hcheck]

/-- Loading changes nothing. -/
theorem answer_load_snd (r : Region) (memory : File) (start len : Nat) :
    (r.answer (.load start len) memory).2 = memory := by
  simp only [answer]
  split
  case h_1 => rfl
  case h_2 => split <;> rfl

/-- An access stores its patch and does nothing else. -/
theorem perform_eq (hsize : r.size < Size.limit) (hproper : access.Proper r) {memory : File}
    (hbacked : r.Backed memory) :
    r.perform memory access =
      match access.patch? r with
      | some patch => memory.store patch.start patch.bytes
      | none => memory := by
  cases access with
  | writeRegister offset value =>
    exact congrArg Prod.snd (writeRegister_eq hsize hbacked hproper.2 value)
  | writeWords start words =>
    by_cases hshort : start + words.length ≤ r.words
    · rw [perform, writeWords, answer_store hbacked hshort, Access.patch?, if_pos hshort,
        Nat.mul_comm 8 start]
    · rw [perform, writeWords, answer_store_of_lt memory (Nat.not_le.1 hshort), Access.patch?,
        if_neg hshort]
  | readWords start buffer => exact answer_load_snd r memory start buffer.length
  | readWord position => exact answer_load_snd r memory position 1

/-- A patch lies in the region. -/
theorem inside_of_patch? (hproper : access.Proper r) {patch : Patch}
    (hpatch : access.patch? r = some patch) :
    r.address ≤ patch.start ∧ patch.start + patch.bytes.length ≤ r.address + r.size := by
  cases access with
  | writeRegister offset value =>
    cases hpatch
    have hinside := hproper.2
    simp only [Bytes.length_ofUInt32]
    omega
  | writeWords start words =>
    simp only [Access.patch?] at hpatch
    split at hpatch
    case isTrue hshort =>
      cases hpatch
      simp only [Region.words, wordBytes] at hshort
      simp only [Bytes.length_flatMap_ofUInt64]
      omega
    case isFalse => exact nomatch hpatch
  | readWords start buffer => exact nomatch hpatch
  | readWord position => exact nomatch hpatch

/-- No access changes the size of the memory. -/
theorem size_perform (hsize : r.size < Size.limit) (hproper : access.Proper r) {memory : File}
    (hbacked : r.Backed memory) : (r.perform memory access).size = memory.size := by
  rw [perform_eq hsize hproper hbacked]
  split
  case h_1 => exact File.size_store _ _ _
  case h_2 => rfl

/-- After any accesses each byte of the file is the one that was put there last. -/
theorem byteAt_performAll (hsize : r.size < Size.limit) {memory : File}
    (hbacked : r.Backed memory) {accesses : List Access}
    (hproper : ∀ access ∈ accesses, access.Proper r) :
    (r.performAll memory accesses).byteAt =
      Patch.latest memory.byteAt (accesses.filterMap (·.patch? r)) := by
  induction accesses generalizing memory with
  | nil => rfl
  | cons access rest ih =>
    obtain ⟨hfirst, hrest⟩ := List.forall_mem_cons.1 hproper
    rw [performAll, List.foldl_cons]
    refine (ih (hbacked.of_size_eq (size_perform hsize hfirst hbacked)) hrest).trans ?_
    rw [perform_eq hsize hfirst hbacked, List.filterMap_cons]
    cases access.patch? r with
    | none => rfl
    | some patch =>
      funext position
      rw [Patch.latest_cons]
      congr 1
      funext i
      exact Patch.byteAt_store memory patch i

theorem size_performAll (hsize : r.size < Size.limit) {memory : File}
    (hbacked : r.Backed memory) {accesses : List Access}
    (hproper : ∀ access ∈ accesses, access.Proper r) :
    (r.performAll memory accesses).size = memory.size := by
  induction accesses generalizing memory with
  | nil => rfl
  | cons access rest ih =>
    obtain ⟨hfirst, hrest⟩ := List.forall_mem_cons.1 hproper
    have hkept := size_perform hsize hfirst hbacked
    exact (ih (hbacked.of_size_eq hkept) hrest).trans hkept

end Steps

section Looks

variable {r : Region} {memory : File}

theorem writeWords_of_le (hbacked : r.Backed memory) {start : Nat} {words : List UInt64}
    (hshort : start + words.length ≤ r.words) : (r.writeWords memory start words).1 = .ok () := by
  rw [writeWords, answer_store hbacked hshort]
  rfl

theorem writeWords_of_lt {start : Nat} {words : List UInt64}
    (hlong : r.words < start + words.length) (memory : File) :
    r.writeWords memory start words =
      (.error (.error (.outOfBounds start words.length r.words)), memory) := by
  rw [writeWords, answer_store_of_lt memory hlong]
  rfl

theorem toList_ofFn_range {α : Type} (count : Nat) (f : Nat → α) :
    (Vector.ofFn fun i : Fin count => f i).toList = (List.range count).map f := by
  apply List.ext_getElem
  · simp
  · intro i _ _
    simp

/-- Reading words gives those at their places, or refuses the range and leaves the buffer. -/
theorem readWords_eq (hbacked : r.Backed memory) (start : Nat) (buffer : List UInt64) :
    r.readWords memory start buffer =
      if start + buffer.length ≤ r.words then
        (.ok (), (List.range buffer.length).map fun i => r.wordAt memory (start + i))
      else (.error (.error (.outOfBounds start buffer.length r.words)), buffer) := by
  by_cases hshort : start + buffer.length ≤ r.words
  · have hcheck : checkBounds start buffer.length r.words = .ok () := if_pos hshort
    simp only [readWords, answer, hcheck, hbacked.coversWords hshort, if_true, if_pos hshort]
    exact congrArg (Prod.mk _) (toList_ofFn_range _ fun i => r.wordAt memory (start + i))
  · have hcheck : checkBounds start buffer.length r.words =
        .error (.outOfBounds start buffer.length r.words) := if_neg hshort
    rw [readWords, answer, hcheck, if_neg hshort]
    rfl

theorem readWord_eq (hbacked : r.Backed memory) (position : Nat) :
    r.readWord memory position =
      if position < r.words then .ok (r.wordAt memory position)
      else .error (.error (.outOfBounds position 1 r.words)) := by
  rw [readWord, readWords_eq hbacked, List.length_singleton]
  by_cases hinside : position + 1 ≤ r.words
  · rw [if_pos hinside, if_pos (Nat.lt_of_succ_le hinside)]
    rfl
  · rw [if_neg hinside, if_neg fun h => hinside (Nat.succ_le_of_lt h)]

/-- Reading a register gives the number its four bytes stand for. -/
theorem readRegister_eq (hsize : r.size < Size.limit) (hbacked : r.Backed memory) {offset : Nat}
    (hinside : offset + 4 ≤ r.size) :
    r.readRegister memory offset =
      .ok (Bytes.toUInt32 (memory.load (r.address + offset) 4)) := by
  rw [readRegister, checkRegister_eq_ok hsize hinside]
  simp only [hbacked.loadMapped_eq hinside]
  rfl

/-- A register in a page that the file does not have cannot be read, wherever the region goes on. -/
theorem readRegister_of_missing (hsize : r.size < Size.limit) {offset : Nat}
    (hinside : offset + 4 ≤ r.size)
    (hmissing : File.wholePages memory.size < r.address + offset + 4) :
    r.readRegister memory offset = .error .pageMissing := by
  have hcovers : memory.covers (r.address + offset) 4 = false := by
    rw [File.covers, decide_eq_false (Nat.not_le.2 hmissing)]
    rfl
  rw [readRegister, checkRegister_eq_ok hsize hinside]
  simp only [File.loadMapped, hcovers]
  rfl

theorem load_add (memory : File) (position count more : Nat) :
    memory.load position (count + more) =
      memory.load position count ++ memory.load (position + count) more := by
  simp only [File.load, List.range_add, List.map_append, List.map_map, Function.comp_def,
    Nat.add_assoc]

/-- A word is the register at its place and the one behind that. -/
theorem toNat_wordAt (r : Region) (memory : File) (position : Nat) :
    (r.wordAt memory position).toNat =
      (Bytes.toUInt32 (memory.load (r.address + 8 * position) 4)).toNat +
        2 ^ 32 * (Bytes.toUInt32 (memory.load (r.address + (8 * position + 4)) 4)).toNat := by
  rw [wordAt, wordBytes, Nat.mul_comm position 8, load_add memory _ 4 4,
    Bytes.toNat_toUInt64_append _ (by simp [File.load]), Nat.add_assoc]

end Looks

/-- A region that is mapped is the range that was asked for, of a file. -/
theorem spec_of_map_eq_ok {room : Nat} {files : FileTree} {path : String} {address size : Nat}
    {r : Region} (hmap : map room files path address size = .ok r) :
    r.address = address ∧ r.size = size ∧ r.size < Size.limit ∧
      files.at? r.place = some (.file (files.fileAt r.place)) := by
  have hpages : size ≤ File.wholePages size := by
    simp only [File.wholePages, File.pageBytes]
    omega
  simp only [map] at hmap
  split at hmap
  case isTrue => exact nomatch hmap
  split at hmap
  case isTrue => exact nomatch hmap
  split at hmap
  case h_1 => exact nomatch hmap
  case h_2 place hopen =>
    obtain ⟨entry, hstands, hentry⟩ := FileTree.exists_of_openPath_eq_ok hopen
    split at hmap
    case h_1 => exact nomatch hmap
    case h_2 hrange =>
      cases hmap
      simp only [checkRange, hstands] at hrange
      split at hrange
      case isTrue => exact nomatch hrange
      case isFalse hfits =>
        rw [not_or, Nat.not_le] at hfits
        refine ⟨rfl, rfl, Nat.lt_of_le_of_lt hpages hfits.2, ?_⟩
        cases entry with
        | directory => exact absurd rfl hentry
        | file memory => simp only [FileTree.fileAt, hstands]
        | sink => exact nomatch hrange

/-- The bytes of a range. -/
def row (byte : Nat → UInt8) (start count : Nat) : List UInt8 :=
  (List.range count).map fun i => byte (start + i)

section Views

variable {room : Nat} {files : FileTree} {path : String} {address size : Nat} {r : Region}
  {accesses : List Access}

/-- The registers and the words of a region that is mapped from a file, and that the pages of the
    file hold, are two views of the same bytes. Whatever is written and read through either, a byte
    is the one that the latest patch over it has put there. Words are written and read exactly if
    they lie in the region, and are refused otherwise with nothing changed; each word is two
    registers. What no patch covers has stayed as it was. -/
theorem views_performAll (hmap : map room files path address size = .ok r)
    (hcovers : address + size ≤ File.wholePages (files.fileAt r.place).size)
    (hproper : ∀ access ∈ accesses, access.Proper r) :
    let memory := files.fileAt r.place
    let memory' := r.performAll memory accesses
    let patches := accesses.filterMap (·.patch? r)
    let byte (i : Nat) := Patch.latest memory.byteAt patches (r.address + i)
    let word (i : Nat) := Bytes.toUInt64 (row byte (8 * i) 8)
    files.at? r.place = some (.file memory) ∧
    r.words = size / 8 ∧
    (∀ offset value, offset + 4 ≤ size → (r.writeRegister memory' offset value).1 = .ok ()) ∧
    (∀ start words,
      (start + words.length ≤ r.words → (r.writeWords memory' start words).1 = .ok ()) ∧
      (r.words < start + words.length → r.writeWords memory' start words =
        (.error (.error (.outOfBounds start words.length r.words)), memory'))) ∧
    (∀ start buffer, r.readWords memory' start buffer =
      if start + buffer.length ≤ r.words then
        (.ok (), (List.range buffer.length).map fun i => word (start + i))
      else (.error (.error (.outOfBounds start buffer.length r.words)), buffer)) ∧
    (∀ position, r.readWord memory' position =
      if position < r.words then .ok (word position)
      else .error (.error (.outOfBounds position 1 r.words))) ∧
    (∀ offset, offset + 4 ≤ size →
      r.readRegister memory' offset = .ok (Bytes.toUInt32 (row byte offset 4))) ∧
    (∀ i < r.words, ∃ low high, r.readRegister memory' (8 * i) = .ok low ∧
      r.readRegister memory' (8 * i + 4) = .ok high ∧
      (word i).toNat = low.toNat + 2 ^ 32 * high.toNat) ∧
    (∀ patch ∈ patches,
      r.address ≤ patch.start ∧ patch.start + patch.bytes.length ≤ r.address + size) ∧
    (∀ position, (∀ patch ∈ patches,
        position < patch.start ∨ patch.start + patch.bytes.length ≤ position) →
      memory'.byteAt position = memory.byteAt position) ∧
    memory'.size = memory.size := by
  intro memory memory' patches byte word
  obtain ⟨rfl, rfl, hlimit, hfile⟩ := spec_of_map_eq_ok hmap
  have hbacked : r.Backed memory := hcovers
  have hkept : memory'.size = memory.size := size_performAll hlimit hbacked hproper
  have hbacked' : r.Backed memory' := hbacked.of_size_eq hkept
  have hbytes : memory'.byteAt = Patch.latest memory.byteAt patches :=
    byteAt_performAll hlimit hbacked hproper
  have hrow (start count : Nat) :
      memory'.load (r.address + start) count = row byte start count := by
    simp only [File.load, row, byte, hbytes, Nat.add_assoc]
  have hword (i : Nat) : r.wordAt memory' i = word i := by
    rw [wordAt, wordBytes, Nat.mul_comm i 8, hrow]
  have hregister {offset : Nat} (hinside : offset + 4 ≤ r.size) :
      r.readRegister memory' offset = .ok (Bytes.toUInt32 (row byte offset 4)) := by
    rw [readRegister_eq hlimit hbacked' hinside, hrow]
  refine ⟨hfile, rfl, fun offset value hinside => ?_, fun start words =>
    ⟨writeWords_of_le hbacked', fun hlong => writeWords_of_lt hlong memory'⟩,
    fun start buffer => ?_, fun position => ?_, fun offset => hregister, fun i hi => ?_,
    fun patch hpatch => ?_, fun position houtside => ?_, hkept⟩
  · rw [writeRegister_eq hlimit hbacked' hinside]
  · simp only [readWords_eq hbacked', hword]
  · rw [readWord_eq hbacked', hword]
  · simp only [Region.words, wordBytes] at hi
    refine ⟨_, _, hregister (by omega), hregister (by omega), ?_⟩
    rw [← hword, toNat_wordAt, hrow, hrow]
  · obtain ⟨access, haccess, hsome⟩ := List.mem_filterMap.1 hpatch
    exact inside_of_patch? (hproper access haccess) hsome
  · rw [hbytes, Patch.latest_of_outside houtside]

/-- A register is written over the upper half of a word, words at the largest position are refused,
    and the four bytes behind the last whole word are a register only, which stands behind the end
    of its file in the last page. -/
theorem views_performAll_overlapping :
    let files : FileTree := ⟨[([], .directory), (["memory"], .file (.zeroed 17))], []⟩
    let r : Region := ⟨["memory"], 0, 20⟩
    let accesses : List Access := [.writeWords 0 [0x1122334455667788, 5], .writeRegister 16 6,
      .writeWords 18446744073709551615 [1], .writeRegister 4 0xaabbccdd]
    let memory := r.performAll (files.fileAt r.place) accesses
    map 4096 files "memory" 0 20 = .ok r ∧ (files.fileAt r.place).size = 17 ∧
      (∀ access ∈ accesses, access.Proper r) ∧
      r.readWord memory 0 = .ok 0xaabbccdd55667788 ∧ r.readRegister memory 4 = .ok 0xaabbccdd ∧
      r.readWords memory 1 [0, 0] = (.error (.error (.outOfBounds 1 2 2)), [0, 0]) := by
  intro files r accesses memory
  have hmap : map 4096 files "memory" 0 20 = .ok r := by rfl
  have hmemory : files.fileAt r.place = .zeroed 17 := by rfl
  have hsize : (files.fileAt r.place).size = 17 := congrArg File.size hmemory
  have hproper : ∀ access ∈ accesses, access.Proper r := by
    simp [accesses, Access.Proper, r]
  obtain ⟨-, -, -, -, hwords, hword, hregister, -⟩ :=
    views_performAll hmap (by rw [hsize]; decide) hproper
  refine ⟨hmap, hsize, hproper, (hword 0).trans ?_, (hregister 4 (by decide)).trans ?_,
    (hwords 1 [0, 0]).trans ?_⟩ <;> simp only [hmemory, r, accesses] <;> rfl

end Views

end Region

end DmaLink
