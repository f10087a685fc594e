import DmaLink.Bytes
import DmaLink.FileTree
import DmaLink.Window
import DmaLink.Word

namespace DmaLink

/-- A mapped range of a file. Its registers and its words are two views of the same little-endian
    bytes. A mapping takes up whole pages, so a region may end behind its file, in the rest of the
    last page; what lies behind that page cannot be touched. -/
structure Region where
  /-- Where the file stands. -/
  place : FileTree.Place
  /-- The first byte of the range. -/
  address : Nat
  /-- The bytes in the range. -/
  size : Nat
deriving DecidableEq, Repr

namespace Region

/-- The first offset that no file can have; every mapping ends before it. -/
def offsetLimit : Nat := 0x8000000000000000

/-- Checks that a range can be mapped from what stands at a place, in an address space with room for
    `room` bytes. -/
def checkRange (room : Nat) (entry : Option FileTree.Entry) (address size : Nat) :
    Except FileFault Unit :=
  let span := File.wholePages size
  if room < span ∨ Size.limit ≤ span then .error .outOfMemory
  else
    match entry with
    | some .sink => .error .noDevice
    | _ => if offsetLimit ≤ address + span then .error .offsetTooLarge else .ok ()

/-- Maps a range of a file. The file may end inside the range or ahead of it. -/
def map (room : Nat) (files : FileTree) (path : String) (address size : Nat) :
    Except LinkError Region :=
  if size = 0 then .error (.cannotMap path .empty)
  else if address % File.pageBytes ≠ 0 then .error (.cannotMap path (.unaligned address))
  else
    match files.openPath path with
    | .error fault => .error (.cannotMap path (.cannotOpen fault))
    | .ok place =>
      match checkRange room (files.at? place) address size with
      | .error fault => .error (.cannotMap path (.refused fault))
      | .ok () => .ok ⟨place, address, size⟩

/-- The words that fit the region. -/
def words (r : Region) : Nat := r.size / wordBytes

/-- Checks that a register lies in the region. -/
def checkRegister (r : Region) (offset : Nat) : Except Trap Unit :=
  match Size.add offset 4 with
  | .error cause => .error cause
  | .ok bound => if bound ≤ r.size then .ok () else .error .registerOutOfBounds

/-- Reads the register at an offset. -/
def readRegister (r : Region) (memory : File) (offset : Nat) : Except Trap UInt32 :=
  match r.checkRegister offset with
  | .error cause => .error cause
  | .ok () => (memory.loadMapped (r.address + offset) 4).map Bytes.toUInt32

/-- Writes the register at an offset. -/
def writeRegister (r : Region) (memory : File) (offset : Nat) (value : UInt32) :
    Except Trap Unit × File :=
  match r.checkRegister offset with
  | .error cause => (.error cause, memory)
  | .ok () => memory.storeMapped (r.address + offset) (Bytes.ofUInt32 value)

/-- The word at a position. -/
def wordAt (r : Region) (memory : File) (position : Nat) : UInt64 :=
  Bytes.toUInt64 (memory.load (r.address + position * wordBytes) wordBytes)

/-- The bytes of the words at a position, if the pages of the file hold them all. -/
def coversWords (r : Region) (memory : File) (start len : Nat) : Bool :=
  memory.covers (r.address + start * wordBytes) (len * wordBytes)

/-- What the region answers as a window. Words that are refused are not touched. -/
def answer (r : Region) : (access : Window.Access) → File → Except Trap access.Reply × File
  | .load start len, memory =>
    match checkBounds start len r.words with
    | .error cause => (.ok (.error cause), memory)
    | .ok () =>
      if r.coversWords memory start len then
        (.ok (.ok (Vector.ofFn fun i => r.wordAt memory (start + i))), memory)
      else (.error .pageMissing, memory)
  | .store start words, memory =>
    match checkBounds start words.length r.words with
    | .error cause => (.ok (.error cause), memory)
    | .ok () =>
      match memory.storeMapped (r.address + start * wordBytes)
          (words.flatMap Bytes.ofUInt64) with
      | (result, memory) => (result.map .ok, memory)

/-- Writes words at a position. -/
def writeWords (r : Region) (memory : File) (start : Nat) (words : List UInt64) :
    Except Fault Unit × File :=
  match r.answer (.store start words) memory with
  | (reply, memory) => (Fault.join reply, memory)

/-- Reads the words at a position over a buffer of as many. -/
def readWords (r : Region) (memory : File) (start : Nat) (buffer : List UInt64) :
    Except Fault Unit × List UInt64 :=
  match (r.answer (.load start buffer.length) memory).1 with
  | .error cause => (.error (.trap cause), buffer)
  | .ok reply =>
    match Window.fill buffer reply with
    | (result, buffer) => (result.mapError .error, buffer)

/-- Reads the word at a position. -/
def readWord (r : Region) (memory : File) (position : Nat) : Except Fault UInt64 :=
  match r.readWords memory position [0] with
  | (.ok (), buffer) => .ok (buffer.headD 0)
  | (.error cause, _) => .error cause

end Region

end DmaLink
