import DmaLink.Fault
import DmaLink.File
import DmaLink.Path

namespace DmaLink

/-- A place in a tree: the names on the way from the root, the last one first. -/
abbrev FileTree.Place := List String

/-- What stands at a place. -/
inductive FileTree.Entry where
  | directory
  | file (file : File)
  /-- A device that holds nothing: reading it ends at once and writing it leaves no trace. -/
  | sink

/-- A small tree of files: what stands at each place. A path is followed name by name from the root
    or from the working directory. Every name needs a directory to be looked up in, an empty name
    and `.` stay there, and `..` goes back one step. -/
structure FileTree where
  entries : List (FileTree.Place × FileTree.Entry)
  /-- Where the paths start that do not start at the root. -/
  working : FileTree.Place

namespace FileTree

/-- What stands at a place, if anything does. -/
def at? (t : FileTree) (place : Place) : Option Entry := t.entries.lookup place

/-- Clears a place. -/
def remove (t : FileTree) (place : Place) : FileTree :=
  { t with entries := t.entries.filter fun e => e.1 != place }

/-- Puts an entry at a place, instead of any that stands there. -/
def put (t : FileTree) (place : Place) (entry : Entry) : FileTree :=
  ⟨(place, entry) :: (t.remove place).entries, t.working⟩

/-- The longest name of a place, in bytes. -/
def maxNameBytes : Nat := 255

/-- The longest path, in bytes. -/
def maxPathBytes : Nat := 4095

/-- Follows one name from a place. -/
def step (t : FileTree) (place : Place) (name : String) : Except FileFault Place :=
  match t.at? place with
  | none => .error .notFound
  | some .directory =>
    if name = "" ∨ name = "." then .ok place
    else if name = ".." then .ok place.tail
    else if maxNameBytes < name.utf8ByteSize then .error .nameTooLong
    else .ok (name :: place)
  | some _ => .error .notDirectory

/-- The place where a path starts. -/
def start (t : FileTree) (path : String) : Place := if Path.isAbsolute path then [] else t.working

/-- The place that a path leads to. Something has to stand everywhere on the way, but not
    there. -/
def locate (t : FileTree) (path : String) : Except FileFault Place :=
  if path.toList.contains '\x00' then .error .containsNul
  else if path = "" then .error .notFound
  else if maxPathBytes < path.utf8ByteSize then .error .nameTooLong
  else (Path.names path).foldlM t.step (t.start path)

/-- The place that a path leads to and what stands there, or why nothing is found. -/
def find (t : FileTree) (path : String) : Except FileFault (Place × Entry) :=
  match t.locate path with
  | .error fault => .error fault
  | .ok place =>
    match t.at? place with
    | none => .error .notFound
    | some entry => .ok (place, entry)

/-- Opens what stands at a path for reading and writing. What is open is known by its place. -/
def openPath (t : FileTree) (path : String) : Except FileFault Place :=
  match t.find path with
  | .error fault => .error fault
  | .ok (_, .directory) => .error .isDirectory
  | .ok (place, _) => .ok place

/-- What a path leads to stands in the tree. -/
theorem at?_of_find_eq_ok {t : FileTree} {path : String} {place : Place} {entry : Entry}
    (hfind : t.find path = .ok (place, entry)) : t.at? place = some entry := by
  rw [find] at hfind
  split at hfind
  case h_1 => exact nomatch hfind
  case h_2 =>
    split at hfind
    case h_1 => exact nomatch hfind
    case h_2 hstands =>
      cases hfind
      exact hstands

/-- What is open stands in the tree and is no directory. -/
theorem exists_of_openPath_eq_ok {t : FileTree} {path : String} {place : Place}
    (hopen : t.openPath path = .ok place) :
    ∃ entry, t.at? place = some entry ∧ entry ≠ .directory := by
  rw [openPath] at hopen
  cases hfind : t.find path with
  | error fault =>
    rw [hfind] at hopen
    exact nomatch hopen
  | ok found =>
    obtain ⟨found, entry⟩ := found
    rw [hfind] at hopen
    cases entry with
    | directory => exact nomatch hopen
    | file memory =>
      cases hopen
      exact ⟨_, at?_of_find_eq_ok hfind, nofun⟩
    | sink =>
      cases hopen
      exact ⟨_, at?_of_find_eq_ok hfind, nofun⟩

/-- The file at a place, and an empty one where no file stands. -/
def fileAt (t : FileTree) (place : Place) : File :=
  match t.at? place with
  | some (.file file) => file
  | _ => .zeroed 0

/-- The file that a path leads to, and an empty one where no file is found. -/
def file (t : FileTree) (path : String) : File :=
  match t.find path with
  | .ok (_, .file file) => file
  | _ => .zeroed 0

/-- The file at a place and the tree without it. -/
@[noinline]
def take? (t : FileTree) (place : Place) : Option (File × FileTree) :=
  match t.at? place with
  | some (.file file) => some (file, t.remove place)
  | _ => none

/-- Lets something happen to the file at a place, which is put back as it is left. Where no file
    stands it happens to an empty one that is not kept. -/
def change (t : FileTree) (place : Place) (act : File → α × File) : α × FileTree :=
  match t.take? place with
  | some (file, rest) =>
    match act file with
    | (result, file) => (result, rest.put place (.file file))
  | none => ((act (.zeroed 0)).1, t)

/-- Writes a whole file, which is made if the place is free. -/
def writeFile (t : FileTree) (path : String) (bytes : List UInt8) : Except FileFault FileTree :=
  match t.locate path with
  | .error fault => .error fault
  | .ok place =>
    match t.at? place with
    | some .directory => .error .isDirectory
    | some .sink => .ok t
    | _ => .ok (t.put place (.file (.ofBytes bytes)))

/-- Follows one name, first making a directory where nothing stands. -/
def makeStep : FileTree × Place → (name : String) → Except FileFault (FileTree × Place)
  | (t, place), name =>
    let t := if (t.at? place).isNone then t.put place .directory else t
    (t.step place name).map fun next => (t, next)

/-- Puts an entry at a path. Directories that are missing on the way are made; a path that leads
    through a file leaves the tree as it is. -/
def insert (t : FileTree) (path : String) (entry : Entry) : FileTree :=
  match (Path.names path).foldlM makeStep (t, t.start path) with
  | .ok (made, place) => made.put place entry
  | .error _ => t

/-- The directories that every system has below its root. -/
def systemDirectories : List String :=
  ["bin", "boot", "dev", "etc", "home", "lib", "media", "mnt", "opt", "proc", "root", "run",
    "sbin", "srv", "sys", "tmp", "usr", "var"]

/-- The tree of a system with nothing in its working directory. -/
def base : FileTree where
  entries :=
    [([], .directory), (["null", "dev"], .sink), (["work", "tmp"], .directory)] ++
    systemDirectories.map fun name => ([name], .directory)
  working := ["work", "tmp"]

/-- The tree of a system with the given entries. -/
def ofList (entries : List (String × Entry)) : FileTree :=
  entries.foldl (fun t e => t.insert e.1 e.2) base

end FileTree

end DmaLink
