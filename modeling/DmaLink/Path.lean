namespace DmaLink.Path

/-- Puts a character in front of a row of names: a separator starts a new name, any other
    character belongs to the first. -/
def push (c : Char) : List (List Char) → List (List Char)
  | [] => if c = '/' then [[], []] else [[c]]
  | first :: rest => if c = '/' then [] :: first :: rest else (c :: first) :: rest

/-- Takes a text apart at its separators. -/
def split (text : List Char) : List (List Char) := text.foldr push [[]]

/-- Puts names together with separators between them. -/
def join : List (List Char) → List Char
  | [] => []
  | [name] => name
  | name :: next :: rest => name ++ '/' :: join (next :: rest)

/-- The names of a path in order, empty ones included. -/
def names (path : String) : List String := (split path.toList).map String.ofList

/-- Whether a path starts at the root. -/
def isAbsolute (path : String) : Bool := path.toList.head? == some '/'

/-- The plain spelling of a path: one separator between names, and no dot that stands for the
    place reached so far except at the front of a relative path. -/
def canonical (path : String) : String :=
  let kept := (split path.toList).filter fun name => name != [] && name != ['.']
  if isAbsolute path then String.ofList ('/' :: join kept)
  else if (split path.toList).head? = some ['.'] then String.ofList (join (['.'] :: kept))
  else String.ofList (join kept)

end DmaLink.Path
