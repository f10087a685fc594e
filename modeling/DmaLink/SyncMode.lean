import DmaLink.Fault
import DmaLink.Text.Blank

namespace DmaLink

/-- A way to learn that a burst finished. -/
inductive SyncMode where
  | poll
  | interrupt
deriving DecidableEq, Repr

namespace SyncMode

/-- The name of a mode. -/
def name : SyncMode → String
  | .poll => "poll"
  | .interrupt => "interrupt"

/-- The control word that runs a channel in a mode. -/
def runWord : SyncMode → UInt32
  | .poll => Control.run
  | .interrupt => Control.runInterrupting

/-- The spellings a mode is known by, in lower case. -/
def spellings : List (List Char × SyncMode) :=
  [("poll".toList, .poll), ("polling".toList, .poll), ("interrupt".toList, .interrupt),
    ("irq".toList, .interrupt)]

/-- Reads a mode, with any blanks around it and in any letter case. Case is that of ASCII
    letters alone. -/
def parse (text : String) : Except LinkError SyncMode :=
  let lowered := (Text.trim text.toList).map Char.toLower
  match spellings.lookup lowered with
  | some mode => .ok mode
  | none => .error (.configuration (.unknownSyncMode (String.ofList lowered)))

/-- The name of a mode is read as that mode. -/
theorem parse_name (mode : SyncMode) : parse mode.name = .ok mode := by
  cases mode <;> rfl

end SyncMode

end DmaLink
