import DmaLink.Duration
import DmaLink.Layout
import DmaLink.Path
import DmaLink.SyncMode

namespace DmaLink

/-- The wait limit of a channel unless another is set. -/
def defaultTimeout : Duration := .ofSeconds 5 0

/-- The reset line of the reference board. -/
def defaultResetLine : Nat := 960

/-- Where the link is found and how it is driven. The defaults describe the reference board. -/
structure Settings where
  /-- The file that physical memory is mapped from. -/
  memoryPath : String
  /-- The physical address of the register block. -/
  registerAddress : UInt32
  /-- Bytes mapped for the register block. -/
  registerBytes : Nat
  /-- The physical address of the source region. -/
  sourceAddress : UInt32
  /-- Bytes mapped for the source region. -/
  sourceBytes : Nat
  /-- The physical address of the destination region. -/
  destinationAddress : UInt32
  /-- Bytes mapped for the destination region. -/
  destinationBytes : Nat
  /-- The interrupt device of the sending channel. -/
  sendInterruptPath : String
  /-- The interrupt device of the receiving channel. -/
  receiveInterruptPath : String
  /-- How completion is learnt of. -/
  sync : SyncMode
  /-- The wait limit of a channel. -/
  timeout : Duration
  /-- Data words per burst when a payload is split. -/
  burstWords : Nat
  /-- The reset line, if one is wired. -/
  resetLine : Option Nat
deriving DecidableEq, Repr

namespace Settings

/-- The settings of the reference board. -/
def default : Settings where
  memoryPath := "/dev/mem"
  registerAddress := Layout.registerBase
  registerBytes := Layout.registerBlockBytes
  sourceAddress := Layout.sourceBase
  sourceBytes := Layout.sourceWindowBytes
  destinationAddress := Layout.destinationBase
  destinationBytes := Layout.destinationWindowBytes
  sendInterruptPath := "/dev/uio0"
  receiveInterruptPath := "/dev/uio1"
  sync := .poll
  timeout := defaultTimeout
  burstWords := Layout.defaultBurstWords
  resetLine := some defaultResetLine

/-- The settings with every path in its plain spelling. -/
def canonical (s : Settings) : Settings :=
  { s with
    memoryPath := Path.canonical s.memoryPath
    sendInterruptPath := Path.canonical s.sendInterruptPath
    receiveInterruptPath := Path.canonical s.receiveInterruptPath }

/-- Whether two settings are the same. The spelling of a path does not count. -/
def same (s t : Settings) : Bool := s.canonical = t.canonical

end Settings

end DmaLink
