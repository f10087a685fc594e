import DmaLink.Register
import DmaLink.Size
import DmaLink.Text.Hex
import DmaLink.Text.Numeral

namespace DmaLink

/-- An error met in finding, opening, mapping or writing a file. -/
inductive FileFault where
  | notFound
  | outOfMemory
  | noDevice
  | notDirectory
  | isDirectory
  | brokenPipe
  | nameTooLong
  /-- An offset past the last one that a file can have. -/
  | offsetTooLarge
  /-- A path that cannot be handed over because a NUL would end it early. -/
  | containsNul
deriving DecidableEq, Repr

/-- The text of a file error. -/
def FileFault.message : FileFault → String
  | .notFound => "No such file or directory (os error 2)"
  | .outOfMemory => "Cannot allocate memory (os error 12)"
  | .noDevice => "No such device (os error 19)"
  | .notDirectory => "Not a directory (os error 20)"
  | .isDirectory => "Is a directory (os error 21)"
  | .brokenPipe => "Broken pipe (os error 32)"
  | .nameTooLong => "File name too long (os error 36)"
  | .offsetTooLarge => "Value too large for defined data type (os error 75)"
  | .containsNul => "file name contained an unexpected NUL byte"

/-- Why reading or writing a device or a stream failed. -/
inductive TransportFault where
  /-- An interrupt acknowledgement brought fewer than four bytes. -/
  | shortAcknowledgement (received : Nat)
  /-- The far end of an interrupt line closed before it had taken what it was sent back. -/
  | farEndLost
  | file (fault : FileFault)
  /-- A reason given by the other side. -/
  | stated (reason : String)
deriving DecidableEq, Repr

/-- The text of a transport fault. -/
def TransportFault.message : TransportFault → String
  | .shortAcknowledgement received => s!"short interrupt read: {received} of 4 bytes"
  | .farEndLost => "interrupt descriptor reported PollFlags(IN | ERR | HUP)"
  | .file fault => fault.message
  | .stated reason => reason

/-- Why a region could not be mapped. -/
inductive MapFault where
  | empty
  | unaligned (address : Nat)
  | cannotOpen (fault : FileFault)
  | cannotOpenInterrupt (fault : FileFault)
  /-- The file is open but the range could not be mapped. -/
  | refused (fault : FileFault)
  /-- A reason given by the caller. -/
  | stated (reason : String)
deriving DecidableEq, Repr

/-- The text of a mapping fault. -/
def MapFault.message : MapFault → String
  | .empty => "mapping size is 0"
  | .unaligned address =>
    "physical address " ++ Text.hex address ++ " is not aligned to the 4096-byte page"
  | .cannotOpen fault => "cannot open: " ++ fault.message
  | .cannotOpenInterrupt fault => "cannot open interrupt device: " ++ fault.message
  | .refused fault => "mmap failed: " ++ fault.message
  | .stated reason => reason

/-- Why the reset line could not be driven. -/
inductive LineFault where
  | cannotExport (line : Nat) (path : String) (fault : FileFault)
  | cannotWrite (path : String) (fault : FileFault)
  /-- The line refused the call with this index. -/
  | refused (call : Nat)
  /-- A reason given by the caller. -/
  | stated (reason : String)
deriving DecidableEq, Repr

/-- The text of a reset line fault. -/
def LineFault.message : LineFault → String
  | .cannotExport line path fault => s!"cannot export line {line} via {path}: " ++ fault.message
  | .cannotWrite path fault => s!"cannot write {path}: " ++ fault.message
  | .refused call => s!"call {call} refused"
  | .stated reason => reason

/-- Why a configuration is rejected. -/
inductive ConfigurationFault where
  | emptyBurst
  | burstTooLong (words : Nat)
  | emptyHalf
  | halvesExceedWindow (half window : Nat)
  | beyondAddressing (base : UInt32)
  | readLengthOutside (bytes : Nat)
  | readLengthUneven (bytes : Nat)
  | unreadable (setting value : String) (cause : Text.NumeralError)
  | unknownSyncMode (text : String)
  /-- A reason given by the caller. -/
  | stated (reason : String)
deriving DecidableEq, Repr

/-- The text of a configuration fault. -/
def ConfigurationFault.message : ConfigurationFault → String
  | .emptyBurst => "burst must carry at least one data word"
  | .burstTooLong words => s!"burst of {words} words exceeds the 8388608-byte MM2S limit"
  | .emptyHalf => "ping-pong half must hold at least one word"
  | .halvesExceedWindow half window =>
    s!"two halves of {half} words exceed a window of {window} words"
  | .beyondAddressing base =>
    "window at " ++ Text.hex base.toNat ++ " ends beyond 32-bit physical addressing"
  | .readLengthOutside bytes => s!"read length {bytes} bytes outside [1024, 8388608]"
  | .readLengthUneven bytes => s!"read length {bytes} bytes is not a whole number of 8-byte words"
  | .unreadable setting value cause => s!"{setting}={value}: " ++ cause.message
  | .unknownSyncMode text => "unknown sync mode '" ++ text ++ "' (expected poll or interrupt)"
  | .stated reason => reason

/-- The errors of the link. -/
inductive LinkError where
  /-- Parameters outside the accepted range. -/
  | configuration (cause : ConfigurationFault)
  /-- A burst did not complete within the limit, given in microseconds. -/
  | channelTimeout (channel : Channel) (limit : Nat)
  /-- A payload that does not fit one burst. -/
  | transferSize (bytes max : Nat)
  /-- An access past the end of a window. -/
  | outOfBounds (offset len limit : Nat)
  /-- A region that cannot be mapped. -/
  | cannotMap (path : String) (cause : MapFault)
  /-- A buffer that cannot be allocated. -/
  | allocation (words : Nat)
  /-- A reset line that cannot be driven. -/
  | gpio (cause : LineFault)
  /-- A request that needs a running queue. -/
  | notRunning
  /-- A failed transfer on a device file. -/
  | io (cause : TransportFault)
deriving DecidableEq, Repr

namespace LinkError

/-- The text of an error. -/
def message : LinkError → String
  | .configuration cause => "Configuration error: " ++ cause.message
  | .channelTimeout channel limit => channel.name ++ s!" channel timeout after {limit}us"
  | .transferSize bytes max => s!"Transfer of {bytes} bytes rejected (must be 1..={max} bytes)"
  | .outOfBounds offset len limit =>
    "Out of bounds access: offset=" ++ Text.hex offset ++ s!", len={len}, limit=" ++ Text.hex limit
  | .cannotMap path cause => s!"Cannot map {path}: " ++ cause.message
  | .allocation words => s!"Cannot allocate {words} words for the transfer queue"
  | .gpio cause => "GPIO error: " ++ cause.message
  | .notRunning => "Streaming queue is not running"
  | .io cause => "I/O error: " ++ cause.message

/-- Whether an error is a timeout, on either channel. -/
def isTimeout : LinkError → Bool
  | .channelTimeout .. => true
  | _ => false

end LinkError

/-- An operation either reports an error to its caller or is abandoned. -/
inductive Fault where
  | error (cause : LinkError)
  | trap (cause : Trap)
deriving DecidableEq, Repr

/-- What an operation comes to that may be abandoned and may report an error. -/
def Fault.join {α : Type} : Except Trap (Except LinkError α) → Except Fault α
  | .error cause => .error (.trap cause)
  | .ok result => result.mapError .error

/-- A reported rejection of a configuration. -/
def Fault.configuration (cause : ConfigurationFault) : Fault := .error (.configuration cause)

end DmaLink
