import DmaLink.Settings
import DmaLink.Split

namespace DmaLink

/-- What the host keeps about a link. Creating an engine and changing it touch no register. -/
structure Engine where
  /-- How completion is learnt of. -/
  mode : SyncMode
  /-- The source window, split into halves of one burst with its tag word each. -/
  source : Split
  /-- The destination window, split into halves of one read chunk each. -/
  destination : Split
  /-- The wait limit of a channel, in microseconds. -/
  limit : Nat
  /-- Bytes per read chunk. -/
  readLength : Nat
  /-- Data words per burst when a payload is split. -/
  burstWords : Nat
deriving DecidableEq, Repr

/-- What an engine is created from. -/
structure Geometry where
  sourceWords : Nat
  sourceBase : UInt32
  destinationWords : Nat
  destinationBase : UInt32
  burstWords : Nat
deriving DecidableEq, Repr

/-- The source window, not split yet. -/
def Geometry.source (g : Geometry) : Split := .whole g.sourceWords g.sourceBase

/-- The destination window, not split yet. -/
def Geometry.destination (g : Geometry) : Split := .whole g.destinationWords g.destinationBase

namespace Engine

/-- The wait limit that a length of time gives: its whole microseconds, as far as 64 bits go. -/
def limitOf (timeout : Duration) : Nat := min timeout.microseconds (Size.limit - 1)

/-- Creates an engine. Two bursts with their tag words have to fit the source window, one of them
    the limit of a burst, and two default read chunks the destination window. -/
def create (mode : SyncMode) (geometry : Geometry) : Except Fault Engine := do
  let burstWords := geometry.burstWords
  if burstWords = 0 then .error (.configuration .emptyBurst)
  else
    let halfWords ← (Size.add burstWords 1).mapError Fault.trap
    let halfBytes ← (Size.mul halfWords wordBytes).mapError Fault.trap
    if Layout.maxBurstBytes < halfBytes then .error (.configuration (.burstTooLong burstWords))
    else
      let source ← (geometry.source.fit halfWords).mapError Fault.error
      let destination ←
        (geometry.destination.fit (Layout.defaultReadBytes / wordBytes)).mapError Fault.error
      return {
        mode, source, destination, burstWords
        limit := limitOf defaultTimeout
        readLength := Layout.defaultReadBytes }

/-- The engine with another read length: a whole number of words within bounds, two chunks of
    which fit the destination window. -/
def configure (e : Engine) (readLength : Nat) : Except LinkError Engine :=
  if readLength < Layout.minReadBytes ∨ Layout.maxReadBytes < readLength then
    .error (.configuration (.readLengthOutside readLength))
  else if readLength % wordBytes ≠ 0 then
    .error (.configuration (.readLengthUneven readLength))
  else do
    let destination ← e.destination.fit (readLength / wordBytes)
    return { e with destination, readLength }

/-- The engine with another wait limit. -/
def setTimeout (e : Engine) (timeout : Duration) : Engine := { e with limit := limitOf timeout }

end Engine

end DmaLink
