import DmaLink.Completion
import DmaLink.Engine

namespace DmaLink

/-- Cuts a list into pieces of `size` entries, the last of which may be shorter. -/
def pieces (size : Nat) (entries : List α) : List (List α) :=
  go entries.length entries []
where
  /-- Cuts at most `fuel` pieces off and puts them behind those cut before. -/
  go : Nat → List α → List (List α) → List (List α)
    | 0, _, before => before.reverse
    | fuel + 1, entries, before =>
      if entries.isEmpty then before.reverse
      else go fuel (entries.drop size) (entries.take size :: before)

/-- How a reception ended. -/
inductive Reception.Ending where
  /-- The layer is complete, with this many bytes appended. -/
  | complete (bytes : Nat)
  /-- A wait or a copy failed. -/
  | failed (cause : LinkError)
  /-- The bound on the number of chunks was reached first. -/
  | unfinished
deriving DecidableEq, Repr

/-- What a reception leaves: the caller's buffer with the words of every drained chunk behind its
    old contents, and how it ended. -/
structure Reception where
  buffer : List UInt64
  ending : Reception.Ending
deriving DecidableEq, Repr

namespace Engine

/-- Starts a transfer on a channel: its address, then its length in bytes. -/
def launch (channel : Channel) (address : UInt32) (bytes : Nat) : Proc Link.io Unit := do
  Proc.writeRegister channel.address address
  Proc.writeRegister channel.length (UInt32.ofNat bytes)

/-- Sends words verbatim as one burst from the start of the source window. -/
def sendWords (e : Engine) (words : List UInt64) : Proc Link.io (Except LinkError Nat) := do
  let bytes := words.length * wordBytes
  let stored : Except LinkError Unit ←
    Proc.onWindow .mm2s (Proc.perform (I := Window.io) (.store 0 words))
  match stored with
  | .error cause => return .error cause
  | .ok () =>
    launch .mm2s e.source.base bytes
    match ← Completion.await e.mode .mm2s e.limit with
    | .error cause => return .error cause
    | .ok () => return .ok bytes

/-- Sends a buffer as one burst and replies with its bytes. The caller appends any tag word. An
    empty buffer, and one longer than a burst may be, is refused before anything is touched. -/
def send (e : Engine) (buffer : List UInt64) : Proc Link.io (Except LinkError Nat) :=
  let bytes := Size.bytesOfWords buffer.length
  if bytes = 0 ∨ Layout.maxBurstBytes < bytes then
    return .error (.transferSize bytes Layout.maxBurstBytes)
  else e.sendWords buffer

/-- Sends one burst of a split payload from a source half. -/
def sendBurst (e : Engine) (half : Half) (words : List UInt64) (mode : OperatingMode) :
    Proc Link.io (Except LinkError Unit) := do
  match ← Proc.onWindow .mm2s (e.source.stage half words (some mode.tag)) with
  | .error cause => return .error cause
  | .ok staged =>
    launch .mm2s (e.source.address half) (staged * wordBytes)
    Completion.await e.mode .mm2s e.limit

/-- Sends bursts from alternating halves and stops at the first that fails. The last is tagged
    as complete, the others as partial. -/
def sendBursts (e : Engine) : Half → List (List UInt64) → Proc Link.io (Except LinkError Unit)
  | _, [] => return .ok ()
  | half, words :: rest => do
    let mode : OperatingMode := if rest.isEmpty then .complete else .partway
    match ← e.sendBurst half words mode with
    | .error cause => return .error cause
    | .ok () => sendBursts e half.other rest

/-- Sends a payload as a series of tagged bursts. An empty payload is refused. -/
def sendSplit (e : Engine) (payload : List UInt64) : Proc Link.io (Except LinkError Unit) :=
  if payload.isEmpty then return .error (.transferSize 0 Layout.maxBurstBytes)
  else e.sendBursts .a (pieces e.burstWords payload)

/-- Bytes per chunk, as the current split of the destination gives them. -/
def chunkBytes (e : Engine) : Nat := e.destination.halfWords * wordBytes

/-- Arms a destination half for one chunk. -/
def arm (e : Engine) (half : Half) : Proc Link.io Unit :=
  launch .s2mm (e.destination.address half) e.chunkBytes

/-- Waits for the chunk in an armed half, and replies with its last word and its words. -/
def takeChunk (e : Engine) (half : Half) :
    Proc Link.io (Except LinkError (UInt64 × List UInt64)) := do
  match ← Completion.await e.mode .s2mm e.limit with
  | .error cause => return .error cause
  | .ok () =>
    match ← Proc.onWindow .s2mm (e.destination.last half) with
    | .error cause => return .error cause
    | .ok last =>
      match ← Proc.onWindow .s2mm (e.destination.drain half) with
      | .error cause => return .error cause
      | .ok words => return .ok (last, words.toList)

/-- Takes chunks, at most `bound` of them, until one ends the layer. The first half is armed;
    `before` are the chunks taken so far, newest first, behind the buffer's old contents. -/
def receiveChunks (e : Engine) (buffer : List UInt64) :
    Nat → Half → List (List UInt64) → Proc Link.io Reception
  | 0, _, before => return ⟨buffer ++ before.reverse.flatten, .unfinished⟩
  | bound + 1, half, before => do
    match ← e.takeChunk half with
    | .error cause => return ⟨buffer ++ before.reverse.flatten, .failed cause⟩
    | .ok (last, words) =>
      if Word.endsLayer last then
        let appended := (words :: before).reverse.flatten
        return ⟨buffer ++ appended, .complete (appended.length * wordBytes)⟩
      else
        e.arm half.other
        receiveChunks e buffer bound half.other (words :: before)

/-- Receives one layer behind the contents of `buffer`, in at most `bound` chunks. -/
def receive (e : Engine) (bound : Nat) (buffer : List UInt64) : Proc Link.io Reception := do
  e.arm .a
  e.receiveChunks buffer bound .a []

/-- Starts both channels of a configured engine. One partial tag word goes out between them, so
    that the controller expects data. -/
def start (e : Engine) : Proc Link.io (Except LinkError Unit) := do
  Proc.writeRegister Channel.mm2s.address e.source.base
  Proc.writeRegister Channel.mm2s.control e.mode.runWord
  match ← e.sendWords [OperatingMode.partway.tag] with
  | .error cause => return .error cause
  | .ok _ =>
    Proc.writeRegister Channel.s2mm.control e.mode.runWord
    return .ok ()

/-- Resets both channels, the receiving one first. -/
def reset : Proc Link.io Unit := do
  Proc.writeRegister Channel.s2mm.control Control.reset
  Proc.writeRegister Channel.mm2s.control Control.reset

/-- Halts both channels, the receiving one first. -/
def halt : Proc Link.io Unit := do
  Proc.writeRegister Channel.s2mm.control Control.halt
  Proc.writeRegister Channel.mm2s.control Control.halt

/-- One line that decodes the status of a channel. -/
def report (channel : Channel) : Proc Link.io String := do
  let status : UInt32 ← Proc.readRegister channel.status
  let names := " ".intercalate (Status.names status)
  return channel.name ++ " status (" ++ Text.hexRegister status ++ "): " ++ names

end Engine

end DmaLink
