import DmaLink.Engine.Transfer

namespace DmaLink

namespace Engine

/-- What can be asked of an engine. Operations are data, so that whole runs can be spoken about. -/
inductive Operation where
  | initialise (readLength : Nat)
  | send (buffer : List UInt64)
  | sendSplit (payload : List UInt64)
  | receive (buffer : List UInt64)
  | shows (channel : Channel) (flag : UInt32)
  | acknowledge (channel : Channel)
  | statuses
  | report (channel : Channel)
  | reset
  | halt
  | setTimeout (timeout : Duration)
deriving DecidableEq, Repr

/-- The answer to an operation. -/
inductive Answer where
  | done
  | sent (bytes : Nat)
  | received (reception : Reception)
  | shown (flag : Bool)
  | statuses (mm2s s2mm : UInt32)
  | report (text : String)
  | failed (cause : LinkError)
deriving DecidableEq, Repr

/-- The answer to an operation that only succeeds or fails. -/
def Answer.ofResult : Except LinkError Unit → Answer
  | .ok () => .done
  | .error cause => .failed cause

/-- The engine after an operation, and the program that the operation runs on the link. A
    reception takes at most `bound` chunks. -/
def perform (e : Engine) (bound : Nat) : Operation → Engine × Proc Link.io Answer
  | .initialise readLength =>
    match e.configure readLength with
    | .error cause => (e, return .failed cause)
    | .ok configured => (configured, do return .ofResult (← configured.start))
  | .send buffer =>
    (e, do
      match ← e.send buffer with
      | .ok bytes => return .sent bytes
      | .error cause => return .failed cause)
  | .sendSplit payload => (e, do return .ofResult (← e.sendSplit payload))
  | .receive buffer => (e, do return .received (← e.receive bound buffer))
  | .shows channel flag =>
    (e, do
      let status : UInt32 ← Proc.readRegister channel.status
      return .shown (Status.shows status flag))
  | .acknowledge channel =>
    (e, do
      Completion.acknowledge channel
      return .done)
  | .statuses =>
    (e, do
      let mm2s : UInt32 ← Proc.readRegister Channel.mm2s.status
      let s2mm : UInt32 ← Proc.readRegister Channel.s2mm.status
      return .statuses mm2s s2mm)
  | .report channel => (e, do return .report (← report channel))
  | .reset =>
    (e, do
      reset
      return .done)
  | .halt =>
    (e, do
      halt
      return .done)
  | .setTimeout timeout => (e.setTimeout timeout, return .done)

end Engine

/-- An engine and the link it drives. -/
structure Session (σ : Type) where
  engine : Engine
  link : σ

namespace Session

variable {σ : Type} [Device σ]

/-- Performs an operation on a session. -/
def perform (s : Session σ) (operation : Engine.Operation) : Engine.Answer × Session σ :=
  match s.engine.perform (Device.chunkBound s.link) operation with
  | (engine, program) =>
    match program.run Device.answer s.link with
    | (answer, link) => (answer, { engine, link })

/-- Performs operations one after the other and collects their answers. -/
def performAll (s : Session σ) : List Engine.Operation → List Engine.Answer × Session σ
  | [] => ([], s)
  | operation :: rest =>
    match s.perform operation with
    | (answer, s) =>
      match s.performAll rest with
      | (answers, s) => (answer :: answers, s)

end Session

end DmaLink
