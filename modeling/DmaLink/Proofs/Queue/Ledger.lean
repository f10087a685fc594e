import DmaLink.Proofs.Queue.Phases

namespace DmaLink

/-- Accesses with the replies to them. -/
abbrev Proc.Log (I : Interface) : Type := List ((access : I.Access) × I.Reply access)

/-- A program has made these accesses, has got these replies, and is left as it is here. -/
inductive Proc.Leads {I : Interface} {α : Type} (p : Proc I α) : Proc.Log I → Proc I α → Prop where
  | start : Leads p [] p
  | step {log : Proc.Log I} {access : I.Access} {next : I.Reply access → Proc I α}
      (hleads : Leads p log (.act access next)) (reply : I.Reply access) :
      Leads p (log ++ [⟨access, reply⟩]) (next reply)

namespace Queue

/-- What the worker has in its hands. -/
inductive Hand where
  | empty
  | taken (buffer : List UInt64)
  /-- The buffer has been taken off the count. -/
  | counted (buffer : List UInt64)
  /-- The worker has looked whether the queue still runs. -/
  | judged (buffer : List UInt64) (running : Bool)
  /-- The engine is sending the buffer, and has made these accesses for it. -/
  | sending (buffer : List UInt64) (engine : Engine) (log : Proc.Log Link.io)

/-- How it ended for a buffer. -/
inductive Fate where
  | sent (engine : Engine) (log : Proc.Log Link.io)
  | failed (engine : Engine) (log : Proc.Log Link.io)
  /-- It was taken while the queue was being stopped. -/
  | refused
  /-- It was still waiting when the queue was started again. -/
  | discarded

/-- The buffer in the worker's hands, if there is one. -/
def Hand.toList : Hand → List (List UInt64)
  | .empty => []
  | .taken buffer => [buffer]
  | .counted buffer => [buffer]
  | .judged buffer _ => [buffer]
  | .sending buffer _ _ => [buffer]

/-- The buffer that the engine is sending, if there is one. -/
def Hand.begun : Hand → List (List UInt64)
  | .sending buffer _ _ => [buffer]
  | _ => []

/-- How many buffers in the worker's hands have still to be taken off the count. -/
def Hand.owed : Hand → Nat
  | .taken _ => 1
  | _ => 0

/-- Whether the engine was given the buffer. -/
def Fate.isBegun : Fate → Bool
  | .sent .. | .failed .. => true
  | _ => false

/-- Whether the buffer was given up by the worker. -/
def Fate.isDropped : Fate → Bool
  | .failed .. | .refused => true
  | _ => false

/-- A buffer that is said to be sent was gone through by the engine to its end, and one that is said
    to have failed ended in an error. -/
def Fate.Holds (buffer : List UInt64) : Fate → Prop
  | .sent engine log => (engine.sendSplit buffer).Leads log (.ret (.ok ()))
  | .failed engine log => ∃ cause, (engine.sendSplit buffer).Leads log (.ret (.error cause))
  | _ => True

/-- What has happened to the buffers so far. -/
structure Ledger (ι : Type) where
  /-- Every buffer that a client has begun to hand over, in that order. -/
  handed : List (ι × List UInt64) := []
  /-- Every buffer that has been put into the queue, in that order. -/
  accepted : List (ι × List UInt64) := []
  /-- The buffers that are done with, oldest first. -/
  settled : List (List UInt64 × Fate) := []
  hand : Hand := .empty
  /-- Every buffer that the engine was given, in that order. -/
  reached : List (List UInt64) := []

namespace Ledger

variable {ι : Type}

/-- The buffer in the worker's hands is done with. -/
def settle (l : Ledger ι) (buffer : List UInt64) (fate : Fate) : Ledger ι :=
  { l with settled := l.settled ++ [(buffer, fate)], hand := .empty }

/-- An access of the worker. A worker that looks again whether the queue runs is done with what it
    was sending. -/
def work (l : Ledger ι) (access : Access) (reply : access.Reply) : Ledger ι :=
  match l.hand, access, reply with
  | .empty, .take, some buffer => { l with hand := .taken buffer }
  | .taken buffer, .uncountPending, _ => { l with hand := .counted buffer }
  | .counted buffer, .running, running => { l with hand := .judged buffer running }
  | .judged buffer _, .engine, engine =>
    { l with hand := .sending buffer engine [], reached := l.reached ++ [buffer] }
  | .judged buffer _, .countDropped, _ => l.settle buffer .refused
  | .sending buffer engine log, .link access, reply =>
    { l with hand := .sending buffer engine (log ++ [⟨access, reply⟩]) }
  | .sending buffer engine log, .countDropped, _ => l.settle buffer (.failed engine log)
  | .sending buffer engine log, .running, _ => l.settle buffer (.sent engine log)
  | _, _, _ => l

def retire (l : Ledger ι) : Ledger ι :=
  match l.hand with
  | .sending buffer engine log => l.settle buffer (.sent engine log)
  | _ => l

def serve (l : Ledger ι) (client : ι) (access : Access) (reply : access.Reply) : Ledger ι :=
  match access, reply with
  | .put buffer, _ => { l with accepted := l.accepted ++ [(client, buffer)] }
  | .take, some buffer => { l with settled := l.settled ++ [(buffer, .discarded)] }
  | _, _ => l

def begin (l : Ledger ι) (client : ι) : Call → Ledger ι
  | .enqueue buffer =>
    if buffer.isEmpty then l else { l with handed := l.handed ++ [(client, buffer)] }
  | _ => l

def record (l : Ledger ι) : Event ι → Ledger ι
  | .call client call => l.begin client call
  | .access client access reply => l.serve client access reply
  | .work access reply => l.work access reply
  | .retire => l.retire
  | _ => l

/-- The ledger of all that happened, oldest first. -/
def ofEvents (events : List (Event ι)) : Ledger ι := events.foldl record {}

/-- The books are kept event by event. -/
theorem ofEvents_append (events : List (Event ι)) (event : Event ι) :
    ofEvents (events ++ [event]) = (ofEvents events).record event := by
  rw [ofEvents, List.foldl_append]
  rfl

end Ledger

/-- What the worker may do with its hands as they are, and how they are afterwards. It goes on from
    a buffer only once the engine is through with it. -/
inductive Hand.Moves : Hand → (access : io.Access) → io.Reply access → Hand → Prop where
  | look (running : Bool) : Moves .empty .running running .empty
  | takeNone : Moves .empty .take (none : Option (List UInt64)) .empty
  | takeSome (buffer : List UInt64) : Moves .empty .take (some buffer) (.taken buffer)
  | uncount (buffer : List UInt64) : Moves (.taken buffer) .uncountPending () (.counted buffer)
  | judge (buffer : List UInt64) (running : Bool) :
      Moves (.counted buffer) .running running (.judged buffer running)
  | refuse (buffer : List UInt64) : Moves (.judged buffer false) .countDropped () .empty
  | begin (buffer : List UInt64) (engine : Engine) :
      Moves (.judged buffer true) .engine engine (.sending buffer engine [])
  | send (buffer : List UInt64) (engine : Engine) (log : Proc.Log Link.io) (access : Link.Access)
      (reply : access.Reply) : Moves (.sending buffer engine log) (.link access) reply
        (.sending buffer engine (log ++ [⟨access, reply⟩]))
  | sent {buffer : List UInt64} {engine : Engine} {log : Proc.Log Link.io}
      (hleads : (engine.sendSplit buffer).Leads log (.ret (.ok ()))) (running : Bool) :
      Moves (.sending buffer engine log) .running running .empty
  | fail {buffer : List UInt64} {engine : Engine} {log : Proc.Log Link.io} {cause : LinkError}
      (hleads : (engine.sendSplit buffer).Leads log (.ret (.error cause))) :
      Moves (.sending buffer engine log) .countDropped () .empty
  | record (cause : LinkError) : Moves .empty (.recordError cause) () .empty
  | stop : Moves .empty (.setRunning false) () .empty
  | halt (access : Link.Access) (reply : access.Reply) : Moves .empty (.link access) reply .empty

/-- The worker is done with what it had in its hands. -/
inductive Hand.Idle : Hand → Prop where
  | empty : Idle .empty
  | sent {buffer : List UInt64} {engine : Engine} {log : Proc.Log Link.io}
      (hleads : (engine.sendSplit buffer).Leads log (.ret (.ok ()))) :
      Idle (.sending buffer engine log)

theorem Hand.Idle.look {hand : Hand} (hidle : hand.Idle) (running : Bool) :
    hand.Moves .running running .empty := by
  cases hidle with
  | empty => exact .look running
  | sent hleads => exact .sent hleads running

theorem Hand.Idle.owed {hand : Hand} (hidle : hand.Idle) : hand.owed = 0 := by
  cases hidle <;> rfl

section Worker

/-- While it sends, the hand holds the buffer and what its transfer has been told so far. -/
theorem follows_sending {buffer : List UInt64} {engine : Engine} {log : Proc.Log Link.io}
    {rest : Proc Link.io (Except LinkError Unit)}
    (hleads : (engine.sendSplit buffer).Leads log rest) :
    Proc.Follows Hand.Moves
      (fun result hand => ∃ log, hand = .sending buffer engine log ∧
        (engine.sendSplit buffer).Leads log (.ret result))
      (onLink rest) (.sending buffer engine log) := by
  -- On what is left of the transfer; the log holds what has been done of it.
  induction rest generalizing log with
  | ret result => exact ⟨log, rfl, hleads⟩
  | act access next ih =>
    intro reply
    exact ⟨_, .send buffer engine log access reply, ih reply (hleads.step reply)⟩

/-- What is done with an empty hand leaves it empty. -/
theorem follows_empty (p : Proc Link.io Unit) :
    Proc.Follows Hand.Moves (fun _ hand => hand = .empty) (onLink p) .empty := by
  induction p with
  | ret result => rfl
  | act access next ih =>
    intro reply
    exact ⟨_, .halt access reply, ih reply⟩

/-- A buffer that has been judged is sent and settled. -/
theorem follows_transmit (buffer : List UInt64) :
    Proc.Follows Hand.Moves (fun _ hand => hand.Idle) (transmit buffer) (.judged buffer true) := by
  intro engine
  refine ⟨_, .begin buffer engine, ?_⟩
  apply (follows_sending (.start (p := engine.sendSplit buffer))).bind
  rintro (cause | _) _ ⟨log, rfl, hleads⟩
  · intro _
    refine ⟨_, .fail hleads, ?_⟩
    intro _
    refine ⟨_, .record cause, ?_⟩
    refine Proc.Follows.ite (fun _ => ?_) fun _ => .empty
    intro _
    refine ⟨_, .stop, ?_⟩
    apply (follows_empty Engine.halt).bind
    rintro _ _ rfl
    exact .empty
  · exact .sent hleads

/-- The worker takes a buffer, judges it and settles it. -/
theorem follows_handleBuffer :
    Proc.Follows Hand.Moves (fun _ hand => hand.Idle) handleBuffer .empty := by
  rintro (_ | buffer)
  · exact ⟨_, .takeNone, .empty⟩
  refine ⟨_, .takeSome buffer, ?_⟩
  intro _
  refine ⟨_, .uncount buffer, ?_⟩
  rintro (_ | _)
  · refine ⟨_, .judge buffer false, ?_⟩
    intro _
    exact ⟨_, .refuse buffer, .empty⟩
  · exact ⟨_, .judge buffer true, follows_transmit buffer⟩

/-- The worker goes through its buffers one after the other. -/
theorem follows_worker (bound : Nat) {hand : Hand} (hidle : hand.Idle) :
    Proc.Follows Hand.Moves (fun _ hand => hand.Idle) (worker bound) hand := by
  induction bound generalizing hand with
  | zero => exact hidle
  | succ bound ih =>
    rintro (_ | _)
    · exact ⟨_, hidle.look false, .empty⟩
    · refine ⟨_, hidle.look true, ?_⟩
      apply follows_handleBuffer.bind
      intro _ hand hidle
      exact ih hidle

end Worker

end Queue

end DmaLink
