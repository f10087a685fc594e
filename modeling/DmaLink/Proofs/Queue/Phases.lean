import DmaLink.Queue.Threads

namespace DmaLink

namespace Proc

variable {I : Interface} {S α β : Type}
  {moves : S → (access : I.Access) → I.Reply access → S → Prop}

/-- A program makes only accesses that are a move from the state it is in, whatever is replied, and
    is over in a state in `post`. -/
def Follows (moves : S → (access : I.Access) → I.Reply access → S → Prop) (post : α → S → Prop) :
    Proc I α → S → Prop
  | ret result, state => post result state
  | act access next, state =>
    ∀ reply, ∃ state', moves state access reply state' ∧ Follows moves post (next reply) state'

theorem Follows.bind {post : α → S → Prop} {post' : β → S → Prop} {p : Proc I α}
    {f : α → Proc I β} {state : S} (hfollows : Follows moves post p state)
    (hf : ∀ result state', post result state' → Follows moves post' (f result) state') :
    Follows moves post' (p >>= f) state := by
  induction p generalizing state with
  | ret result => exact hf result state hfollows
  | act access next ih =>
    intro reply
    obtain ⟨state', hmove, hnext⟩ := hfollows reply
    exact ⟨state', hmove, ih reply hnext⟩

theorem Follows.ite {post : α → S → Prop} {c : Prop} [Decidable c] {p q : Proc I α} {state : S}
    (hp : c → Follows moves post p state) (hq : ¬c → Follows moves post q state) :
    Follows moves post (if c then p else q) state := by
  split
  · exact hp ‹_›
  · exact hq ‹_›

end Proc

namespace Queue

/-- What a client holds. -/
inductive Phase where
  | free
  /-- It has a buffer to count and to put in. -/
  | offering (buffer : List UInt64)
  /-- It has counted a buffer and is to put it in. -/
  | counted (buffer : List UInt64)
  /-- It holds the lock, and may have waited for the worker to be over. -/
  | holding (joined : Bool)
  /-- It holds the lock and has a buffer to take off the count. -/
  | owing

/-- An access that is no business of the count, the buffers, the lock or the worker. -/
inductive Access.Plain : Access → Prop where
  | link (access : Link.Access) : Plain (.link access)
  | line (call : ResetLine.Call) : Plain (.line call)
  | engine : Plain .engine
  | setEngine (engine : Engine) : Plain (.setEngine engine)
  | running : Plain .running
  | setRunning (running : Bool) : Plain (.setRunning running)
  | stops : Plain .stops
  | countStop : Plain .countStop

/-- A phase in which no buffer is on its way. -/
inductive Phase.Calm : Phase → Prop where
  | free : Calm .free
  | holding (joined : Bool) : Calm (.holding joined)

/-- What a client may do in a phase, and the phase that it comes to. -/
inductive Phase.Moves : Phase → (access : io.Access) → io.Reply access → Phase → Prop where
  | plain {phase : Phase} {access : io.Access} {reply : io.Reply access}
      (hplain : Access.Plain access) (hcalm : phase.Calm) : Moves phase access reply phase
  | count (buffer : List UInt64) : Moves (.offering buffer) .countPending () (.counted buffer)
  | put (buffer : List UInt64) : Moves (.counted buffer) (.put buffer) () .free
  | lock : Moves .free .lock () (.holding false)
  | unlock (joined : Bool) : Moves (.holding joined) .unlock () .free
  | join (joined : Bool) : Moves (.holding joined) .joinWorker () (.holding true)
  | startWorker : Moves (.holding true) .startWorker () (.holding false)
  | takeNone : Moves (.holding true) .take (none : Option (List UInt64)) (.holding true)
  | takeSome (buffer : List UInt64) : Moves (.holding true) .take (some buffer) .owing
  | uncount : Moves .owing .uncountPending () (.holding true)

/-- The phase that a call starts in. -/
def Call.phase : Call → Phase
  | .enqueue buffer => if buffer.isEmpty then .free else .offering buffer
  | _ => .free

section Calls

variable {α : Type} {phase : Phase} {joined : Bool}

/-- A plain access leaves a calm phase as it is. -/
theorem follows_plain {a : Access} (hplain : a.Plain) (hcalm : phase.Calm) :
    Proc.Follows Phase.Moves (fun _ phase' => phase' = phase) (access a) phase := by
  intro reply
  exact ⟨phase, .plain hplain hcalm, rfl⟩

/-- Nothing on the link concerns the phase of a client. -/
theorem follows_onLink (p : Proc Link.io α) (hcalm : phase.Calm) :
    Proc.Follows Phase.Moves (fun _ phase' => phase' = phase) (onLink p) phase := by
  induction p with
  | ret result => rfl
  | act access next ih =>
    intro reply
    exact ⟨phase, .plain (.link access) hcalm, ih reply⟩

/-- A buffer is offered, counted and put into the queue, or taken off the count again. -/
theorem follows_enqueue (buffer : List UInt64) :
    Proc.Follows Phase.Moves (fun _ phase => phase = .free) (enqueue buffer)
      (if buffer.isEmpty then .free else .offering buffer) := by
  unfold enqueue
  cases buffer.isEmpty with
  | true => rfl
  | false =>
    intro _
    refine ⟨.counted buffer, .count buffer, ?_⟩
    intro _
    exact ⟨.free, .put buffer, rfl⟩

theorem follows_halt (hcalm : phase.Calm) :
    Proc.Follows Phase.Moves (fun _ phase' => phase' = phase) halt phase := by
  apply (follows_plain (.setRunning false) hcalm).bind
  rintro _ _ rfl
  exact follows_onLink Engine.halt hcalm

theorem follows_join (joined : Bool) :
    Proc.Follows Phase.Moves (fun _ phase => phase = .holding true) join (.holding joined) := by
  apply (follows_plain (.setRunning false) (.holding joined)).bind
  rintro _ _ rfl
  intro _
  exact ⟨_, .join joined, rfl⟩

/-- After a halt the worker is joined under the lock. -/
theorem follows_haltAndJoin (joined : Bool) :
    Proc.Follows Phase.Moves (fun _ phase => phase = .holding true) haltAndJoin
      (.holding joined) := by
  apply (follows_halt (.holding joined)).bind
  rintro _ _ rfl
  exact follows_join joined

theorem follows_callLine (calls : List ResetLine.Call) (hcalm : phase.Calm) :
    Proc.Follows Phase.Moves (fun _ phase' => phase' = phase) (callLine calls) phase := by
  induction calls with
  | nil => rfl
  | cons call rest ih =>
    apply (follows_plain (.line call) hcalm).bind
    rintro (cause | _) _ rfl
    · rfl
    · exact ih

theorem follows_reset (hcalm : phase.Calm) :
    Proc.Follows Phase.Moves (fun _ phase' => phase' = phase) reset phase := by
  apply (follows_onLink Engine.reset hcalm).bind
  rintro _ _ rfl
  exact follows_callLine ResetLine.pulse hcalm

theorem follows_discard (bound : Nat) :
    Proc.Follows Phase.Moves (fun _ phase => phase = .holding true) (discard bound)
      (.holding true) := by
  induction bound with
  | zero => rfl
  | succ bound ih =>
    rintro (_ | buffer)
    · exact ⟨_, .takeNone, rfl⟩
    · refine ⟨_, .takeSome buffer, ?_⟩
      intro _
      exact ⟨_, .uncount, ih⟩

theorem follows_initialiseEngine (readLength : Nat) (hcalm : phase.Calm) :
    Proc.Follows Phase.Moves (fun _ phase' => phase' = phase) (initialiseEngine readLength)
      phase := by
  apply (follows_plain .engine hcalm).bind
  rintro engine _ rfl
  split
  · rfl
  · next configured _ =>
    apply (follows_plain (.setEngine configured) hcalm).bind
    rintro _ _ rfl
    exact follows_onLink configured.start hcalm

/-- Only a start that has waited for the old worker takes buffers out and starts a new one. -/
theorem follows_start (bound readLength : Nat) (joined : Bool) :
    Proc.Follows Phase.Moves (fun _ phase => ∃ joined, phase = .holding joined)
      (start bound readLength) (.holding joined) := by
  apply (follows_join joined).bind
  rintro _ _ rfl
  apply (follows_reset (.holding true)).bind
  rintro (cause | _) _ rfl
  · exact ⟨true, rfl⟩
  apply (follows_discard bound).bind
  rintro _ _ rfl
  apply (follows_initialiseEngine readLength (.holding true)).bind
  rintro (cause | _) _ rfl
  · exact ⟨true, rfl⟩
  apply (follows_plain (.setRunning true) (.holding true)).bind
  rintro _ _ rfl
  intro _
  exact ⟨_, .startWorker, false, rfl⟩

/-- Who takes the lock holds it. -/
theorem follows_lock :
    Proc.Follows Phase.Moves (fun _ phase => phase = .holding false) (access .lock) .free := by
  intro _
  exact ⟨_, .lock, rfl⟩

theorem follows_unlock (joined : Bool) :
    Proc.Follows Phase.Moves (fun _ phase => phase = .free) (access .unlock) (.holding joined) := by
  intro _
  exact ⟨_, .unlock joined, rfl⟩

/-- A start takes the lock and gives it back, whatever fails. -/
theorem follows_initialise (bound readLength : Nat) :
    Proc.Follows Phase.Moves (fun _ phase => phase = .free) (initialise bound readLength)
      .free := by
  apply follows_lock.bind
  rintro _ _ rfl
  apply (follows_start bound readLength false).bind
  rintro result _ ⟨joined, rfl⟩
  apply (follows_unlock joined).bind
  rintro _ _ rfl
  rfl

theorem follows_stop : Proc.Follows Phase.Moves (fun _ phase => phase = .free) stop .free := by
  apply follows_lock.bind
  rintro _ _ rfl
  apply (follows_plain .countStop (.holding false)).bind
  rintro _ _ rfl
  apply (follows_haltAndJoin false).bind
  rintro _ _ rfl
  exact follows_unlock true

theorem follows_recover (bound stopsBefore : Nat) :
    Proc.Follows Phase.Moves (fun _ phase => phase = .free) (recover bound stopsBefore) .free := by
  apply follows_lock.bind
  rintro _ _ rfl
  apply (follows_plain .stops (.holding false)).bind
  rintro (stops : Nat) _ rfl
  refine Proc.Follows.ite (fun _ => follows_unlock false) fun _ => ?_
  apply (follows_plain .running (.holding false)).bind
  rintro (_ | _) _ rfl
  · exact follows_unlock false
  apply (follows_plain .engine (.holding false)).bind
  rintro engine _ rfl
  apply (follows_haltAndJoin false).bind
  rintro _ _ rfl
  apply (follows_start bound engine.readLength true).bind
  rintro _ _ ⟨joined, rfl⟩
  exact follows_unlock joined

theorem follows_readLayer (chunks bound : Nat) (buffer : List UInt64) :
    Proc.Follows Phase.Moves (fun _ phase => phase = .free) (readLayer chunks bound buffer)
      .free := by
  apply (follows_plain .running .free).bind
  rintro (_ | _) _ rfl
  · rfl
  apply (follows_plain .stops .free).bind
  rintro stops _ rfl
  apply (follows_plain .engine .free).bind
  rintro engine _ rfl
  apply (follows_onLink (engine.receive chunks []) .free).bind
  rintro reception _ rfl
  split
  · split
    · apply (follows_recover bound stops).bind
      rintro _ _ rfl
      rfl
    · rfl
  · rfl

/-- Every call goes from its phase to holding nothing. -/
theorem Call.follows (call : Call) :
    Proc.Follows Phase.Moves (fun _ phase => phase = .free) call.program call.phase := by
  cases call with
  | enqueue buffer => exact (follows_enqueue buffer).bind fun _ _ hfree => hfree
  | initialise bound readLength =>
    exact (follows_initialise bound readLength).bind fun _ _ hfree => hfree
  | stop => exact follows_stop
  | reset => exact (follows_reset .free).bind fun _ _ hfree => hfree
  | read chunks bound buffer =>
    exact (follows_readLayer chunks bound buffer).bind fun _ _ hfree => hfree

end Calls

end Queue

end DmaLink
