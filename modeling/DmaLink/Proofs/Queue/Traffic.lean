import DmaLink.Proofs.Except
import DmaLink.Proofs.Queue.Phases

namespace DmaLink

namespace Link

/-- An access that waits for the burst of a channel or acknowledges it. -/
inductive Access.Awaits (channel : Channel) : Access → Prop where
  | pollDone (limit : Nat) : Awaits channel (.pollDone channel limit)
  | awaitInterrupt (limit : Nat) : Awaits channel (.awaitInterrupt channel limit)
  | takeInterrupt : Awaits channel (.takeInterrupt channel)
  | rearm : Awaits channel (.rearm channel)
  | acknowledge (bits : UInt32) : Awaits channel (.writeRegister channel.status bits)

/-- An access that the transfers of a running channel are made of. -/
inductive Access.Serves (channel : Channel) : Access → Prop where
  | awaits {access : Access} (hawaits : access.Awaits channel) : Serves channel access
  | window (access : Window.Access) : Serves channel (.window channel access)
  | address (address : UInt32) : Serves channel (.writeRegister channel.address address)
  | length (length : UInt32) : Serves channel (.writeRegister channel.length length)

/-- What a reception does that may write so many registers, and how many it may write then. It may
    write four more once it has found a finished chunk, and looks for one only when it has written
    all. -/
inductive Drains : Nat → (access : io.Access) → io.Reply access → Nat → Prop where
  | look (limit : Nat) (finished : Bool) :
      Drains 0 (.pollDone .s2mm limit) finished (if finished then 4 else 0)
  | await (limit : Nat) (readable : Except LinkError Bool) :
      Drains 0 (.awaitInterrupt .s2mm limit) readable 0
  | take (count : UInt32) :
      Drains 0 (.takeInterrupt .s2mm) (.ok count : Except LinkError UInt32) 4
  | miss (cause : LinkError) :
      Drains 0 (.takeInterrupt .s2mm) (.error cause : Except LinkError UInt32) 0
  | rearm (left : Nat) (result : Except LinkError Unit) : Drains left (.rearm .s2mm) result left
  | load (left start len : Nat) (words : Except LinkError (Vector UInt64 len)) :
      Drains left (.window .s2mm (.load start len)) words left
  | write (left : Nat) {offset : Nat}
      (hoffset : offset ∈ [Channel.s2mm.status, Channel.s2mm.address, Channel.s2mm.length])
      (value : UInt32) : Drains (left + 1) (.writeRegister offset value) () left

/-- How far a start of both channels has come, from a split of the source window. -/
inductive Launch where
  /-- Both channels are down. -/
  | prepared (source : Split)
  /-- The address of the sending channel is written. -/
  | aimed (source : Split)
  /-- The sending channel runs. -/
  | launched (source : Split)
  /-- Both channels run. -/
  | opened
deriving DecidableEq, Repr

/-- What a start of both channels does, and how far it has come then. The one burst that it sends is
    a tag word at the start of the source window. -/
inductive Launch.Moves : Launch → (access : io.Access) → io.Reply access → Launch → Prop where
  | aim (source : Split) :
      Moves (.prepared source) (.writeRegister Channel.mm2s.address source.base) () (.aimed source)
  | run (source : Split) (mode : SyncMode) :
      Moves (.aimed source) (.writeRegister Channel.mm2s.control mode.runWord) () (.launched source)
  | store (source : Split) (words : List UInt64) (result : Except LinkError Unit) :
      Moves (.launched source) (.window .mm2s (.store 0 words)) result (.launched source)
  | address (source : Split) :
      Moves (.launched source) (.writeRegister Channel.mm2s.address source.base) ()
        (.launched source)
  | length (source : Split) :
      Moves (.launched source) (.writeRegister Channel.mm2s.length (UInt32.ofNat wordBytes)) ()
        (.launched source)
  | await (source : Split) {access : io.Access} (hawaits : access.Awaits .mm2s)
      (reply : io.Reply access) : Moves (.launched source) access reply (.launched source)
  | finish (source : Split) (mode : SyncMode) :
      Moves (.launched source) (.writeRegister Channel.s2mm.control mode.runWord) () .opened

end Link

namespace Proc

variable {I : Interface} {α β : Type}

/-- A weaker postcondition is followed to as well. -/
theorem Follows.mono {S : Type} {moves : S → (access : I.Access) → I.Reply access → S → Prop}
    {post post' : α → S → Prop} {p : Proc I α} {state : S} (hp : p.Follows moves post state)
    (hpost : ∀ result state', post result state' → post' result state') :
    p.Follows moves post' state := by
  induction p generalizing state with
  | ret result => exact hpost result state hp
  | act access next ih =>
    intro reply
    obtain ⟨state', hmove, hnext⟩ := hp reply
    exact ⟨state', hmove, ih reply hnext⟩

/-- Every access of a program satisfies `P`, whatever is replied. -/
def Uses (P : I.Access → Prop) (p : Proc I α) : Prop :=
  p.Follows (fun (_ : Unit) access _ _ => P access) (fun _ _ => True) ()

/-- A program that goes on with a result uses what both parts use. -/
theorem Uses.bind {P : I.Access → Prop} {p : Proc I α} {f : α → Proc I β} (hp : p.Uses P)
    (hf : ∀ result, (f result).Uses P) : (p >>= f).Uses P :=
  Follows.bind hp fun result _ _ => hf result

/-- A program uses accesses of any wider kind as well. -/
theorem Uses.mono {P Q : I.Access → Prop} {p : Proc I α} (hp : p.Uses P)
    (hpq : ∀ access, P access → Q access) : p.Uses Q := by
  induction p with
  | ret result => trivial
  | act access next ih =>
    intro reply
    obtain ⟨_, haccess, hnext⟩ := hp reply
    exact ⟨(), hpq access haccess, ih reply hnext⟩

/-- A program whose accesses are moves that stay where they are. -/
theorem Uses.follows {S : Type} {moves : S → (access : I.Access) → I.Reply access → S → Prop}
    {P : I.Access → Prop} {p : Proc I α} {state : S} (hp : p.Uses P)
    (hmoves : ∀ access reply, P access → moves state access reply state) :
    p.Follows moves (fun _ state' => state' = state) state := by
  induction p with
  | ret result => rfl
  | act access next ih =>
    intro reply
    obtain ⟨_, haccess, hnext⟩ := hp reply
    exact ⟨state, hmoves access reply haccess, ih reply hnext⟩

theorem uses_perform {P : I.Access → Prop} {access : I.Access} (haccess : P access) :
    (perform access).Uses P := fun _ => ⟨(), haccess, trivial⟩

theorem uses_onWindow {P : Link.Access → Prop} (channel : Channel) (p : Proc Window.io α)
    (hwindow : ∀ access, P (.window channel access)) : (onWindow channel p).Uses P := by
  induction p with
  | ret result => trivial
  | act access next ih => exact fun reply => ⟨(), hwindow access, ih reply⟩

end Proc

namespace Completion

open Link

variable (channel : Channel) (limit : Nat)

theorem uses_acknowledge : (acknowledge channel).Uses (Access.Awaits channel) :=
  (Proc.uses_perform (.acknowledge Status.idle)).bind fun _ =>
    Proc.uses_perform (.acknowledge Status.completionInterrupt)

theorem uses_await (mode : SyncMode) :
    (await mode channel limit).Uses (Access.Awaits channel) := by
  cases mode with
  | poll =>
    apply (Proc.uses_perform (.pollDone limit)).bind
    rintro (_ | _)
    · trivial
    · exact (uses_acknowledge channel).bind fun _ => trivial
  | interrupt =>
    apply (Proc.uses_perform (.awaitInterrupt limit)).bind
    rintro (_ | _ | _)
    · trivial
    · trivial
    apply (Proc.uses_perform .takeInterrupt).bind
    rintro (_ | _)
    · trivial
    exact (uses_acknowledge channel).bind fun _ => Proc.uses_perform .rearm

/-- An acknowledgement is two of the writes that are left. -/
theorem drains_acknowledge (left : Nat) :
    (acknowledge .s2mm).Follows Drains (fun _ left' => left' = left) (left + 2) := by
  intro _
  refine ⟨left + 1, .write _ (by simp) _, ?_⟩
  intro _
  exact ⟨left, .write _ (by simp) _, rfl⟩

/-- A wait that has found a finished chunk leaves two registers to write. -/
theorem drains_await (mode : SyncMode) :
    (await mode .s2mm limit).Follows Drains (fun result left => result = .ok () → left = 2) 0 := by
  cases mode with
  | poll =>
    rintro (_ | _)
    · exact ⟨0, .look limit false, fun hnone => nomatch hnone⟩
    · refine ⟨4, .look limit true, ?_⟩
      apply (drains_acknowledge 2).bind
      rintro _ _ rfl
      exact fun _ => rfl
  | interrupt =>
    rintro (_ | _ | _)
    · exact ⟨0, .await limit _, fun hnone => nomatch hnone⟩
    · exact ⟨0, .await limit _, fun hnone => nomatch hnone⟩
    refine ⟨0, .await limit _, ?_⟩
    rintro (cause | count)
    · exact ⟨0, .miss cause, fun hnone => nomatch hnone⟩
    refine ⟨4, .take count, ?_⟩
    apply (drains_acknowledge 2).bind
    rintro _ _ rfl
    intro result
    exact ⟨2, .rearm 2 result, fun _ => rfl⟩

end Completion

namespace Engine

open Link

variable (e : Engine)

/-- The read length does not concern the source window. -/
theorem configure_source {e configured : Engine} {readLength : Nat}
    (hconfigure : e.configure readLength = .ok configured) : configured.source = e.source := by
  unfold configure at hconfigure
  split at hconfigure
  · exact nomatch hconfigure
  split at hconfigure
  · exact nomatch hconfigure
  obtain ⟨destination, -, hconfigured⟩ := bind_eq_ok_iff.1 hconfigure
  cases hconfigured
  rfl

section Sending

/-- A launch serves its channel. -/
theorem uses_launch (channel : Channel) (address : UInt32) (bytes : Nat) :
    (launch channel address bytes).Uses (Access.Serves channel) :=
  (Proc.uses_perform (.address address)).bind fun _ => Proc.uses_perform (.length _)

theorem uses_await (channel : Channel) :
    (Completion.await e.mode channel e.limit).Uses (Access.Serves channel) :=
  (Completion.uses_await channel e.limit e.mode).mono fun _ => .awaits

theorem uses_sendBurst (half : Half) (words : List UInt64) (mode : OperatingMode) :
    (e.sendBurst half words mode).Uses (Access.Serves .mm2s) := by
  apply (Proc.uses_onWindow .mm2s _ .window).bind
  rintro (_ | staged)
  · trivial
  exact (uses_launch .mm2s _ _).bind fun _ => e.uses_await .mm2s

/-- Bursts serve the sending channel. -/
theorem uses_sendBursts (half : Half) (bursts : List (List UInt64)) :
    (e.sendBursts half bursts).Uses (Access.Serves .mm2s) := by
  induction bursts generalizing half with
  | nil => trivial
  | cons words rest ih =>
    apply (e.uses_sendBurst half words _).bind
    rintro (_ | _)
    · trivial
    · exact ih half.other

/-- A split payload serves the sending channel. -/
theorem uses_sendSplit (payload : List UInt64) :
    (e.sendSplit payload).Uses (Access.Serves .mm2s) := by
  unfold sendSplit
  split
  · trivial
  · exact e.uses_sendBursts .a _

end Sending

section Receiving

/-- Arming a half is the two writes that are left. -/
theorem drains_arm (half : Half) : (e.arm half).Follows Drains (fun _ left => left = 0) 2 := by
  intro _
  refine ⟨1, .write _ (by simp) _, ?_⟩
  intro _
  exact ⟨0, .write _ (by simp) _, rfl⟩

/-- A reception that has taken a chunk has two registers to write, to arm the next. -/
theorem drains_takeChunk (half : Half) :
    (e.takeChunk half).Follows Drains (fun result left => ∀ chunk, result = .ok chunk → left = 2)
      0 := by
  apply (Completion.drains_await e.limit e.mode).bind
  rintro (cause | _) left hleft
  · exact fun _ hnone => nomatch hnone
  obtain rfl := hleft rfl
  rintro (cause | last)
  · exact ⟨2, .load _ _ _ _, fun _ hnone => nomatch hnone⟩
  refine ⟨2, .load _ _ _ _, ?_⟩
  rintro (cause | words)
  · exact ⟨2, .load _ _ _ _, fun _ hnone => nomatch hnone⟩
  · exact ⟨2, .load _ _ _ _, fun _ _ => rfl⟩

/-- A reception that drains goes on as the end of its chunk allows. -/
theorem drains_receiveChunks (buffer : List UInt64) (bound : Nat) (half : Half)
    (before : List (List UInt64)) :
    (e.receiveChunks buffer bound half before).Follows Drains (fun _ _ => True) 0 := by
  induction bound generalizing half before with
  | zero => trivial
  | succ bound ih =>
    apply (e.drains_takeChunk half).bind
    rintro (cause | ⟨last, words⟩) left hleft
    · trivial
    obtain rfl := hleft _ rfl
    refine Proc.Follows.ite (fun _ => trivial) fun _ => ?_
    apply (e.drains_arm half.other).bind
    rintro _ _ rfl
    exact ih half.other _

/-- A reception arms a half first. -/
theorem drains_receive (bound : Nat) (buffer : List UInt64) :
    (e.receive bound buffer).Follows Drains (fun _ _ => True) 2 := by
  apply (e.drains_arm .a).bind
  rintro _ _ rfl
  exact e.drains_receiveChunks buffer bound .a []

end Receiving

/-- A single word is launched from the start of the source window. -/
theorem launches_sendWords (word : UInt64) :
    (e.sendWords [word]).Follows Launch.Moves (fun _ launch => launch = .launched e.source)
      (.launched e.source) := by
  intro stored
  refine ⟨_, .store e.source [word] stored, ?_⟩
  cases stored with
  | error cause => rfl
  | ok _ =>
    intro _
    refine ⟨_, .address e.source, ?_⟩
    intro _
    refine ⟨_, .length e.source, ?_⟩
    apply ((Completion.uses_await .mm2s e.limit e.mode).follows fun _ reply hawaits =>
      .await e.source hawaits reply).bind
    rintro (_ | _) _ rfl
    · rfl
    · rfl

/-- A start that fails has left the sending channel running. -/
theorem launches_start :
    e.start.Follows Launch.Moves
      (fun result launch => launch = match result with
        | .ok () => .opened
        | .error _ => .launched e.source) (.prepared e.source) := by
  intro _
  refine ⟨_, .aim e.source, ?_⟩
  intro _
  refine ⟨_, .run e.source e.mode, ?_⟩
  apply (e.launches_sendWords _).bind
  rintro (cause | bytes) _ rfl
  · rfl
  · intro _
    exact ⟨_, .finish e.source e.mode, rfl⟩

end Engine

end DmaLink
