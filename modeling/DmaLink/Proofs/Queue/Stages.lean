import DmaLink.Proofs.Queue.Traffic

namespace DmaLink.Queue

open Link (Drains Launch)

/-- How far someone has come with bringing the channels down or up. -/
inductive Progress where
  /-- Nothing is begun. -/
  | even
  /-- The queue is marked as stopped. -/
  | marked
  /-- The receiving channel has been brought down besides. -/
  | half
  /-- Both channels have been brought down. -/
  | down
  /-- The engine has its read length and starts the channels. -/
  | starting (launch : Launch)
  /-- The queue is marked as running, and its worker is to be started. -/
  | ready
deriving DecidableEq, Repr

namespace Progress

/-- Marking the queue as stopped. -/
inductive Marks : Progress → Progress → Prop where
  | begin : Marks .even .marked
  | again : Marks .down .down

/-- Bringing a channel down. -/
inductive Falls : Channel → Progress → Progress → Prop where
  | s2mm : Falls .s2mm .marked .half
  | mm2s : Falls .mm2s .half .down
  | again (channel : Channel) : Falls channel .down .down

/-- What the worker does, and how far it has come then. -/
inductive Works : Progress → (access : io.Access) → io.Reply access → Progress → Prop where
  | look (running : Bool) : Works .even .running running .even
  | take (taken : Option (List UInt64)) : Works .even .take taken .even
  | uncount : Works .even .uncountPending () .even
  | drop : Works .even .countDropped () .even
  | record (cause : LinkError) : Works .even (.recordError cause) () .even
  | copy (engine : Engine) : Works .even .engine engine .even
  | send {access : Link.Access} (hserves : access.Serves .mm2s) (reply : access.Reply) :
      Works .even (.link access) reply .even
  | mark : Works .even (.setRunning false) () .marked
  | fall : Works .marked (.link (.writeRegister Channel.s2mm.control Control.halt)) () .half
  | halt : Works .half (.link (.writeRegister Channel.mm2s.control Control.halt)) () .even

end Progress

/-- What a client wants the lock for. -/
inductive Purpose where
  /-- To see whether a read that timed out is to start the queue again. -/
  | inspect
  | start
  | stop
deriving DecidableEq, Repr

/-- The words that bring a channel down. -/
inductive Purpose.Lowers : Purpose → UInt32 → Prop where
  | start {word : UInt32} (hword : word = Control.halt ∨ word = Control.reset) : Lowers .start word
  | stop : Lowers .stop Control.halt

/-- When a client gives the lock back. -/
inductive Purpose.Leaves : Purpose → Bool → Progress → Prop where
  | inspect (joined : Bool) : Leaves .inspect joined .even
  | start (joined : Bool) : Leaves .start joined .even
  | reset : Leaves .start true .down
  | prepare (source : Split) : Leaves .start true (.starting (.prepared source))
  | launch (source : Split) : Leaves .start true (.starting (.launched source))
  | stop : Leaves .stop true .down

/-- How far a client has come. -/
inductive Stage where
  /-- It is in no call, or has nothing to do with the link in it. -/
  | clear
  /-- It is about to look whether the queue runs, and to read from it then. -/
  | asking
  /-- It reads, and may write so many registers before it finds another finished chunk. -/
  | reading (left : Nat)
  /-- It resets the channels without the lock. -/
  | resetting
  /-- It is about to take the lock. -/
  | bound (purpose : Purpose)
  /-- It holds the lock, and may have waited for the worker to be over. -/
  | held (purpose : Purpose) (joined : Bool) (progress : Progress)
  /-- It is about to look whether the queue runs, and to let it go. -/
  | closing
  /-- It lets go a queue that it has found stopped. -/
  | leaving
deriving DecidableEq, Repr

namespace Stage

/-- What a client does in a stage, and the stage that it comes to. -/
inductive Moves : Stage → (access : io.Access) → io.Reply access → Stage → Prop where
  | count : Moves .clear .countPending () .clear
  | put (buffer : List UInt64) : Moves .clear (.put buffer) () .clear
  | ask (running : Bool) : Moves .asking .running running (if running then .reading 2 else .clear)
  | sample (left stops : Nat) : Moves (.reading left) .stops stops (.reading left)
  | borrow (left : Nat) (engine : Engine) : Moves (.reading left) .engine engine (.reading left)
  | read {left left' : Nat} {access : Link.Access} {reply : access.Reply}
      (hdrains : Drains left access reply left') :
      Moves (.reading left) (.link access) reply (.reading left')
  | inspect (left : Nat) : Moves (.reading left) .lock () (.held .inspect false .even)
  | reset (channel : Channel) :
      Moves .resetting (.link (.writeRegister channel.control Control.reset)) () .resetting
  | pulse (call : ResetLine.Call) (result : Except LinkError Unit) :
      Moves .resetting (.line call) result .resetting
  | lock (purpose : Purpose) : Moves (.bound purpose) .lock () (.held purpose false .even)
  | compare (stops : Nat) :
      Moves (.held .inspect false .even) .stops stops (.held .inspect false .even)
  | find (running : Bool) : Moves (.held .inspect false .even) .running running
      (.held (if running then .start else .inspect) false .even)
  | copy (engine : Engine) :
      Moves (.held .start false .even) .engine engine (.held .start false .even)
  | countStop : Moves (.held .stop false .even) .countStop () (.held .stop false .even)
  | mark {purpose : Purpose} {progress progress' : Progress} (joined : Bool)
      (hpurpose : purpose ≠ .inspect) (hmarks : progress.Marks progress') :
      Moves (.held purpose joined progress) (.setRunning false) () (.held purpose joined progress')
  | fall {purpose : Purpose} {word : UInt32} {channel : Channel} {progress progress' : Progress}
      (joined : Bool) (hlowers : purpose.Lowers word)
      (hfalls : Progress.Falls channel progress progress') :
      Moves (.held purpose joined progress) (.link (.writeRegister channel.control word)) ()
        (.held purpose joined progress')
  | join {purpose : Purpose} {progress : Progress} (joined : Bool)
      (hprogress : progress = .marked ∨ progress = .down) :
      Moves (.held purpose joined progress) .joinWorker () (.held purpose true progress)
  | line (call : ResetLine.Call) (result : Except LinkError Unit) :
      Moves (.held .start true .down) (.line call) result (.held .start true .down)
  | take (taken : Option (List UInt64)) :
      Moves (.held .start true .down) .take taken (.held .start true .down)
  | uncount : Moves (.held .start true .down) .uncountPending () (.held .start true .down)
  | prepare (engine : Engine) : Moves (.held .start true .down) .engine engine
      (.held .start true (.starting (.prepared engine.source)))
  | configure {source : Split} {engine : Engine} (hsource : engine.source = source) :
      Moves (.held .start true (.starting (.prepared source))) (.setEngine engine) ()
        (.held .start true (.starting (.prepared source)))
  | launch {launch launch' : Launch} {access : Link.Access} {reply : access.Reply}
      (hlaunches : launch.Moves access reply launch') :
      Moves (.held .start true (.starting launch)) (.link access) reply
        (.held .start true (.starting launch'))
  | revive : Moves (.held .start true (.starting .opened)) (.setRunning true) ()
      (.held .start true .ready)
  | startWorker : Moves (.held .start true .ready) .startWorker () (.held .start false .even)
  | unlock {purpose : Purpose} {joined : Bool} {progress : Progress}
      (hleaves : purpose.Leaves joined progress) :
      Moves (.held purpose joined progress) .unlock () .clear
  | close (running : Bool) :
      Moves .closing .running running (if running then .bound .stop else .leaving)
  | forget : Moves .leaving (.setRunning false) () .leaving
  | leave : Moves .leaving .joinWorker () .clear

/-- The stages in which a call may be over. -/
inductive Out : Stage → Prop where
  | clear : Out .clear
  | reading (left : Nat) : Out (.reading left)
  | resetting : Out .resetting

end Stage

/-- The stage that a call starts in. -/
def Call.stage : Call → Stage
  | .enqueue _ => .clear
  | .initialise _ _ => .bound .start
  | .stop => .bound .stop
  | .reset => .resetting
  | .read _ _ _ => .asking

/-- What the accesses of the link are to everyone else follows from what they are to the link. -/
theorem follows_onLink_of_follows {S T α : Type}
    {moves : S → (access : Link.io.Access) → Link.io.Reply access → S → Prop}
    {moves' : T → (access : io.Access) → io.Reply access → T → Prop} {post : α → S → Prop}
    {p : Proc Link.io α} {state : S} (stage : S → T) (hp : p.Follows moves post state)
    (hmoves : ∀ {state state' : S} {access : Link.Access} {reply : access.Reply},
      moves state access reply state' → moves' (stage state) (.link access) reply (stage state')) :
    (onLink p).Follows moves' (fun result stage' => ∃ state', stage' = stage state' ∧
      post result state') (stage state) := by
  induction p generalizing state with
  | ret result => exact ⟨state, rfl, hp⟩
  | act access next ih =>
    intro reply
    obtain ⟨state', hmove, hnext⟩ := hp reply
    exact ⟨stage state', hmoves hmove, ih reply hnext⟩

section Calls

variable {purpose : Purpose} {joined : Bool} {progress progress' : Progress}

theorem Progress.Marks.marked_or_down (hmarks : progress.Marks progress') :
    progress' = .marked ∨ progress' = .down := by
  cases hmarks with
  | begin => exact .inl rfl
  | again => exact .inr rfl

theorem staged_mark (hpurpose : purpose ≠ .inspect) (hmarks : progress.Marks progress') :
    (access (.setRunning false)).Follows Stage.Moves
      (fun _ stage => stage = .held purpose joined progress') (.held purpose joined progress) := by
  intro _
  exact ⟨_, .mark joined hpurpose hmarks, rfl⟩

/-- Whoever has marked the queue as stopped waits for its worker. -/
theorem staged_join (hpurpose : purpose ≠ .inspect) (hmarks : progress.Marks progress') :
    join.Follows Stage.Moves (fun _ stage => stage = .held purpose true progress')
      (.held purpose joined progress) := by
  apply (staged_mark hpurpose hmarks).bind
  rintro _ _ rfl
  intro _
  exact ⟨_, .join joined hmarks.marked_or_down, rfl⟩

/-- A halt under the lock lowers both channels and joins the worker. -/
theorem staged_haltAndJoin (hlowers : purpose.Lowers Control.halt) :
    haltAndJoin.Follows Stage.Moves (fun _ stage => stage = .held purpose true .down)
      (.held purpose false .even) := by
  have hpurpose : purpose ≠ .inspect := by cases hlowers <;> decide
  apply (staged_mark hpurpose .begin).bind
  rintro _ _ rfl
  intro _
  refine ⟨_, .fall false hlowers .s2mm, ?_⟩
  intro _
  refine ⟨_, .fall false hlowers .mm2s, ?_⟩
  exact staged_join hpurpose .again

theorem staged_callLine (calls : List ResetLine.Call) {stage : Stage}
    (hline : ∀ call result, Stage.Moves stage (.line call) result stage) :
    (callLine calls).Follows Stage.Moves (fun _ stage' => stage' = stage) stage := by
  induction calls with
  | nil => rfl
  | cons call rest ih =>
    intro result
    refine ⟨stage, hline call result, ?_⟩
    cases result with
    | error cause => rfl
    | ok _ => exact ih

theorem staged_reset :
    reset.Follows Stage.Moves (fun _ stage => stage = .resetting) .resetting := by
  intro _
  refine ⟨_, .reset .s2mm, ?_⟩
  intro _
  refine ⟨_, .reset .mm2s, ?_⟩
  exact staged_callLine _ .pulse

/-- A start resets the channels once it has waited for the worker. -/
theorem staged_reset_held (hprogress : progress = .marked ∨ progress = .down) :
    reset.Follows Stage.Moves (fun _ stage => stage = .held .start true .down)
      (.held .start true progress) := by
  obtain ⟨between, hfalls, hfalls'⟩ : ∃ between, Progress.Falls .s2mm progress between ∧
      Progress.Falls .mm2s between .down := by
    obtain rfl | rfl := hprogress
    · exact ⟨.half, .s2mm, .mm2s⟩
    · exact ⟨.down, .again .s2mm, .again .mm2s⟩
  intro _
  refine ⟨_, .fall true (.start (.inr rfl)) hfalls, ?_⟩
  intro _
  refine ⟨_, .fall true (.start (.inr rfl)) hfalls', ?_⟩
  exact staged_callLine _ .line

/-- What waits is discarded while both channels are down. -/
theorem staged_discard (bound : Nat) :
    (discard bound).Follows Stage.Moves (fun _ stage => stage = .held .start true .down)
      (.held .start true .down) := by
  induction bound with
  | zero => rfl
  | succ bound ih =>
    intro taken
    refine ⟨_, .take taken, ?_⟩
    cases taken with
    | none => rfl
    | some buffer =>
      intro _
      exact ⟨_, .uncount, ih⟩

/-- Under the lock the engine is started, or the start stops at its first failure. -/
theorem staged_initialiseEngine (readLength : Nat) :
    (initialiseEngine readLength).Follows Stage.Moves
      (fun result stage => match result with
        | .ok () => stage = .held .start true (.starting .opened)
        | .error _ => ∃ progress, stage = .held .start true progress ∧
          Purpose.start.Leaves true progress)
      (.held .start true .down) := by
  have hengine : (access .engine).Follows Stage.Moves
      (fun (engine : Engine) stage =>
        stage = .held .start true (.starting (.prepared engine.source)))
      (.held .start true .down) := fun engine => ⟨_, .prepare engine, rfl⟩
  apply hengine.bind
  rintro engine _ rfl
  split
  · exact ⟨_, rfl, .prepare _⟩
  next configured hconfigure =>
  have hsource := Engine.configure_source hconfigure
  intro _
  refine ⟨_, .configure hsource, ?_⟩
  rw [← hsource]
  apply (follows_onLink_of_follows (fun launch => Stage.held .start true (.starting launch))
    configured.launches_start Stage.Moves.launch).mono
  rintro (cause | _) _ ⟨_, rfl, rfl⟩
  · exact ⟨_, rfl, .launch _⟩
  · rfl

/-- A start gives the lock back with both channels running, or with what it has come to. -/
theorem staged_start (bound readLength : Nat) (hmarks : progress.Marks progress') :
    (start bound readLength).Follows Stage.Moves
      (fun _ stage => ∃ joined progress, stage = .held .start joined progress ∧
        Purpose.start.Leaves joined progress) (.held .start joined progress) := by
  apply (staged_join (by decide) hmarks).bind
  rintro _ _ rfl
  apply (staged_reset_held hmarks.marked_or_down).bind
  rintro (cause | _) _ rfl
  · exact ⟨true, _, rfl, .reset⟩
  apply (staged_discard bound).bind
  rintro _ _ rfl
  apply (staged_initialiseEngine readLength).bind
  rintro (cause | _) stage hstage
  · obtain ⟨progress, rfl, hleaves⟩ := hstage
    exact ⟨true, progress, rfl, hleaves⟩
  obtain rfl := hstage
  intro _
  refine ⟨_, .revive, ?_⟩
  intro _
  exact ⟨_, .startWorker, false, _, rfl, .start false⟩

/-- Who has done what it took the lock for leaves. -/
theorem staged_unlock (hleaves : purpose.Leaves joined progress) :
    (access .unlock).Follows Stage.Moves (fun _ stage => stage = .clear)
      (.held purpose joined progress) := by
  intro _
  exact ⟨_, .unlock hleaves, rfl⟩

/-- A start goes through its stages and is clear. -/
theorem staged_initialise (bound readLength : Nat) :
    (initialise bound readLength).Follows Stage.Moves (fun _ stage => stage = .clear)
      (.bound .start) := by
  intro _
  refine ⟨_, .lock .start, ?_⟩
  apply (staged_start bound readLength .begin).bind
  rintro _ _ ⟨joined, progress, rfl, hleaves⟩
  apply (staged_unlock hleaves).bind
  rintro _ _ rfl
  rfl

theorem staged_stop :
    stop.Follows Stage.Moves (fun _ stage => stage = .clear) (.bound .stop) := by
  intro _
  refine ⟨_, .lock .stop, ?_⟩
  intro _
  refine ⟨_, .countStop, ?_⟩
  apply (staged_haltAndJoin .stop).bind
  rintro _ _ rfl
  exact staged_unlock .stop

/-- Only who has found the queue running, under the lock, starts it again. -/
theorem staged_recover (bound stopsBefore left : Nat) :
    (recover bound stopsBefore).Follows Stage.Moves (fun _ stage => stage = .clear)
      (.reading left) := by
  have hfound : (access .running).Follows Stage.Moves
      (fun (running : Bool) stage =>
        stage = .held (if running then .start else .inspect) false .even)
      (.held .inspect false .even) := fun running => ⟨_, .find running, rfl⟩
  intro _
  refine ⟨_, .inspect left, ?_⟩
  intro (stops : Nat)
  refine ⟨_, .compare stops, ?_⟩
  refine Proc.Follows.ite (fun _ => staged_unlock (.inspect false)) fun _ => ?_
  apply hfound.bind
  rintro (_ | _) _ rfl
  · exact staged_unlock (.inspect false)
  intro engine
  refine ⟨_, .copy engine, ?_⟩
  apply (staged_haltAndJoin (.start (.inl rfl))).bind
  rintro _ _ rfl
  apply (staged_start bound _ .again).bind
  rintro _ _ ⟨joined, progress, rfl, hleaves⟩
  exact staged_unlock hleaves

theorem staged_readLayer (chunks bound : Nat) (buffer : List UInt64) :
    (readLayer chunks bound buffer).Follows Stage.Moves (fun _ stage => stage.Out) .asking := by
  have hasks : (access .running).Follows Stage.Moves
      (fun (running : Bool) stage => stage = if running then .reading 2 else .clear) .asking :=
    fun running => ⟨_, .ask running, rfl⟩
  apply hasks.bind
  rintro (_ | _) _ rfl
  · exact .clear
  intro stops
  refine ⟨_, .sample 2 stops, ?_⟩
  intro engine
  refine ⟨_, .borrow 2 engine, ?_⟩
  apply (follows_onLink_of_follows Stage.reading (Engine.drains_receive engine chunks [])
    .read).bind
  rintro reception _ ⟨left, rfl, -⟩
  split
  · split
    · apply (staged_recover bound stops left).bind
      rintro _ _ rfl
      exact .clear
    · exact .reading left
  · exact .reading left

theorem staged_close :
    close.Follows Stage.Moves (fun _ stage => stage = .clear) .closing := by
  have hfound : (access .running).Follows Stage.Moves
      (fun (running : Bool) stage => stage = if running then .bound .stop else .leaving)
      .closing := fun running => ⟨_, .close running, rfl⟩
  apply hfound.bind
  rintro (_ | _) _ rfl
  · intro _
    refine ⟨_, .forget, ?_⟩
    intro _
    exact ⟨_, .leave, rfl⟩
  · exact staged_stop

theorem staged_enqueue (buffer : List UInt64) :
    (enqueue buffer).Follows Stage.Moves (fun _ stage => stage = .clear) .clear := by
  unfold enqueue
  split
  · rfl
  · intro _
    refine ⟨_, .count, ?_⟩
    intro _
    exact ⟨_, .put buffer, rfl⟩

/-- Every call goes through its stages from the one that it starts in. -/
theorem Call.staged (call : Call) :
    call.program.Follows Stage.Moves (fun _ stage => stage.Out) call.stage := by
  have hclear {stage : Stage} (hclear : stage = .clear) : stage.Out := hclear ▸ .clear
  cases call with
  | enqueue buffer => exact (staged_enqueue buffer).bind fun _ _ => hclear
  | initialise bound readLength => exact (staged_initialise bound readLength).bind fun _ _ => hclear
  | stop => exact staged_stop.mono fun _ _ => hclear
  | reset =>
    apply staged_reset.bind
    rintro _ _ rfl
    exact .resetting
  | read chunks bound buffer =>
    exact (staged_readLayer chunks bound buffer).bind fun _ _ hout => hout

end Calls

section Worker

/-- The worker halts both channels and is even. -/
theorem works_halt :
    halt.Follows Progress.Works (fun _ progress => progress = .even) .even := by
  intro _
  refine ⟨_, .mark, ?_⟩
  intro _
  refine ⟨_, .fall, ?_⟩
  intro _
  exact ⟨_, .halt, rfl⟩

theorem works_transmit (buffer : List UInt64) :
    (transmit buffer).Follows Progress.Works (fun _ progress => progress = .even) .even := by
  intro engine
  refine ⟨_, .copy engine, ?_⟩
  apply (follows_onLink_of_follows (fun (_ : Unit) => Progress.even)
    (Engine.uses_sendSplit engine buffer) fun hserves => .send hserves _).bind
  rintro (cause | _) _ ⟨_, rfl, -⟩
  · intro _
    refine ⟨_, .drop, ?_⟩
    intro _
    refine ⟨_, .record cause, ?_⟩
    exact Proc.Follows.ite (fun _ => works_halt) fun _ => rfl
  · rfl

theorem works_handleBuffer :
    handleBuffer.Follows Progress.Works (fun _ progress => progress = .even) .even := by
  intro taken
  refine ⟨_, .take taken, ?_⟩
  cases taken with
  | none => rfl
  | some buffer =>
    intro _
    refine ⟨_, .uncount, ?_⟩
    intro running
    refine ⟨_, .look running, ?_⟩
    cases running with
    | false =>
      intro _
      exact ⟨_, .drop, rfl⟩
    | true => exact works_transmit buffer

/-- The worker brings down what it has marked, or sends. -/
theorem works_worker (bound : Nat) :
    (worker bound).Follows Progress.Works (fun _ progress => progress = .even) .even := by
  induction bound with
  | zero => rfl
  | succ bound ih =>
    intro running
    refine ⟨_, .look running, ?_⟩
    cases running with
    | false => rfl
    | true =>
      apply works_handleBuffer.bind
      rintro _ _ rfl
      exact ih

end Worker

end DmaLink.Queue
