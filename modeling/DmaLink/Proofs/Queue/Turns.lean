import DmaLink.Proofs.Queue.Hardware
import DmaLink.Proofs.Queue.Holders

namespace DmaLink

/-- Sends buffers one after the other, whatever becomes of each. -/
def Engine.sendInTurn (e : Engine) :
    List (List UInt64) → Proc Link.io (List (Except LinkError Unit))
  | [] => return []
  | buffer :: rest => do
    let result ← e.sendSplit buffer
    return result :: (← e.sendInTurn rest)

namespace Queue

open Proc

variable {σ : Type} [Device σ] {b after : Bench σ} {made : List Signal}

section Sending

variable (e : Engine) (link : σ) (buffer : List UInt64) (rest : List (List UInt64))

/-- What comes of a buffer that is sent, and the link then. -/
def outcome : Except LinkError Unit × σ := (e.sendSplit buffer).run Device.answer link

/-- What comes of buffers that are sent one after the other, and the link then. -/
def outcomes (buffers : List (List UInt64)) : List (Except LinkError Unit) × σ :=
  (e.sendInTurn buffers).run Device.answer link

/-- Buffers are sent one after the other, each on the link that the last one left. -/
theorem outcomes_cons : outcomes e link (buffer :: rest) =
    ((outcome e link buffer).1 :: (outcomes e (outcome e link buffer).2 rest).1,
      (outcomes e (outcome e link buffer).2 rest).2) :=
  (run_bind_of_eq rfl).trans (run_bind_of_eq rfl)

theorem writes_sendInTurn_cons :
    (e.sendInTurn (buffer :: rest)).writes link = (e.sendSplit buffer).writes link ++
      (e.sendInTurn rest).writes (outcome e link buffer).2 := by
  rw [Engine.sendInTurn, writes_bind, writes_bind]
  exact congrArg _ (List.append_nil _)

end Sending

/-- Whether a transfer timed out. -/
def timedOut : Except LinkError Unit → Bool
  | .ok () => false
  | .error cause => cause.isTimeout

/-- Whether a transfer failed. -/
def failed : Except LinkError Unit → Bool
  | .ok () => false
  | .error _ => true

/-- The bench once this has come of a transfer. -/
def Bench.concluded (b : Bench σ) : Except LinkError Unit → Bench σ
  | .ok () => b
  | .error cause =>
    let dropped : Bench σ :=
      { b with queue.dropped := b.queue.dropped + 1, queue.lastError := some cause }
    if cause.isTimeout then
      { dropped with
        queue.running := false
        link := (Engine.halt.run Device.answer b.link).2 }
    else dropped

/-- The bench once the oldest of its buffers has been sent. -/
def Bench.handled (b : Bench σ) (buffer : List UInt64) (rest : List (List UInt64)) : Bench σ :=
  let sent := outcome b.queue.engine b.link buffer
  Bench.concluded
    { b with queue.buffers := rest, queue.pending := b.queue.pending - 1, link := sent.2 } sent.1

/-- The signals of sending a buffer, and of the halt if that times out. -/
def Bench.handling (b : Bench σ) (buffer : List UInt64) : List Signal :=
  let sent := outcome b.queue.engine b.link buffer
  ((b.queue.engine.sendSplit buffer).writes b.link).map .write ++
    if timedOut sent.1 then (Engine.halt.writes sent.2).map .write else []

/-- What the worker does with the result of a transfer. -/
def afterSending : Except LinkError Unit → Proc io Unit
  | .ok () => return ()
  | .error cause => do
    access .countDropped
    access (.recordError cause)
    if cause.isTimeout then halt else return ()

/-- A buffer that was sent is concluded, with a halt if it timed out. -/
theorem comes_afterSending (result : Except LinkError Unit) (b : Bench σ) :
    (afterSending result).Comes b
      (if timedOut result then (Engine.halt.writes b.link).map .write else []) ()
      (b.concluded result) := by
  cases result with
  | ok _ => exact ⟨rfl, rfl⟩
  | error cause =>
    let halts : List Signal := (Engine.halt.writes b.link).map .write
    let dropped : Bench σ :=
      { b with queue.dropped := b.queue.dropped + 1, queue.lastError := some cause }
    have hdropping {made : List Signal} {after : Bench σ}
        (hrest : (if cause.isTimeout then halt else return ()).Comes dropped made () after) :
        (afterSending (.error cause)).Comes b made () after :=
      Comes.access (a := .countDropped) (m := made)
        (Comes.access (a := .recordError cause) (m := made) hrest)
    by_cases htimeout : cause.isTimeout = true
    · have hmade : (if timedOut (.error cause) then halts else []) = halts := if_pos htimeout
      have hafter : b.concluded (.error cause) = { dropped with
          queue.running := false
          link := (Engine.halt.run Device.answer b.link).2 } := if_pos htimeout
      rw [hmade, hafter]
      exact hdropping (Comes.ite_pos htimeout (comes_halt dropped))
    · have hmade : (if timedOut (.error cause) then halts else []) = [] := if_neg htimeout
      have hafter : b.concluded (.error cause) = dropped := if_neg htimeout
      rw [hmade, hafter]
      exact hdropping (Comes.ite_neg htimeout (comes_ret _ dropped))

/-- What the worker does with a buffer that it has taken. -/
def afterTaking (buffer : List UInt64) : Proc io Unit := do
  access .uncountPending
  let running : Bool ← access .running
  if running then transmit buffer else access .countDropped

/-- A turn of a queue that runs sends the buffer that was taken. -/
theorem comes_afterTaking (hrunning : b.queue.running = true) (buffer : List UInt64)
    (rest : List (List UInt64)) :
    (afterTaking buffer).Comes { b with queue.buffers := rest } (b.handling buffer) ()
      (b.handled buffer rest) := by
  let taken : Bench σ :=
    { b with queue.buffers := rest, queue.pending := b.queue.pending - 1 }
  let sent := outcome b.queue.engine b.link buffer
  have htransmit :
      (transmit buffer).Comes taken (b.handling buffer) () (b.handled buffer rest) := by
    apply Comes.access (a := .engine) (m := b.handling buffer)
    exact (comes_onLink (b.queue.engine.sendSplit buffer) taken).bind
      (comes_afterSending sent.1 { taken with link := sent.2 })
  apply Comes.access (a := .uncountPending) (m := b.handling buffer)
  apply Comes.access (a := .running) (m := b.handling buffer)
  exact Comes.ite_pos hrunning htransmit

/-- A transfer that does not time out leaves the queue running as it was. -/
theorem handled_of_not_timedOut {buffer : List UInt64}
    (hother : timedOut (outcome b.queue.engine b.link buffer).1 = false)
    (rest : List (List UInt64)) :
    let sent := outcome b.queue.engine b.link buffer
    b.handling buffer = ((b.queue.engine.sendSplit buffer).writes b.link).map .write ∧
      ∃ lastError pending, b.handled buffer rest =
        { b with
          link := sent.2
          queue := { b.queue with
            buffers := rest, pending, lastError
            dropped := b.queue.dropped + [sent.1].countP failed } } := by
  intro sent
  have hhandling : b.handling buffer =
      ((b.queue.engine.sendSplit buffer).writes b.link).map .write := by
    rw [Bench.handling, if_neg (Bool.eq_false_iff.1 hother), List.append_nil]
  refine ⟨hhandling, ?_⟩
  have hhandled : b.handled buffer rest = Bench.concluded { b with
    queue.buffers := rest, queue.pending := b.queue.pending - 1, link := sent.2 } sent.1 := rfl
  rw [hhandled]
  cases hsent : sent.1 with
  | ok _ => exact ⟨_, _, rfl⟩
  | error cause =>
    have hcause : ¬cause.isTimeout = true := by
      rw [hsent] at hother
      exact Bool.eq_false_iff.1 hother
    exact ⟨_, _, if_neg hcause⟩

/-- A transfer that times out halts the queue. -/
theorem handled_of_timedOut {buffer : List UInt64} {cause : LinkError}
    (hcause : (outcome b.queue.engine b.link buffer).1 = .error cause)
    (htimeout : cause.isTimeout = true) (rest : List (List UInt64)) :
    let sent := outcome b.queue.engine b.link buffer
    b.handling buffer = ((b.queue.engine.sendSplit buffer).writes b.link).map .write ++
        (Engine.halt.writes sent.2).map .write ∧
      ∃ pending, b.handled buffer rest =
        { b with
          link := (Engine.halt.run Device.answer sent.2).2
          queue := { b.queue with
            buffers := rest, pending, running := false
            dropped := b.queue.dropped + 1, lastError := some cause } } := by
  intro sent
  refine ⟨?_, ?_⟩
  · rw [Bench.handling, hcause]
    exact congrArg _ (if_pos htimeout)
  · have hhandled : b.handled buffer rest = Bench.concluded { b with
      queue.buffers := rest, queue.pending := b.queue.pending - 1, link := sent.2 } sent.1 := rfl
    rw [hhandled, hcause]
    exact ⟨_, if_pos htimeout⟩

theorem buffers_concluded (b : Bench σ) (result : Except LinkError Unit) :
    (b.concluded result).queue.buffers = b.queue.buffers := by
  cases result with
  | ok _ => rfl
  | error cause =>
    simp only [Bench.concluded]
    split <;> rfl

/-- The worker handles the buffer that has waited longest. -/
theorem comes_handleBuffer {buffer : List UInt64} {rest : List (List UInt64)}
    (hrunning : b.queue.running = true) (hbuffers : b.queue.buffers = buffer :: rest) :
    handleBuffer.Comes b (b.handling buffer) () (b.handled buffer rest) := by
  apply Comes.access (a := .take) (m := b.handling buffer)
  rw [answer_take, hbuffers]
  exact comes_afterTaking hrunning buffer rest

/-- With nothing waiting the worker does nothing. -/
theorem comes_handleBuffer_of_nil (hbuffers : b.queue.buffers = []) :
    handleBuffer.Comes b [] () b := by
  have hsame : ({ b with queue.buffers := [] } : Bench σ) = b := by rw [← hbuffers]
  apply Comes.access (a := .take) (m := [])
  rw [answer_take, hbuffers]
  exact ⟨congrArg _ hsame, rfl⟩

/-- A worker with a turn for every buffer leaves none waiting while the queue runs. -/
theorem exists_comes_worker {bound : Nat} (hbound : b.queue.buffers.length ≤ bound) :
    ∃ made after, (worker bound).Comes b made () after ∧
      (after.queue.running = true → after.queue.buffers = []) := by
  induction bound generalizing b with
  | zero =>
    exact ⟨_, _, comes_ret _ b, fun _ => List.eq_nil_of_length_eq_zero (Nat.le_zero.1 hbound)⟩
  | succ bound ih =>
    cases hrunning : b.queue.running with
    | false =>
      refine ⟨[], b, .access (a := .running) (m := []) ?_, ?_⟩
      · exact Comes.ite_neg (Bool.eq_false_iff.1 hrunning) (comes_ret _ b)
      · exact fun hruns => nomatch hrunning.symm.trans hruns
    | true =>
      have hturn {made made' : List Signal} {between after : Bench σ}
          (hhandled : handleBuffer.Comes b made () between)
          (hrest : (worker bound).Comes between made' () after) :
          (worker (bound + 1)).Comes b (made ++ made') () after :=
        .access (a := .running) (m := made ++ made')
          (Comes.ite_pos hrunning (hhandled.bind hrest))
      cases hbuffers : b.queue.buffers with
      | nil =>
        obtain ⟨made, after, hrest, hsettled⟩ := ih (b := b) (hbuffers ▸ Nat.zero_le _)
        exact ⟨_, after, hturn (comes_handleBuffer_of_nil hbuffers) hrest, hsettled⟩
      | cons buffer rest =>
        have hfewer : (b.handled buffer rest).queue.buffers.length ≤ bound := by
          rw [Bench.handled, buffers_concluded]
          rw [hbuffers] at hbound
          exact Nat.le_of_succ_le_succ hbound
        obtain ⟨made, after, hrest, hsettled⟩ := ih hfewer
        exact ⟨_, after, hturn (comes_handleBuffer hrunning hbuffers) hrest, hsettled⟩

/-- Turns that are taken one after the other, each with a buffer that waits, while the queue
    runs. -/
inductive Turns : Bench σ → List Signal → Bench σ → Prop where
  | done (b : Bench σ) : Turns b [] b
  | turn {b after : Bench σ} {made : List Signal} {buffer : List UInt64}
      {rest : List (List UInt64)} (hrunning : b.queue.running = true)
      (hbuffers : b.queue.buffers = buffer :: rest)
      (hrest : Turns (b.handled buffer rest) made after) :
      Turns b (b.handling buffer ++ made) after

namespace Turns

theorem trans {b between after : Bench σ} {made made' : List Signal}
    (hfirst : Turns b made between) (hsecond : Turns between made' after) :
    Turns b (made ++ made') after := by
  induction hfirst with
  | done => exact hsecond
  | turn hrunning hbuffers _ ih =>
    rw [List.append_assoc]
    exact .turn hrunning hbuffers (ih hsecond)

/-- In a queue that does not run there are no turns. -/
theorem eq_of_stopped (hturns : Turns b made after) (hstopped : b.queue.running = false) :
    made = [] ∧ after = b := by
  cases hturns with
  | done => exact ⟨rfl, rfl⟩
  | turn hrunning => exact nomatch hstopped.symm.trans hrunning

/-- If no transfer times out, every buffer is sent. -/
theorem sent (hturns : Turns b made after) (hrunning : b.queue.running = true)
    (hsettled : after.queue.running = true → after.queue.buffers = [])
    (hresults : ∀ result ∈ (outcomes b.queue.engine b.link b.queue.buffers).1,
      timedOut result = false) :
    let sent := outcomes b.queue.engine b.link b.queue.buffers
    after.queue.running = true ∧ after.queue.buffers = [] ∧
      after.queue.dropped = b.queue.dropped + sent.1.countP failed ∧
      after.link = sent.2 ∧ after.line = b.line ∧
      made = ((b.queue.engine.sendInTurn b.queue.buffers).writes b.link).map .write := by
  induction hturns with
  | done b =>
    have hnone := hsettled hrunning
    rw [hnone]
    exact ⟨hrunning, rfl, rfl, rfl, rfl, rfl⟩
  | @turn b after made buffer rest _ hbuffers hrest ih =>
    rw [hbuffers, outcomes_cons] at hresults
    obtain ⟨hfirst, hothers⟩ := List.forall_mem_cons.1 hresults
    obtain ⟨hhandling, lastError, pending, hhandled⟩ := handled_of_not_timedOut hfirst rest
    rw [hhandled] at ih
    obtain ⟨hruns, hnone, hdropped, hlink, hline, hmade⟩ := ih hrunning hsettled hothers
    rw [hbuffers, outcomes_cons, writes_sendInTurn_cons, hhandling, hmade, List.map_append]
    refine ⟨hruns, hnone, ?_, hlink, hline, rfl⟩
    rw [hdropped, Nat.add_assoc, ← List.countP_append]
    rfl

/-- If a transfer is the first that times out, the buffers up to it are sent, the queue is halted,
    and those behind it go on waiting. -/
theorem halted (hturns : Turns b made after) (hrunning : b.queue.running = true)
    (hsettled : after.queue.running = true → after.queue.buffers = [])
    {sent behind : List (List UInt64)} {failing : List UInt64} {cause : LinkError}
    (hbuffers : b.queue.buffers = sent ++ failing :: behind)
    (hresults : ∀ result ∈ (outcomes b.queue.engine b.link sent).1, timedOut result = false)
    (hcause : (outcome b.queue.engine (outcomes b.queue.engine b.link sent).2 failing).1 =
      .error cause)
    (htimeout : cause.isTimeout = true) :
    let before := outcomes b.queue.engine b.link sent
    let last := outcome b.queue.engine before.2 failing
    after.queue.running = false ∧ after.queue.buffers = behind ∧
      after.queue.dropped = b.queue.dropped + before.1.countP failed + 1 ∧
      after.queue.lastError = some cause ∧
      after.link = (Engine.halt.run Device.answer last.2).2 ∧ after.line = b.line ∧
      made = ((b.queue.engine.sendInTurn sent).writes b.link).map .write ++
        (((b.queue.engine.sendSplit failing).writes before.2).map .write ++
          (Engine.halt.writes last.2).map .write) := by
  induction hturns generalizing sent with
  | done b =>
    have hnone := hbuffers.symm.trans (hsettled hrunning)
    exact absurd hnone (List.append_ne_nil_of_right_ne_nil _ (List.cons_ne_nil _ _))
  | @turn b after made buffer rest _ hbuffers' hrest ih =>
    rw [hbuffers'] at hbuffers
    cases sent with
    | nil =>
      obtain ⟨rfl, rfl⟩ := List.cons.inj hbuffers
      obtain ⟨hhandling, pending, hhandled⟩ := handled_of_timedOut hcause htimeout rest
      rw [hhandled] at hrest
      obtain ⟨rfl, rfl⟩ := hrest.eq_of_stopped rfl
      refine ⟨rfl, rfl, rfl, rfl, rfl, rfl, ?_⟩
      rw [hhandling, List.append_nil]
      rfl
    | cons other sent =>
      obtain ⟨rfl, hbehind⟩ := List.cons.inj hbuffers
      rw [outcomes_cons] at hresults hcause
      obtain ⟨hfirst, hothers⟩ := List.forall_mem_cons.1 hresults
      obtain ⟨hhandling, lastError, pending, hhandled⟩ := handled_of_not_timedOut hfirst rest
      rw [hhandled] at ih
      obtain ⟨hstopped, hwaiting, hdropped, herror, hlink, hline, hmade⟩ :=
        ih hrunning hsettled hbehind hothers hcause
      rw [outcomes_cons, writes_sendInTurn_cons, hhandling, hmade, List.map_append]
      refine ⟨hstopped, hwaiting, ?_, herror, hlink, hline, (List.append_assoc ..).symm⟩
      rw [hdropped, Nat.add_assoc b.queue.dropped, ← List.countP_append]
      rfl

end Turns

end Queue

end DmaLink
