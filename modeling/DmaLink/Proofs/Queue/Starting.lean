import DmaLink.Proofs.Loopback.Stalling
import DmaLink.Proofs.Queue.Hardware
import DmaLink.Proofs.Queue.Holders

namespace DmaLink

/-- Whether a probe refuses the request after the next `i`. -/
def ResetLine.Probe.Refuses (p : Probe) (i : Nat) : Prop := p.calls.size + i ∈ p.refusals

instance (p : ResetLine.Probe) (i : Nat) : Decidable (p.Refuses i) :=
  inferInstanceAs (Decidable (p.calls.size + i ∈ p.refusals))

/-- The requests are accepted as far as the first that is refused, the `i`-th. -/
def ResetLine.Probe.RefusesFirst (p : Probe) (i : Nat) : Prop :=
  p.Refuses i ∧ ∀ j < i, ¬p.Refuses j

namespace Queue

open Proc

variable {σ : Type} [Device σ]

namespace Bench

/-- The bench once requests have been made to the reset line. -/
def requested (b : Bench σ) (calls : List ResetLine.Call) : Bench σ :=
  { b with
    line.calls := b.line.calls ++ (calls.map fun call => (call, Device.writeCount b.link)).toArray }

/-- The bench once the worker has been joined and both channels have been reset. -/
def quenched (b : Bench σ) : Bench σ :=
  { b with
    queue.running := false
    queue.workerStarted := false
    link := (Engine.reset.run Device.answer b.link).2 }

/-- The bench once the buffers that wait have been thrown away. -/
def emptied (b : Bench σ) : Bench σ :=
  { b with queue.buffers := [], queue.pending := b.queue.pending - b.queue.buffers.length }

/-- The bench once the hardware has been reset and the buffers that wait have been thrown away. -/
def cleared (b : Bench σ) : Bench σ := (b.quenched.requested ResetLine.pulse).emptied

/-- The bench once the engine has taken a read length and gone through its start. -/
def engaged (b : Bench σ) (configured : Engine) : Bench σ :=
  { b with
    queue.engine := configured
    link := (configured.start.run Device.answer b.link).2 }

end Bench

/-- A probe that has taken one more request refuses the later ones as before. -/
theorem refuses_requested_singleton (b : Bench σ) (call : ResetLine.Call) (i : Nat) :
    (b.requested [call]).line.Refuses i ↔ b.line.Refuses (i + 1) := by
  have hsize : (b.requested [call]).line.calls.size + i = b.line.calls.size + (i + 1) := by
    simp only [Bench.requested, List.map_cons, List.map_nil, Array.size_append, List.size_toArray,
      List.length_singleton]
    omega
  rw [ResetLine.Probe.Refuses, hsize]
  rfl

theorem requested_cons (b : Bench σ) (call : ResetLine.Call) (calls : List ResetLine.Call) :
    (b.requested [call]).requested calls = b.requested (call :: calls) := by
  simp [Bench.requested]

/-- A request is recorded, whether it is refused or not. -/
theorem call_eq (p : ResetLine.Probe) (call : ResetLine.Call) (writes : Nat) :
    p.call call writes = (if p.Refuses 0 then .error (.gpio (.refused p.calls.size)) else .ok (),
      { p with calls := p.calls ++ #[(call, writes)] }) := by
  have hrefuses : p.Refuses 0 ↔ p.calls.size ∈ p.refusals := Iff.rfl
  simp only [ResetLine.Probe.call, hrefuses, Array.push_eq_append]
  split <;> rfl

/-- A line that refuses a request has counted it. -/
theorem answer_line_of_refuses {b : Bench σ} (hrefuses : b.line.Refuses 0) (call : ResetLine.Call) :
    Bench.answer (.line call) b =
      (.error (.gpio (.refused b.line.calls.size)), b.requested [call]) := by
  simp only [Bench.answer, call_eq, if_pos hrefuses]
  rfl

/-- A line that does not refuse a request grants it. -/
theorem answer_line_of_not_refuses {b : Bench σ} (haccepts : ¬b.line.Refuses 0)
    (call : ResetLine.Call) : Bench.answer (.line call) b = (.ok (), b.requested [call]) := by
  simp only [Bench.answer, call_eq, if_neg haccepts]
  rfl

/-- Requests are made as far as the first that is refused. -/
theorem comes_callLine (calls : List ResetLine.Call) (b : Bench σ) :
    (∃ i < calls.length, b.line.RefusesFirst i ∧
      (callLine calls).Comes b ((calls.take (i + 1)).map .request)
        (.error (.gpio (.refused (b.line.calls.size + i)))) (b.requested (calls.take (i + 1)))) ∨
    (∀ i < calls.length, ¬b.line.Refuses i) ∧
      (callLine calls).Comes b (calls.map .request) (.ok ()) (b.requested calls) := by
  induction calls generalizing b with
  | nil =>
    have hnone : b.requested [] = b := by simp [Bench.requested]
    exact .inr ⟨nofun, by rw [hnone]; exact comes_ret _ b⟩
  | cons call rest ih =>
    by_cases hrefused : b.line.Refuses 0
    · refine .inl ⟨0, Nat.succ_pos _, ⟨hrefused, nofun⟩, ?_⟩
      apply Comes.access (a := .line call) (m := [])
      rw [answer_line_of_refuses hrefused]
      exact comes_ret _ _
    · have hfirst {made result after}
          (hrest : (callLine rest).Comes (b.requested [call]) made result after) :
          (callLine (call :: rest)).Comes b (.request call :: made) result after := by
        apply Comes.access (a := .line call)
        rw [answer_line_of_not_refuses hrefused]
        exact hrest
      have haccepted {i : Nat} (hrest : ∀ j < i, ¬(b.requested [call]).line.Refuses j) :
          ∀ j < i + 1, ¬b.line.Refuses j := by
        rintro (_ | j) hj
        · exact hrefused
        · rw [← refuses_requested_singleton]
          exact hrest j (Nat.lt_of_succ_lt_succ hj)
      rcases ih (b.requested [call]) with ⟨i, hi, ⟨hrefuses, hbefore⟩, hrest⟩ | ⟨hall, hrest⟩
      · have hsize : (b.requested [call]).line.calls.size + i = b.line.calls.size + (i + 1) := by
          simp only [Bench.requested, List.map_cons, List.map_nil, Array.size_append,
            List.size_toArray, List.length_singleton]
          omega
        rw [hsize, requested_cons] at hrest
        exact .inl ⟨i + 1, Nat.succ_lt_succ hi,
          ⟨(refuses_requested_singleton b call i).1 hrefuses, haccepted hbefore⟩, hfirst hrest⟩
      · rw [requested_cons] at hrest
        exact .inr ⟨haccepted hall, hfirst hrest⟩

omit [Device σ] in
theorem emptied_of_nil {b : Bench σ} (hbuffers : b.queue.buffers = []) : b.emptied = b := by
  obtain ⟨⟨engine, buffers⟩, link, line⟩ := b
  cases hbuffers
  rfl

/-- More takes than there are buffers throw all that wait away, unseen by the hardware. -/
theorem comes_discard {bound : Nat} {b : Bench σ} (hbound : b.queue.buffers.length < bound) :
    (discard bound).Comes b [] () b.emptied := by
  induction bound generalizing b with
  | zero => exact absurd hbound (Nat.not_lt_zero _)
  | succ bound ih =>
    cases hbuffers : b.queue.buffers with
    | nil =>
      have hleft : ({ b with queue.buffers := [] } : Bench σ) = b := by rw [← hbuffers]
      apply Comes.access (a := .take) (m := [])
      rw [answer_take, hbuffers, emptied_of_nil hbuffers]
      change (ret () : Proc io Unit).Comes { b with queue.buffers := [] } [] () b
      rw [hleft]
      exact comes_ret _ _
    | cons buffer rest =>
      let left : Bench σ :=
        { b with queue.buffers := rest, queue.pending := b.queue.pending - 1 }
      have hemptied : left.emptied = b.emptied := by
        simp only [left, Bench.emptied, hbuffers, List.length_cons, Nat.sub_sub, Nat.add_comm 1]
      rw [hbuffers] at hbound
      have hrest : (discard bound).Comes left [] () left.emptied :=
        ih (Nat.lt_of_succ_lt_succ hbound)
      apply Comes.access (a := .take) (m := [])
      rw [answer_take, hbuffers, ← hemptied]
      exact Comes.access (a := .uncountPending) (m := []) hrest

/-- The stages that a start may end at, each with what the hardware has seen of it, what is returned
    and what is left. -/
inductive Starts (b : Bench σ) (readLength : Nat) :
    List Signal → Except LinkError Unit → Bench σ → Prop where
  /-- A request to the reset line is refused. -/
  | refused {i : Nat} (hi : i < ResetLine.pulse.length) (hfirst : b.line.RefusesFirst i) :
      Starts b readLength
        ((Engine.reset.writes b.link).map .write ++ (ResetLine.pulse.take (i + 1)).map .request)
        (.error (.gpio (.refused (b.line.calls.size + i))))
        (b.quenched.requested (ResetLine.pulse.take (i + 1)))
  /-- The engine does not take the read length. -/
  | rejected (hpulsed : ∀ i < ResetLine.pulse.length, ¬b.line.Refuses i) {cause : LinkError}
      (hconfigure : b.queue.engine.configure readLength = .error cause) :
      Starts b readLength
        ((Engine.reset.writes b.link).map .write ++ ResetLine.pulse.map .request)
        (.error cause) b.cleared
  /-- The tag word of the engine is not sent. -/
  | unanswered (hpulsed : ∀ i < ResetLine.pulse.length, ¬b.line.Refuses i) {configured : Engine}
      (hconfigure : b.queue.engine.configure readLength = .ok configured) {cause : LinkError}
      (hstart : (configured.start.run Device.answer b.cleared.link).1 = .error cause) :
      Starts b readLength
        ((Engine.reset.writes b.link).map .write ++ ResetLine.pulse.map .request ++
          (configured.start.writes b.cleared.link).map .write)
        (.error cause) (b.cleared.engaged configured)
  /-- There is a worker again. -/
  | started (hpulsed : ∀ i < ResetLine.pulse.length, ¬b.line.Refuses i) {configured : Engine}
      (hconfigure : b.queue.engine.configure readLength = .ok configured)
      (hstart : (configured.start.run Device.answer b.cleared.link).1 = .ok ()) :
      Starts b readLength
        ((Engine.reset.writes b.link).map .write ++ ResetLine.pulse.map .request ++
          (configured.start.writes b.cleared.link).map .write)
        (.ok ())
        { b.cleared.engaged configured with
          queue.running := true, queue.workerStarted := true }

/-- The worker is joined, the hardware is reset, and then it goes on with what that came to. -/
theorem comes_join_reset {b : Bench σ} {requests made : List Signal}
    {pulsed result : Except LinkError Unit} {after after' : Bench σ}
    {f : Except LinkError Unit → Proc io (Except LinkError Unit)}
    (hcall : (callLine ResetLine.pulse).Comes b.quenched requests pulsed after)
    (hrest : (f pulsed).Comes after made result after') :
    (join >>= fun _ => reset >>= f).Comes b
      ((Engine.reset.writes b.link).map .write ++ requests ++ made) result after' := by
  let joined : Bench σ := { b with queue.running := false, queue.workerStarted := false }
  have hjoin : join.Comes b [] () joined := ⟨rfl, rfl⟩
  have hreset : reset.Comes joined ((Engine.reset.writes b.link).map .write ++ requests) pulsed
      after := (comes_onLink Engine.reset joined).bind hcall
  exact hjoin.bind (hreset.bind hrest)

/-- A read length that the engine takes has it started. -/
theorem comes_initialiseEngine {b : Bench σ} {readLength : Nat} {configured : Engine}
    (hconfigure : b.queue.engine.configure readLength = .ok configured) :
    (initialiseEngine readLength).Comes b ((configured.start.writes b.link).map .write)
      (configured.start.run Device.answer b.link).1 (b.engaged configured) := by
  apply Comes.access (a := .engine) (m := (configured.start.writes b.link).map .write)
  have hanswer : (Bench.answer .engine b).1.configure readLength = .ok configured := hconfigure
  rw [hanswer]
  exact Comes.access (a := .setEngine configured) (comes_onLink _ _)

/-- A read length that is not taken leaves the engine and the link alone. -/
theorem comes_initialiseEngine_of_error {b : Bench σ} {readLength : Nat} {cause : LinkError}
    (hconfigure : b.queue.engine.configure readLength = .error cause) :
    (initialiseEngine readLength).Comes b [] (.error cause) b := by
  apply Comes.access (a := .engine) (m := [])
  have hanswer : (Bench.answer .engine b).1.configure readLength = .error cause := hconfigure
  rw [hanswer]
  exact comes_ret _ _

/-- A start goes through its stages in order, as far as the first that fails. -/
theorem exists_comes_start {b : Bench σ} {bound : Nat} (hbound : b.queue.buffers.length < bound)
    (readLength : Nat) :
    ∃ made result after, (start bound readLength).Comes b made result after ∧
      Starts b readLength made result after := by
  rcases comes_callLine ResetLine.pulse b.quenched with ⟨i, hi, hfirst, hcall⟩ | ⟨hpulsed, hcall⟩
  · refine ⟨_, _, _, ?_, .refused hi hfirst⟩
    exact (comes_join_reset hcall ⟨rfl, rfl⟩).of_made_eq (List.append_nil _)
  have hpulsed : ∀ i < ResetLine.pulse.length, ¬b.line.Refuses i := hpulsed
  have hdiscard : (discard bound).Comes (b.quenched.requested ResetLine.pulse) [] () b.cleared :=
    comes_discard hbound
  cases hconfigure : b.queue.engine.configure readLength with
  | error cause =>
    have hinitialise := comes_initialiseEngine_of_error (b := b.cleared) hconfigure
    refine ⟨_, _, _, ?_, .rejected hpulsed hconfigure⟩
    exact (comes_join_reset hcall (hdiscard.bind (hinitialise.bind ⟨rfl, rfl⟩))).of_made_eq
      (List.append_nil _)
  | ok configured =>
    have hinitialise := comes_initialiseEngine (b := b.cleared) hconfigure
    cases hstarted : (configured.start.run Device.answer b.cleared.link).1 with
    | error cause =>
      rw [hstarted] at hinitialise
      refine ⟨_, _, _, ?_, .unanswered hpulsed hconfigure hstarted⟩
      exact (comes_join_reset hcall (hdiscard.bind (hinitialise.bind ⟨rfl, rfl⟩))).of_made_eq
        (congrArg _ (List.append_nil _))
    | ok _ =>
      rw [hstarted] at hinitialise
      refine ⟨_, _, _, ?_, .started hpulsed hconfigure hstarted⟩
      exact (comes_join_reset hcall (hdiscard.bind (hinitialise.bind
        (.access (a := .setRunning true) (.access (a := .startWorker) ⟨rfl, rfl⟩))))).of_made_eq
          (congrArg _ (List.append_nil _))

namespace Starts

variable {b after : Bench σ} {readLength : Nat} {made : List Signal}
  {result : Except LinkError Unit}

/-- A start loses no buffer that was counted as dropped, and records no error. -/
theorem dropped_eq (hstarts : Starts b readLength made result after) :
    after.queue.dropped = b.queue.dropped ∧ after.queue.lastError = b.queue.lastError := by
  cases hstarts <;> exact ⟨rfl, rfl⟩

/-- A start has its engine take the read length or leaves it as it was. -/
theorem engine_eq (hstarts : Starts b readLength made result after) :
    after.queue.engine = b.queue.engine ∨
      b.queue.engine.configure readLength = .ok after.queue.engine := by
  cases hstarts with
  | refused | rejected => exact .inl rfl
  | unanswered _ hconfigure _ => exact .inr hconfigure
  | started _ hconfigure _ => exact .inr hconfigure

/-- What waits is thrown away once the reset line has been pulsed, whatever becomes of the
    engine. -/
theorem buffers_of_pulsed (hstarts : Starts b readLength made result after)
    (hpulsed : ∀ i < ResetLine.pulse.length, ¬b.line.Refuses i) :
    after.queue.buffers = [] ∧
      after.queue.pending = b.queue.pending - b.queue.buffers.length := by
  cases hstarts with
  | refused hi hfirst => exact absurd hfirst.1 (hpulsed _ hi)
  | _ => exact ⟨rfl, rfl⟩

/-- A start succeeds if each of its stages does. -/
theorem eq_ok_iff (hstarts : Starts b readLength made result after) :
    result = .ok () ↔ (∀ i < ResetLine.pulse.length, ¬b.line.Refuses i) ∧
      ∃ configured, b.queue.engine.configure readLength = .ok configured ∧
        (configured.start.run Device.answer b.cleared.link).1 = .ok () := by
  cases hstarts with
  | refused hi hfirst => exact ⟨nofun, fun ⟨hpulsed, _⟩ => absurd hfirst.1 (hpulsed _ hi)⟩
  | rejected _ hconfigure =>
    refine ⟨nofun, fun ⟨_, configured, hconfigured, _⟩ => ?_⟩
    rw [hconfigure] at hconfigured
    exact nomatch hconfigured
  | unanswered _ hconfigure hstart =>
    refine ⟨nofun, fun ⟨_, configured, hconfigured, hstarted⟩ => ?_⟩
    obtain rfl := Except.ok.inj (hconfigure.symm.trans hconfigured)
    rw [hstart] at hstarted
    exact nomatch hstarted
  | started hpulsed hconfigure hstart =>
    exact ⟨fun _ => ⟨hpulsed, _, hconfigure, hstart⟩, fun _ => rfl⟩

/-- The queue runs after a start exactly if it has succeeded. -/
theorem running_iff (hstarts : Starts b readLength made result after) :
    after.queue.running = true ↔ result = .ok () := by
  cases hstarts with
  | started _ _ _ => exact ⟨fun _ => rfl, fun _ => rfl⟩
  | _ => exact ⟨nofun, nofun⟩

/-- The queue runs with nothing waiting once a start has succeeded. -/
theorem running_of_ok (hstarts : Starts b readLength made (.ok ()) after) :
    after.queue.running = true ∧ after.queue.workerStarted = true ∧ after.queue.buffers = [] ∧
      after.queue.pending = b.queue.pending - b.queue.buffers.length ∧
      ∃ configured, b.queue.engine.configure readLength = .ok configured ∧
        made = (Engine.reset.writes b.link).map .write ++ ResetLine.pulse.map .request ++
          (configured.start.writes b.cleared.link).map .write := by
  cases hstarts with
  | started _ hconfigure _ => exact ⟨rfl, rfl, rfl, rfl, _, hconfigure, rfl⟩

/-- The queue does not run if a start has failed. What waits is kept if it failed before the engine
    was reached, and nothing is done after the stage that failed. -/
theorem stopped_of_error {cause : LinkError}
    (hstarts : Starts b readLength made (.error cause) after) :
    after.queue.running = false ∧ after.queue.workerStarted = false ∧
      ((∃ i < ResetLine.pulse.length, b.line.RefusesFirst i ∧
          cause = .gpio (.refused (b.line.calls.size + i)) ∧
          after.queue.buffers = b.queue.buffers ∧ after.queue.pending = b.queue.pending ∧
          made = (Engine.reset.writes b.link).map .write ++
            (ResetLine.pulse.take (i + 1)).map .request) ∨
        (∀ i < ResetLine.pulse.length, ¬b.line.Refuses i) ∧ after.queue.buffers = [] ∧
          after.queue.pending = b.queue.pending - b.queue.buffers.length ∧
          (b.queue.engine.configure readLength = .error cause ∧
              made = (Engine.reset.writes b.link).map .write ++ ResetLine.pulse.map .request ∨
            ∃ configured, b.queue.engine.configure readLength = .ok configured ∧
              (configured.start.run Device.answer b.cleared.link).1 = .error cause ∧
              made = (Engine.reset.writes b.link).map .write ++ ResetLine.pulse.map .request ++
                (configured.start.writes b.cleared.link).map .write)) := by
  cases hstarts with
  | refused hi hfirst => exact ⟨rfl, rfl, .inl ⟨_, hi, hfirst, rfl, rfl, rfl, rfl⟩⟩
  | rejected hpulsed hconfigure =>
    exact ⟨rfl, rfl, .inr ⟨hpulsed, rfl, rfl, .inl ⟨hconfigure, rfl⟩⟩⟩
  | unanswered hpulsed hconfigure hstart =>
    exact ⟨rfl, rfl, .inr ⟨hpulsed, rfl, rfl, .inr ⟨_, hconfigure, hstart, rfl⟩⟩⟩

end Starts

/-- An initialisation is a start that holds the lock. -/
theorem exists_comes_initialise (b : Bench σ) (readLength : Nat) :
    ∃ made result after,
      (initialise b.takeBound readLength).Comes b made result
        { after with queue.locked := false } ∧
      Starts { b with queue.locked := true } readLength made result after := by
  obtain ⟨made, result, after, hstart, hstarts⟩ :=
    exists_comes_start (b := { b with queue.locked := true }) (Nat.lt_succ_self _) readLength
  refine ⟨made, result, after, ?_, hstarts⟩
  have hall := hstart.bind (f := fun result => do
    access .unlock
    return result) (.access (a := .unlock) ⟨rfl, rfl⟩)
  exact (Comes.access (a := .lock) hall).of_made_eq (List.append_nil _)

/-- An initialisation resets the channels, pulses the reset line and starts the engine, and only if
    all of it succeeds does the queue run. Otherwise it returns the error of the first stage that
    failed. What waits is kept if a request to the line was refused and is thrown away if the engine
    failed, and nothing is written after a stage that failed. Of a simulated device that is stalled
    and released meanwhile, the tag word is sent exactly if the device is not stalled when the
    length of the burst is written. -/
theorem Bench.initialise_stages {mode : SyncMode} {burstWords : Nat} {e : Engine}
    {κ : Type} [Device κ] {b : Bench Loopback.Stalling}
    (hcreate : Engine.create mode (b.link.device.geometry burstWords) = .ok e) (link : κ)
    (operations : List Engine.Operation)
    (hengine : b.queue.engine = (Session.performAll ⟨e, link⟩ operations).2.engine)
    (hsettled : b.queue.pending = b.queue.buffers.length) (readLength : Nat) :
    let reset := (Engine.reset.run Device.answer b.link).2
    let resets : List Signal := [.write ⟨Channel.s2mm.control, Control.reset⟩,
      .write ⟨Channel.mm2s.control, Control.reset⟩]
    let pulse : List Signal := [.request (.direction .output), .request (.value 1),
      .request (.value 0)]
    let made := (Queue.initialise b.takeBound readLength).signals b
    let result := (b.initialise readLength).1
    let after := (b.initialise readLength).2.queue
    (result = .ok () ↔ (∀ i < 3, ¬b.line.Refuses i) ∧
      ∃ configured, b.queue.engine.configure readLength = .ok configured ∧
        (configured.start.run Device.answer reset).1 = .ok ()) ∧
    (result = .ok () → after.running = true ∧ after.workerStarted = true ∧ after.buffers = [] ∧
      after.pending = 0 ∧ ∃ configured, b.queue.engine.configure readLength = .ok configured ∧
        made = resets ++ pulse ++ (configured.start.writes reset).map .write) ∧
    (∀ cause, result = .error cause → after.running = false ∧ after.workerStarted = false ∧
      ((∃ i < 3, b.line.Refuses i ∧ (∀ j < i, ¬b.line.Refuses j) ∧
          cause = .gpio (.refused (b.line.calls.size + i)) ∧
          after.buffers = b.queue.buffers ∧ after.pending = b.queue.pending ∧
          made = resets ++ pulse.take (i + 1)) ∨
        (∀ i < 3, ¬b.line.Refuses i) ∧ after.buffers = [] ∧ after.pending = 0 ∧
          (b.queue.engine.configure readLength = .error cause ∧ made = resets ++ pulse ∨
            ∃ configured, b.queue.engine.configure readLength = .ok configured ∧
              (configured.start.run Device.answer reset).1 = .error cause ∧
              made = resets ++ pulse ++ (configured.start.writes reset).map .write))) ∧
    after.dropped = b.queue.dropped ∧ after.lastError = b.queue.lastError ∧
    ((mode = .interrupt →
        ∃ returned, (b.link.device.port .mm2s).line = some ⟨[], returned, .listening⟩) →
      ∀ configured, b.queue.engine.configure readLength = .ok configured → ∃ launched,
        (configured.start.trace reset)[4]? =
            some ⟨.writeRegister Channel.mm2s.length 8, launched⟩ ∧
          (configured.start.run Device.answer reset).1 =
            if launched.device.stalled then .error (.channelTimeout .mm2s configured.limit)
            else .ok ()) := by
  intro reset resets pulse made result after
  obtain ⟨made', result', after', ⟨hrun, hmade⟩, hstarts⟩ := exists_comes_initialise b readLength
  have hresult : result = result' := congrArg Prod.fst hrun
  have hafter : after = { after'.queue with locked := false } :=
    congrArg (fun out => out.2.queue) hrun
  have hnone : b.queue.pending - b.queue.buffers.length = 0 := by omega
  rw [hresult, hafter, show made = made' from hmade]
  refine ⟨hstarts.eq_ok_iff, ?_, ?_, hstarts.dropped_eq.1, hstarts.dropped_eq.2, ?_⟩
  · rintro rfl
    obtain ⟨hrunning, hworker, hbuffers, hpending, hmade'⟩ := hstarts.running_of_ok
    exact ⟨hrunning, hworker, hbuffers, hpending.trans hnone, hmade'⟩
  · rintro cause rfl
    obtain ⟨hrunning, hworker, hstages⟩ := hstarts.stopped_of_error
    refine ⟨hrunning, hworker, ?_⟩
    obtain ⟨i, hi, ⟨hrefused, hbefore⟩, hcause, hbuffers, hpending, rfl⟩ |
      ⟨hpulsed, hbuffers, hpending, hfailed⟩ := hstages
    · refine .inl ⟨i, hi, hrefused, hbefore, hcause, hbuffers, hpending, ?_⟩
      rw [List.map_take]
      rfl
    · exact .inr ⟨hpulsed, hbuffers, hpending.trans hnone, hfailed⟩
  · intro hline configured hconfigure
    obtain ⟨haccepted, hmode, hburst⟩ : b.queue.engine.Created mode
        (b.link.device.geometry burstWords) :=
      hengine ▸ Session.created_performAll (s := ⟨e, link⟩) (Engine.created_create hcreate)
        operations
    obtain ⟨-, -, -, hconfigured⟩ := Engine.configure_eq_ok hconfigure
    have hmode' : configured.mode = mode := by rw [hconfigured]; exact hmode
    have hburst' : configured.burstWords = burstWords := by rw [hconfigured]; exact hburst
    apply Loopback.Stalling.exists_launched_start
    · rw [hburst', Loopback.Stalling.geometry_run]
      exact haccepted.configure hconfigure
    · rw [hmode']
      exact Loopback.Stalling.silent_reset hline

/-- A device that is stalled right after the second reset keeps the tag word of the engine from
    being sent. -/
theorem Bench.initialise_stages_stalled :
    ∃ (e : Engine) (b : Bench Loopback.Stalling),
      b.link = ⟨Loopback.create 6 256 none, [[], [true]]⟩ ∧
      Engine.create .poll (b.link.device.geometry 2) = .ok e ∧
      b.queue.engine = (Session.performAll ⟨e, b.link⟩ []).2.engine ∧
      b.queue.buffers = [[1], [2]] ∧ b.queue.pending = b.queue.buffers.length ∧
      (b.initialise 1024).1 = .error (.channelTimeout .mm2s e.limit) ∧
      (b.initialise 1024).2.queue.running = false ∧ (b.initialise 1024).2.queue.dropped = 0 := by
  let e : Engine := ⟨.poll, ⟨6, Loopback.sourceBase, 3⟩, ⟨256, Loopback.destinationBase, 32⟩,
    Engine.limitOf defaultTimeout, 256, 2⟩
  let b : Bench Loopback.Stalling :=
    ⟨{ engine := e, buffers := [[1], [2]], pending := 2 },
      ⟨Loopback.create 6 256 none, [[], [true]]⟩, {}⟩
  have hcreate := Engine.create_small .poll
  rw [← Engine.geometry_create 6 256 2 none] at hcreate
  have hanswer : Engine.Answer.ofResult (b.initialise 1024).1 =
      .failed (.channelTimeout .mm2s e.limit) := by decide +kernel
  have hresult : (b.initialise 1024).1 = .error (.channelTimeout .mm2s e.limit) := by
    generalize (b.initialise 1024).1 = result at hanswer ⊢
    cases result with
    | error cause => exact congrArg _ (Engine.Answer.failed.inj hanswer)
    | ok _ => exact nomatch hanswer
  obtain ⟨-, -, hfailed, hdropped, -, -⟩ :=
    initialise_stages (b := b) hcreate b.link [] rfl rfl 1024
  exact ⟨e, b, rfl, hcreate, rfl, rfl, rfl, hresult, (hfailed _ hresult).1, hdropped⟩

end Queue

end DmaLink
