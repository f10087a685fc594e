import DmaLink.Proofs.Engine.Copies
import DmaLink.Proofs.Queue.Starting

namespace DmaLink.Queue

open Proc Engine

section Restarting

variable {σ : Type} [Device σ] {b : Bench σ}

/-- The bench once both channels have been halted and the worker has been joined. -/
def Bench.stilled (b : Bench σ) : Bench σ :=
  { b with
    queue.running := false
    queue.workerStarted := false
    link := (Engine.halt.run Device.answer b.link).2 }

/-- A halt with the worker joined writes to both channels and leaves the queue still. -/
theorem comes_haltAndJoin (b : Bench σ) :
    haltAndJoin.Comes b ((Engine.halt.writes b.link).map .write) () b.stilled := by
  have hjoin {b : Bench σ} : join.Comes b [] ()
      { b with queue.running := false, queue.workerStarted := false } := ⟨rfl, rfl⟩
  exact ((comes_halt b).bind hjoin).of_made_eq (List.append_nil _)

/-- A recovery of a running queue that nobody stopped halts it and starts it again with its own read
    length, whatever comes of the start. -/
theorem exists_comes_recover {bound : Nat} (hrunning : b.queue.running = true)
    (hbound : b.queue.buffers.length < bound) :
    ∃ made result after,
      (recover bound b.queue.stops).Comes b ((Engine.halt.writes b.link).map .write ++ made) ()
        { after with queue.locked := false } ∧
      Starts { b.stilled with queue.locked := true } b.queue.engine.readLength made result
        after := by
  let taken : Bench σ := { b with queue.locked := true }
  obtain ⟨made, result, after, hstart, hstarts⟩ :=
    exists_comes_start (b := taken.stilled) hbound b.queue.engine.readLength
  refine ⟨made, result, after, ?_, hstarts⟩
  have hunlock : (access .unlock).Comes after [] () { after with queue.locked := false } :=
    ⟨rfl, rfl⟩
  have hrestart : (haltAndJoin >>= fun _ => start bound b.queue.engine.readLength >>= fun _ =>
      access .unlock).Comes taken _ () _ := (comes_haltAndJoin taken).bind (hstart.bind hunlock)
  rw [List.append_nil] at hrestart
  let all : List Signal := (Engine.halt.writes b.link).map .write ++ made
  apply Comes.access (a := .lock) (m := all)
  apply Comes.access (a := .stops) (m := all)
  refine Comes.ite_neg (not_not_intro rfl) ?_
  apply Comes.access (a := .running) (m := all)
  exact Comes.ite_pos hrunning (Comes.access (a := .engine) hrestart)

/-- A queue that does not run is not read from. -/
theorem comes_readLayer_of_stopped (hstopped : b.queue.running = false) (chunks bound : Nat)
    (buffer : List UInt64) :
    (readLayer chunks bound buffer).Comes b [] ⟨buffer, .failed .notRunning⟩ b := by
  apply Comes.access (a := .running) (m := [])
  exact Comes.ite_neg (Bool.eq_false_iff.1 hstopped) (comes_ret _ b)

/-- The bench once its engine has received a layer. -/
def Bench.received (b : Bench σ) (chunks : Nat) : Bench σ :=
  { b with link := ((b.queue.engine.receive chunks []).run Device.answer b.link).2 }

/-- What a queue does with the layer that its engine received. -/
def afterReceiving (bound stopsBefore : Nat) (reception : Reception) : Proc io Reception :=
  match reception.ending with
  | .failed cause =>
    if cause.isTimeout then do
      recover bound stopsBefore
      return reception
    else return reception
  | _ => return reception

/-- A read that times out recovers before it returns. -/
theorem afterReceiving_of_timedOut {reception : Reception} (htimedOut : reception.timedOut = true)
    (bound stopsBefore : Nat) : afterReceiving bound stopsBefore reception =
      (recover bound stopsBefore >>= fun _ => .ret reception) := by
  obtain ⟨words, bytes | cause | -⟩ := reception
  · exact nomatch htimedOut
  · exact if_pos htimedOut
  · exact nomatch htimedOut

/-- A read that ends in any other way returns at once. -/
theorem afterReceiving_of_not_timedOut {reception : Reception}
    (hother : reception.timedOut = false) (bound stopsBefore : Nat) :
    afterReceiving bound stopsBefore reception = .ret reception := by
  obtain ⟨words, bytes | cause | -⟩ := reception
  · rfl
  · exact if_neg (Bool.eq_false_iff.1 hother)
  · rfl

/-- A queue that runs has its engine receive a layer. -/
theorem comes_readLayer {made : List Signal} {result : Reception} {after : Bench σ}
    {chunks bound : Nat} (hrunning : b.queue.running = true) (buffer : List UInt64)
    (hrest : (afterReceiving bound b.queue.stops
      ((b.queue.engine.receive chunks []).run Device.answer b.link).1).Comes
        (b.received chunks) made result after) :
    (readLayer chunks bound buffer).Comes b
      (((b.queue.engine.receive chunks []).writes b.link).map .write ++ made) result after := by
  let all : List Signal := ((b.queue.engine.receive chunks []).writes b.link).map .write ++ made
  apply Comes.access (a := .running) (m := all)
  refine Comes.ite_pos hrunning ?_
  apply Comes.access (a := .stops) (m := all)
  apply Comes.access (a := .engine) (m := all)
  exact (comes_onLink (b.queue.engine.receive chunks []) b).bind hrest

end Restarting

/-- An engine that takes its own read length again stays as it is. -/
theorem eq_of_configure_readLength {g : Geometry} {e e' : Engine} (haccepted : e.Accepted g)
    (hconfigure : e.configure e.readLength = .ok e') : e' = e := by
  obtain ⟨-, -, hfit, he'⟩ := configure_eq_ok hconfigure
  obtain ⟨-, -, -, hdestination⟩ := Split.fit_eq_ok_iff.1 hfit
  have hhalf : e.readLength / wordBytes = e.destination.halfWords := by
    rw [← haccepted.chunk]
    exact Nat.mul_div_cancel _ (by decide)
  rw [he', hdestination, hhalf]

namespace Starts

variable {σ : Type} [Device σ] {b after : Bench σ} {made : List Signal}
  {result : Except LinkError Unit} {g : Geometry}

/-- The queue runs after a start with its own read length exactly if every stage succeeded. -/
theorem running_iff_of_accepted (hstarts : Starts b b.queue.engine.readLength made result after)
    (haccepted : b.queue.engine.Accepted g) :
    after.queue.running = true ↔ (∀ i < ResetLine.pulse.length, ¬b.line.Refuses i) ∧
      b.queue.engine.configure b.queue.engine.readLength = .ok b.queue.engine ∧
        (b.queue.engine.start.run Device.answer b.cleared.link).1 = .ok () := by
  refine hstarts.running_iff.trans (hstarts.eq_ok_iff.trans ⟨?_, ?_⟩)
  · rintro ⟨hpulsed, configured, hconfigure, hstart⟩
    obtain rfl := eq_of_configure_readLength haccepted hconfigure
    exact ⟨hpulsed, hconfigure, hstart⟩
  · rintro ⟨hpulsed, hconfigure, hstart⟩
    exact ⟨hpulsed, _, hconfigure, hstart⟩

/-- Where a start with the engine's own read length ends, and what is counted as waiting then. -/
theorem stages_of_accepted (hstarts : Starts b b.queue.engine.readLength made result after)
    (haccepted : b.queue.engine.Accepted g)
    (hsettled : b.queue.pending = b.queue.buffers.length) :
    let resets : List Signal := (Engine.reset.writes b.link).map .write
    (∃ i < ResetLine.pulse.length, b.line.RefusesFirst i ∧
        made = resets ++ (ResetLine.pulse.map .request).take (i + 1) ∧
        after.queue.pending = b.queue.pending) ∨
      (∀ i < ResetLine.pulse.length, ¬b.line.Refuses i) ∧ after.queue.pending = 0 ∧
        ((∃ cause, b.queue.engine.configure b.queue.engine.readLength = .error cause) ∧
            made = resets ++ ResetLine.pulse.map .request ∨
          b.queue.engine.configure b.queue.engine.readLength = .ok b.queue.engine ∧
            made = resets ++ ResetLine.pulse.map .request ++
              (b.queue.engine.start.writes b.cleared.link).map .write) := by
  have hnone : b.queue.pending - b.queue.buffers.length = 0 := by omega
  cases hstarts with
  | @refused i hi hfirst => exact .inl ⟨i, hi, hfirst, by rw [List.map_take], rfl⟩
  | rejected hpulsed hconfigure => exact .inr ⟨hpulsed, hnone, .inl ⟨⟨_, hconfigure⟩, rfl⟩⟩
  | unanswered hpulsed hconfigure _ | started hpulsed hconfigure _ =>
    obtain rfl := eq_of_configure_readLength haccepted hconfigure
    exact .inr ⟨hpulsed, hnone, .inr ⟨hconfigure, rfl⟩⟩

end Starts

/-- A read of a queue that does not run is refused and does nothing. Otherwise the engine's own
    reception is returned: chunks of the read length, copied whole, up to the one that ends the
    layer, or to a time-out of the receiving channel, or to another failure. Unless it timed out,
    that is all. After a time-out both channels are halted, and then the queue is started again with
    the read length it had: both channels are reset, the reset line is pulsed, and the engine is
    started, as far as the first that fails. The queue runs afterwards exactly if none of them
    does. -/
theorem Bench.read_recovers {mode : SyncMode} {burstWords : Nat} {e : Engine} {κ : Type}
    [Device κ] {b : Bench Loopback}
    (hcreate : Engine.create mode (b.link.geometry burstWords) = .ok e) (link : κ)
    (operations : List Engine.Operation)
    (hengine : b.queue.engine = (Session.performAll ⟨e, link⟩ operations).2.engine)
    (hsettled : b.queue.pending = b.queue.buffers.length) (buffer : List UInt64) :
    let engine := b.queue.engine
    let program := engine.receive (Device.chunkBound b.link) []
    let received := (program.run Device.answer b.link).2
    let reset := (Engine.reset.run Device.answer (Engine.halt.run Device.answer received).2).2
    let halts : List Signal := [.write ⟨Channel.s2mm.control, Control.halt⟩,
      .write ⟨Channel.mm2s.control, Control.halt⟩]
    let resets : List Signal := [.write ⟨Channel.s2mm.control, Control.reset⟩,
      .write ⟨Channel.mm2s.control, Control.reset⟩]
    let pulse : List Signal := [.request (.direction .output), .request (.value 1),
      .request (.value 0)]
    let made := (readLayer (Device.chunkBound b.link) b.takeBound buffer).signals b
    let reading : List Signal := (program.writes b.link).map .write
    let reception := (b.read buffer).1
    let after := (b.read buffer).2
    (b.queue.running = false →
      reception = ⟨buffer, .failed .notRunning⟩ ∧ after = b ∧ made = []) ∧
    (b.queue.running = true →
      reception = (program.run Device.answer b.link).1 ∧
      (∃ (taken : List Chunk) (missed : List (Except LinkError (List UInt64))),
        reception.buffer = taken.flatMap Chunk.words ∧
        Trace.loads (program.trace b.link) = taken.flatMap Chunk.loads ++ missed ∧
        (∀ chunk ∈ taken, chunk.words.length = engine.readLength / 8) ∧
        ((∃ before chunk, taken = before ++ [chunk] ∧ (∀ other ∈ before, other.Open) ∧
            ¬chunk.Open ∧ missed = [] ∧
            reception.ending = .complete (8 * reception.buffer.length)) ∨
          (∀ chunk ∈ taken, chunk.Open) ∧ ∃ cause, reception.ending = .failed cause ∧
            (cause.isTimeout = true →
              missed = [] ∧ cause = .channelTimeout .s2mm engine.limit))) ∧
      (reception.timedOut = false → after = { b with link := received } ∧ made = reading) ∧
      (reception.timedOut = true →
        after.queue.engine = engine ∧ after.queue.dropped = b.queue.dropped ∧
        after.queue.lastError = b.queue.lastError ∧
        (after.queue.running = true ↔ (∀ i < 3, ¬b.line.Refuses i) ∧
          engine.configure engine.readLength = .ok engine ∧
          (engine.start.run Device.answer reset).1 = .ok ()) ∧
        ((∃ i < 3, b.line.Refuses i ∧ (∀ j < i, ¬b.line.Refuses j) ∧
            made = reading ++ halts ++ (resets ++ pulse.take (i + 1)) ∧
            after.queue.pending = b.queue.pending) ∨
          (∀ i < 3, ¬b.line.Refuses i) ∧ after.queue.pending = 0 ∧
            ((∃ cause, engine.configure engine.readLength = .error cause) ∧
                made = reading ++ halts ++ (resets ++ pulse) ∨
              engine.configure engine.readLength = .ok engine ∧
                made = reading ++ halts ++
                  (resets ++ pulse ++ (engine.start.writes reset).map .write))))) := by
  intro engine program received reset halts resets pulse made reading reception after
  obtain ⟨haccepted, -, -⟩ : b.queue.engine.Created mode (b.link.geometry burstWords) :=
    hengine ▸ Session.created_performAll (s := ⟨e, link⟩) (created_create hcreate) operations
  refine ⟨fun hstopped => ?_, fun hrunning => ?_⟩
  · obtain ⟨hrun, hmade⟩ :=
      comes_readLayer_of_stopped hstopped (Device.chunkBound b.link) b.takeBound buffer
    exact ⟨congrArg Prod.fst hrun, congrArg Prod.snd hrun, hmade⟩
  have hcopies := Loopback.exists_copies_receive haccepted b.link
  let r := (program.run Device.answer b.link).1
  have hread {made' : List Signal} {result : Reception} {after' : Bench Loopback}
      (hrest : (afterReceiving b.takeBound b.queue.stops r).Comes
        (b.received (Device.chunkBound b.link)) made' result after') :
      reception = result ∧ after = after' ∧ made = reading ++ made' := by
    obtain ⟨hrun, hmade⟩ := comes_readLayer hrunning buffer hrest
    exact ⟨congrArg Prod.fst hrun, congrArg Prod.snd hrun, hmade⟩
  cases htimedOut : r.timedOut with
  | false =>
    rw [afterReceiving_of_not_timedOut htimedOut] at hread
    obtain ⟨hreception, hafter, hmade⟩ := hread (comes_ret _ _)
    rw [hreception]
    refine ⟨rfl, hcopies, fun _ => ⟨hafter, by rw [hmade, List.append_nil]⟩, fun htimed => ?_⟩
    rw [htimedOut] at htimed
    exact nomatch htimed
  | true =>
    obtain ⟨made', result, after', hrecover, hstarts⟩ := exists_comes_recover
      (b := b.received (Device.chunkBound b.link)) hrunning (Nat.lt_succ_self _)
    rw [afterReceiving_of_timedOut htimedOut] at hread
    obtain ⟨hreception, hafter, hmade⟩ := hread (hrecover.map fun _ => r)
    rw [hreception]
    refine ⟨rfl, hcopies, fun hother => ?_, fun _ => ?_⟩
    · rw [htimedOut] at hother
      exact nomatch hother
    have hall : made = reading ++ halts ++ made' := hmade.trans (List.append_assoc ..).symm
    rw [hafter, hall]
    refine ⟨hstarts.engine_eq.elim id (eq_of_configure_readLength haccepted),
      hstarts.dropped_eq.1, hstarts.dropped_eq.2, hstarts.running_iff_of_accepted haccepted, ?_⟩
    obtain ⟨i, hi, ⟨hrefused, hbefore⟩, rfl, hpending⟩ | ⟨hpulsed, hpending, hengine⟩ :=
      hstarts.stages_of_accepted haccepted hsettled
    · exact .inl ⟨i, hi, hrefused, hbefore, rfl, hpending⟩
    · refine .inr ⟨hpulsed, hpending, ?_⟩
      obtain ⟨hrejected, rfl⟩ | ⟨hconfigure, rfl⟩ := hengine
      · exact .inl ⟨hrejected, rfl⟩
      · exact .inr ⟨hconfigure, rfl⟩

/-- A read that times out behind its first chunk, on a queue whose reset line refuses the last
    request of the new start. -/
theorem Bench.read_recovers_refused :
    ∃ (e : Engine) (b : Bench Loopback),
      Engine.create .poll (b.link.geometry 2) = .ok e ∧
      b.queue.engine =
        (Session.performAll ⟨e, Loopback.create 6 256 none⟩ [.initialise 1024]).2.engine ∧
      b.queue.pending = b.queue.buffers.length ∧ b.queue.running = true ∧
      (b.read [9]).1 = ⟨List.replicate 128 7, .failed (.channelTimeout .s2mm e.limit)⟩ ∧
      (b.read [9]).2.queue.running = false ∧ (b.read [9]).2.queue.dropped = 0 := by
  let e : Engine := ⟨.poll, ⟨6, Loopback.sourceBase, 3⟩, ⟨256, Loopback.destinationBase, 32⟩,
    Engine.limitOf defaultTimeout, 256, 2⟩
  let s := (Session.performAll ⟨e, Loopback.create 6 256 none⟩ [.initialise 1024]).2
  let b : Bench Loopback := ⟨{ engine := s.engine, running := true, workerStarted := true },
    { s.link with stream := .append .empty (List.replicate 130 7) }, { refusals := [2] }⟩
  have hgeometry : b.link.geometry 2 =
      ⟨6, Loopback.sourceBase, 256, Loopback.destinationBase, 2⟩ := by decide +kernel
  have hcreate : Engine.create .poll (b.link.geometry 2) = .ok e :=
    hgeometry ▸ Engine.create_small .poll
  have hengine : b.queue.engine =
      (Session.performAll ⟨e, Loopback.create 6 256 none⟩ [.initialise 1024]).2.engine := by
    decide +kernel
  have hread : (b.read [9]).1 =
      ⟨List.replicate 128 7, .failed (.channelTimeout .s2mm e.limit)⟩ := by decide +kernel
  obtain ⟨-, hrunning⟩ := read_recovers (b := b) hcreate (Loopback.create 6 256 none)
    [.initialise 1024] hengine rfl [9]
  obtain ⟨-, -, -, hrecovers⟩ := hrunning rfl
  rw [hread] at hrecovers
  obtain ⟨-, hdropped, -, hruns, -⟩ := hrecovers rfl
  refine ⟨e, b, hcreate, hengine, rfl, rfl, hread, ?_, hdropped⟩
  rw [Bool.eq_false_iff]
  intro hrun
  exact (hruns.1 hrun).1 2 (by decide) (by decide)

end DmaLink.Queue
