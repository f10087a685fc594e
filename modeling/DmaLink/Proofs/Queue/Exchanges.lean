import DmaLink.Proofs.Engine.Session
import DmaLink.Proofs.Loopback.Signals
import DmaLink.Proofs.Queue.Recovery
import DmaLink.Proofs.Queue.Turns

namespace DmaLink

/-- A reset leaves the windows as they are. -/
theorem Loopback.windows_reset (d : Loopback) :
    (d.run Engine.reset).2.source = d.source ∧
      (d.run Engine.reset).2.destination = d.destination := by
  obtain ⟨-, hagrees⟩ :=
    Loopback.write_reset_mm2s (d := d.write Channel.s2mm.control Control.reset)
  exact ⟨hagrees.source.trans rfl, hagrees.destination.trans rfl⟩

/-- A reset leaves an idle device idle. -/
theorem Loopback.Idle.reset {d : Loopback} {mode : SyncMode} (hidle : d.Idle mode) :
    (d.run Engine.reset).2.Idle mode := by
  obtain ⟨hs2mm, hmm2s, hunarmed⟩ := d.write_reset_s2mm
  obtain ⟨hsent, hagrees⟩ :=
    Loopback.write_reset_mm2s (d := d.write Channel.s2mm.control Control.reset)
  have hreset : (d.run Engine.reset).2 =
      (d.write Channel.s2mm.control Control.reset).write Channel.mm2s.control Control.reset := rfl
  have hports (channel : Channel) :
      (d.run Engine.reset).2.port channel = (d.port channel).powerOn := by
    rw [hreset]
    cases channel with
    | mm2s => rw [hsent, hmm2s]
    | s2mm => rw [hagrees.port .s2mm (by decide), hs2mm]
  have hsilent (channel : Channel) : (d.port channel).powerOn.Silent mode := by
    have hbefore := hidle.silent channel
    cases mode with
    | poll => exact (by decide : Status.isDone Status.halted = false)
    | interrupt => exact hbefore
  refine ⟨?_, ?_, ?_, ?_, fun channel => hports channel ▸ hsilent channel⟩
  · exact hagrees.stalled.trans hidle.flowing
  · exact (congrArg Stream.toList hagrees.stream).trans hidle.empty
  · exact hagrees.layerComplete.trans hidle.isOpen
  · exact hagrees.armed.trans hunarmed

namespace Queue

open Proc Engine Loopback

/-- A queue that runs, with an engine between two transfers and these words in the stream. Nothing
    waits to be sent, and this many buffers have been dropped. -/
structure Bench.Ready (b : Bench Loopback) (words : List UInt64) (closed : Bool)
    (dropped : Nat) : Prop where
  running : b.queue.running = true
  empty : b.queue.buffers = []
  dropped_eq : b.queue.dropped = dropped
  settled : b.queue.engine.Settled b.link words closed

namespace Bench

variable {b : Bench Loopback} {words data : List UInt64} {closed : Bool} {dropped : Nat}

/-- A start on an idle device succeeds. -/
theorem exists_initialise_of_idle {readLength : Nat} {configured : Engine}
    (hpulsed : ∀ i < ResetLine.pulse.length, ¬b.line.Refuses i)
    (hconfigure : b.queue.engine.configure readLength = .ok configured)
    (hidle : b.link.Idle configured.mode)
    (hsuits : configured.Suits b.link.source.size b.link.destination.size) :
    ∃ after, b.initialise readLength = (.ok (), after) ∧ after.queue.engine = configured ∧
      after.Ready [] false b.queue.dropped := by
  obtain ⟨hsource, hdestination⟩ := b.link.windows_reset
  rw [← hsource, ← hdestination] at hsuits
  obtain ⟨hstarted, hsettled, -, -⟩ := start_spec hidle.reset hsuits
  obtain ⟨made, result, after, ⟨hrun, -⟩, hstarts⟩ := exists_comes_initialise b readLength
  obtain rfl : result = .ok () := hstarts.eq_ok_iff.2 ⟨hpulsed, configured, hconfigure, hstarted⟩
  refine ⟨_, hrun, ?_⟩
  have hdropped := hstarts.dropped_eq.1
  cases hstarts with
  | @started _ configured' hconfigure' _ =>
    obtain rfl := Except.ok.inj (hconfigure'.symm.trans hconfigure)
    exact ⟨rfl, rfl, rfl, hdropped, hsettled⟩

/-- While the queue runs, the worker handles what waits and goes on. -/
theorem comes_worker_succ {between after : Bench Loopback} {made made' : List Signal} {bound : Nat}
    (hrunning : b.queue.running = true) (hhandled : handleBuffer.Comes b made () between)
    (hrest : (worker bound).Comes between made' () after) :
    (worker (bound + 1)).Comes b (made ++ made') () after :=
  .access (a := .running) (m := made ++ made') (Comes.ite_pos hrunning (hhandled.bind hrest))

/-- A buffer that is handed over to a queue that runs is sent. -/
theorem Ready.exists_enqueue (hready : b.Ready words closed dropped) {payload : List UInt64}
    (hpayload : payload ≠ []) :
    ∃ after, b.enqueue [payload] = ([.ok ()], after) ∧
      after.queue.engine = b.queue.engine ∧ after.Ready (words ++ payload) true dropped := by
  obtain ⟨hsent, hsettled, -⟩ := hready.settled.sendSplit hpayload
  let handed : Bench Loopback :=
    { b with queue.pending := b.queue.pending + 1, queue.buffers := b.queue.buffers ++ [payload] }
  have hhanded : b.run (enqueueAll [payload]) = ([.ok ()], handed) := by
    obtain ⟨word, rest, rfl⟩ := List.exists_cons_of_ne_nil hpayload
    rfl
  have hbuffers : handed.queue.buffers = [payload] := by
    simp only [handed, hready.empty, List.nil_append]
  -- The transfer succeeds, so all that is left of the turn is what the device was sent.
  let after : Bench Loopback := { handed with
    queue.buffers := []
    queue.pending := handed.queue.pending - 1
    link := (b.link.run (b.queue.engine.sendSplit payload)).2 }
  have hafter : handed.handled payload [] = after := by
    have hok : (outcome handed.queue.engine handed.link payload).1 = .ok () := hsent
    rw [Bench.handled, hok]
    rfl
  have hfirst : handleBuffer.Comes handed (handed.handling payload) () after :=
    hafter ▸ comes_handleBuffer hready.running hbuffers
  have hworker : (worker 2).Comes handed (handed.handling payload ++ ([] ++ [])) () after :=
    comes_worker_succ hready.running hfirst
      (comes_worker_succ (b := after) hready.running (comes_handleBuffer_of_nil rfl)
        (comes_ret _ _))
  have hsettle : handed.settle = after := by
    rw [settle, takeBound, hbuffers]
    exact congrArg Prod.snd hworker.1
  refine ⟨after, ?_, rfl, hready.running, rfl, hready.dropped_eq, hsettled⟩
  rw [enqueue, hhanded, ← hsettle]

/-- A layer is read as the engine receives it, unless that times out. -/
theorem Ready.read_eq (hready : b.Ready words closed dropped)
    (hother : (b.link.run (b.queue.engine.receive b.link.chunkBound [])).1.timedOut = false) :
    b.read [] = ((b.link.run (b.queue.engine.receive b.link.chunkBound [])).1,
      b.received b.link.chunkBound) := by
  have hrest : (afterReceiving b.takeBound b.queue.stops
      (b.link.run (b.queue.engine.receive b.link.chunkBound [])).1).Comes
        (b.received b.link.chunkBound) [] (b.link.run (b.queue.engine.receive
          b.link.chunkBound [])).1 (b.received b.link.chunkBound) := by
    rw [afterReceiving_of_not_timedOut hother]
    exact comes_ret _ _
  exact (comes_readLayer hready.running [] hrest).1

/-- As many chunks are taken as there are words, and more. -/
theorem Ready.length_lt_chunkBound (hready : b.Ready data true dropped) :
    data.length < b.link.chunkBound := by
  have hsize : b.link.stream.size = data.length := by
    rw [← Stream.length_toList]
    exact congrArg List.length hready.settled.words_eq
  rw [chunkBound, hsize]
  omega

/-- Stopping a queue drops nothing. -/
theorem dropped_stop (b : Bench Loopback) : b.stop.queue.dropped = b.queue.dropped := by
  let counted : Bench Loopback :=
    { b with queue.locked := true, queue.stops := b.queue.stops + 1 }
  have hunlock : (access .unlock).Comes counted.stilled [] ()
      { counted.stilled with queue.locked := false } := ⟨rfl, rfl⟩
  have hstop : Queue.stop.Comes b _ () { counted.stilled with queue.locked := false } :=
    .access (a := .lock) (.access (a := .countStop) ((comes_haltAndJoin counted).bind hunlock))
  exact congrArg (fun out => out.2.queue.dropped) hstop.1

end Bench

end Queue

end DmaLink
