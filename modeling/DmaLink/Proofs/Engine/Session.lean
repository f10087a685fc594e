import DmaLink.Proofs.Engine.Receiving
import DmaLink.Proofs.Engine.Sending

namespace DmaLink

open Loopback

/-- A device on which no transfer is under way: the stream is empty and its layer open, nothing is
    armed, and no burst is shown as finished. -/
structure Loopback.Idle (d : Loopback) (mode : SyncMode) : Prop where
  flowing : d.stalled = false
  empty : d.stream.toList = []
  isOpen : d.layerComplete = false
  unarmed : d.armed = none
  silent : ∀ channel, (d.port channel).Silent mode

/-- A device is idle as it comes up. -/
theorem Loopback.idle_create {mode : SyncMode} {lines : Option Interrupt.Lines}
    (hlines : mode = .interrupt → lines = some {}) (sourceWords destinationWords : Nat) :
    (Loopback.create sourceWords destinationWords lines).Idle mode := by
  refine ⟨rfl, rfl, rfl, rfl, fun channel => ?_⟩
  cases mode with
  | poll =>
    have hstatus : (Loopback.create sourceWords destinationWords lines).status channel =
        Status.halted := by
      cases channel <;> rfl
    exact (congrArg Status.isDone hstatus).trans (by decide)
  | interrupt =>
    rw [hlines rfl]
    exact ⟨[], by cases channel <;> rfl⟩

namespace Engine

/-- An initialised engine and its device between two transfers, with these words in the stream. -/
structure Settled (e : Engine) (d : Loopback) (words : List UInt64) (closed : Bool) : Prop where
  flowing : d.stalled = false
  suits : e.Suits d.outbound.source.size d.inbound.destination.size
  sending : d.outbound.port.Quiet e.mode
  receiving : d.inbound.port.Quiet e.mode
  unarmed : d.inbound.armed = none
  words_eq : d.inbound.words = words
  closed_eq : d.inbound.closed = closed

variable {e : Engine} {d : Loopback}

theorem Settled.sendReady {words : List UInt64} {closed : Bool}
    (hsettled : e.Settled d words closed) : e.SendReady d.outbound :=
  ⟨hsettled.sending, hsettled.suits.source⟩

theorem Settled.receiveReady {data : List UInt64} (hsettled : e.Settled d data true) :
    e.ReceiveReady d.inbound [] data :=
  ⟨hsettled.receiving, hsettled.suits.destination, hsettled.unarmed,
    by rw [hsettled.words_eq, List.flatten_nil, List.append_nil], hsettled.closed_eq⟩

section Start

/-- The part of a start up to its tag word, which concerns the sending half. -/
def opening (e : Engine) : Proc Link.io (Except LinkError Nat) := do
  Proc.writeRegister Channel.mm2s.address e.source.base
  Proc.writeRegister Channel.mm2s.control e.mode.runWord
  e.sendWords [OperatingMode.partway.tag]

/-- A start sends an empty partial burst and then runs the receiving channel. -/
theorem start_eq (e : Engine) :
    e.start = do
      match ← e.opening with
      | .error cause => return .error cause
      | .ok _ =>
        Proc.writeRegister Channel.s2mm.control e.mode.runWord
        return .ok () := rfl

/-- The opening of a start gives over an empty partial burst. -/
theorem sends_opening {o : Outbound} (hsilent : o.port.Silent e.mode)
    (hsource : e.source.Fits sourceBase o.source.size) :
    Sends (e.Sent ((0 + 1) * wordBytes)) e.opening o [⟨[], .partway⟩] := by
  have hready : e.SendReady { o with
      port := { o.port with address := e.source.base }.run e.mode.runWord } :=
    ⟨(hsilent.withAddress e.source.base).run, hsource⟩
  refine .act_silent ((Port.answers_writeAddress e.source.base).outbound rfl) ?_
  refine .act_silent ((Port.answers_writeControl _ e.mode).outbound rfl) ?_
  exact sends_sendWords hready [] .partway hsource.positive

/-- Starting an engine on an idle device succeeds, and all the device has taken in is a partial
    tag. -/
theorem start_spec (hidle : d.Idle e.mode) (hsuits : e.Suits d.source.size d.destination.size) :
    (d.run e.start).1 = .ok () ∧ e.Settled (d.run e.start).2 [] false ∧
      (d.run e.start).2.tags.toList = d.tags.toList ++ [.partway] ∧
        (d.run e.start).2.received.toList = d.received.toList := by
  obtain ⟨⟨hopened, hready⟩, hemits⟩ :=
    (sends_opening (o := d.outbound) (hidle.silent .mm2s) hsuits.source).run hidle.flowing rfl
  have hinbound : (d.run e.opening).2.inbound = d.inbound := by
    have hopen : (OperatingMode.partway == .complete) = false := rfl
    rw [hemits.inbound, Inbound.pushAll_cons, Inbound.push_of_unarmed (by exact hidle.unarmed)]
    simp only [Inbound.extend, hopen, List.append_nil, Bool.or_false, Inbound.pushAll_nil]
  obtain ⟨-, -, hrun, hkeeps⟩ := Inbound.steps_runWord (i := d.inbound) hidle.unarmed e.mode
    (d.run e.opening).2 (hemits.stalled.trans hidle.flowing) hinbound
  have hstart : d.run e.start = (.ok (),
      ((d.run e.opening).2.answer (.writeRegister Channel.s2mm.control e.mode.runWord)).2) := by
    rw [start_eq, run_bind, hopened]
    rfl
  rw [hstart]
  refine ⟨rfl, ⟨?_, ?_, ?_, ?_, ?_, ?_, ?_⟩, ?_, ?_⟩
  · exact hkeeps.stalled.trans (hemits.stalled.trans hidle.flowing)
  · rw [hkeeps.outbound, hrun]
    exact ⟨hready.source, hsuits.burst, hsuits.positive, hsuits.destination⟩
  · rw [hkeeps.outbound]
    exact hready.quiet
  · rw [hrun]
    exact (hidle.silent .s2mm).run
  · rw [hrun]
    exact hidle.unarmed
  · rw [hrun]
    exact hidle.empty
  · rw [hrun]
    exact hidle.isOpen
  · rw [hkeeps.tags, hemits.tags]
    rfl
  · rw [hkeeps.received, hemits.received]
    simp

end Start

section Transfers

variable {words : List UInt64} {closed : Bool}

/-- A payload that is sent is put behind the words in the stream and closes the layer. -/
theorem Settled.sendSplit (hsettled : e.Settled d words closed) {payload : List UInt64}
    (hpayload : payload ≠ []) :
    (d.run (e.sendSplit payload)).1 = .ok () ∧
      e.Settled (d.run (e.sendSplit payload)).2 (words ++ payload) true ∧
        d.Emits (train (pieces e.burstWords payload)) (d.run (e.sendSplit payload)).2 := by
  obtain ⟨⟨hsent, hready⟩, hemits⟩ :=
    (sends_sendSplit hsettled.suits hsettled.sendReady hpayload).run hsettled.flowing rfl
  have hinbound := hemits.inbound
  rw [Inbound.pushAll_of_unarmed hsettled.unarmed, words_train,
    flatten_pieces hsettled.suits.positive,
    any_complete_train (pieces_ne_nil hsettled.suits.positive hpayload), Bool.or_true] at hinbound
  refine ⟨hsent, ⟨hemits.stalled.trans hsettled.flowing, ?_, hready.quiet, ?_, ?_, ?_, ?_⟩, hemits⟩
  all_goals rw [hinbound]
  · exact ⟨hready.source, hsettled.suits.burst, hsettled.suits.positive,
      hsettled.suits.destination⟩
  · exact hsettled.receiving
  · exact hsettled.unarmed
  · rw [← hsettled.words_eq]

/-- A layer that is received takes all words out of the stream. -/
theorem Settled.receive {data : List UInt64} (hsettled : e.Settled d data true)
    (hopen : ChunksOpen e.destination.halfWords data) {bound : Nat}
    (hbound : data.length / e.destination.halfWords < bound) (buffer : List UInt64) :
    (d.run (e.receive bound buffer)).1 = .echoed e.destination.halfWords buffer data ∧
      e.Settled (d.run (e.receive bound buffer)).2 [] false ∧
        d.KeepsOutbound (d.run (e.receive bound buffer)).2 := by
  obtain ⟨⟨hreceived, -, hdrained⟩, hkeeps⟩ :=
    (hsettled.receiveReady.receives hopen hbound buffer).run hsettled.flowing rfl
  refine ⟨hreceived, ⟨hkeeps.stalled.trans hsettled.flowing, ?_, ?_, hdrained.quiet,
    (or_self_iff).1 hdrained.armed, hdrained.words, hdrained.isOpen⟩, hkeeps⟩ <;>
    rw [hkeeps.outbound]
  · exact ⟨hsettled.suits.source, hsettled.suits.burst, hsettled.suits.positive,
      hdrained.destination⟩
  · exact hsettled.sending

end Transfers

end Engine

namespace Session

/-- Two rows of operations are performed one behind the other. -/
theorem performAll_append {σ : Type} [Device σ] (s : Session σ)
    (first rest : List Engine.Operation) :
    s.performAll (first ++ rest) =
      ((s.performAll first).1 ++ ((s.performAll first).2.performAll rest).1,
        ((s.performAll first).2.performAll rest).2) := by
  induction first generalizing s with
  | nil => rfl
  | cons operation first ih => simp only [List.cons_append, performAll, ih]

/-- An operation whose program only turns a result into an answer. -/
theorem perform_of_eq {α : Type} {e e' : Engine} {d : Loopback} {operation : Engine.Operation}
    {program : Proc Link.io α} {answer : α → Engine.Answer}
    (hperform : e.perform d.chunkBound operation =
      (e', program >>= fun result => .ret (answer result))) :
    Session.perform ⟨e, d⟩ operation =
      (answer (d.run program).1, ⟨e', (d.run program).2⟩) := by
  have hrun : Session.perform ⟨e, d⟩ operation =
      ((d.run (e.perform d.chunkBound operation).2).1,
        ⟨(e.perform d.chunkBound operation).1,
          (d.run (e.perform d.chunkBound operation).2).2⟩) := rfl
  rw [hrun, hperform, run_bind]
  rfl

theorem perform_sendSplit (e : Engine) (d : Loopback) (payload : List UInt64) :
    Session.perform ⟨e, d⟩ (.sendSplit payload) =
      (.ofResult (d.run (e.sendSplit payload)).1, ⟨e, (d.run (e.sendSplit payload)).2⟩) :=
  perform_of_eq rfl

theorem perform_receive (e : Engine) (d : Loopback) (buffer : List UInt64) :
    Session.perform ⟨e, d⟩ (.receive buffer) =
      (.received (d.run (e.receive d.chunkBound buffer)).1,
        ⟨e, (d.run (e.receive d.chunkBound buffer)).2⟩) :=
  perform_of_eq rfl

theorem perform_setTimeout (e : Engine) (d : Loopback) (timeout : Duration) :
    Session.perform ⟨e, d⟩ (.setTimeout timeout) = (.done, ⟨e.setTimeout timeout, d⟩) := rfl

theorem perform_initialise {e e' : Engine} {readLength : Nat}
    (hconfigure : e.configure readLength = .ok e') (d : Loopback) :
    Session.perform ⟨e, d⟩ (.initialise readLength) =
      (.ofResult (d.run e'.start).1, ⟨e', (d.run e'.start).2⟩) :=
  perform_of_eq (by simp only [Engine.perform, hconfigure]; rfl)

/-- An engine that was created for an idle device and accepts a read length is initialised. -/
theorem exists_perform_initialise {mode : SyncMode} {d : Loopback} {burstWords readLength : Nat}
    {e e' : Engine} {timeout : Duration} (hidle : d.Idle mode)
    (hcreate : Engine.create mode (d.geometry burstWords) = .ok e)
    (hconfigure : (e.setTimeout timeout).configure readLength = .ok e') :
    ∃ d', Session.perform ⟨e.setTimeout timeout, d⟩ (.initialise readLength) = (.done, ⟨e', d'⟩) ∧
      e'.Settled d' [] false ∧ d'.tags.toList = d.tags.toList ++ [.partway] ∧
        d'.received.toList = d.received.toList := by
  obtain ⟨hsuits, hmode, -, -⟩ := Engine.suits_of_configure hcreate hconfigure
  rw [← hmode] at hidle
  obtain ⟨hstarted, hsettled, htags, hreceived⟩ := Engine.start_spec hidle hsuits
  refine ⟨_, ?_, hsettled, htags, hreceived⟩
  rw [perform_initialise hconfigure, hstarted]
  rfl

/-- An engine that was created for an idle device and has been initialised on it. -/
theorem settled_of_perform_initialise {mode : SyncMode} {d : Loopback} {burstWords : Nat}
    {e : Engine} {timeout : Duration} {readLength : Nat} {s : Session Loopback}
    (hidle : d.Idle mode) (hcreate : Engine.create mode (d.geometry burstWords) = .ok e)
    (hinit : Session.perform ⟨e.setTimeout timeout, d⟩ (.initialise readLength) = (.done, s)) :
    s.engine.Settled s.link [] false ∧ s.engine.mode = mode ∧
      s.engine.destination.halfWords = readLength / wordBytes := by
  cases hconfigure : (e.setTimeout timeout).configure readLength with
  | error cause =>
    have hfailed := congrArg Prod.fst hinit
    simp only [Session.perform, Engine.perform, hconfigure] at hfailed
    cases hfailed
  | ok e' =>
    obtain ⟨-, hmode, -, hhalf⟩ := Engine.suits_of_configure hcreate hconfigure
    obtain ⟨d', hperform, hsettled, -, -⟩ := exists_perform_initialise hidle hcreate hconfigure
    rw [hperform] at hinit
    rw [← (Prod.mk.inj hinit).2]
    exact ⟨hsettled, hmode, hhalf⟩

end Session

end DmaLink
