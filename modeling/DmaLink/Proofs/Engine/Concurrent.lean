import DmaLink.Proofs.Engine.Rounds
import DmaLink.Proofs.Loopback.Duplex

namespace DmaLink

open Loopback

namespace Engine

variable {e : Engine} {d : Loopback}

/-- On a device at rest with an empty stream, a receiver waits for the pieces of what is to come. -/
theorem Settled.receiveReady_pieces (hsettled : e.Settled d [] false) {payload : List UInt64}
    (hpayload : payload ≠ []) :
    e.ReceiveReady d.inbound (pieces e.burstWords payload) payload := by
  have hpositive := hsettled.suits.positive
  refine ⟨hsettled.receiving, hsettled.suits.destination, hsettled.unarmed, ?_, ?_⟩
  · rw [hsettled.words_eq, List.nil_append, flatten_pieces hpositive]
  · rw [hsettled.closed_eq, Eq.comm, List.isEmpty_eq_false_iff]
    exact pieces_ne_nil hpositive hpayload

/-- A sender on a device at rest is on its way to give over the train that a reader of its pieces
    waits for. -/
theorem Settled.coupled (hsettled : e.Settled d [] false) {payload : List UInt64}
    (hpayload : payload ≠ []) {β : Type} {reader : Proc Link.io β}
    {post : β → Inbound → List Burst → Prop}
    (hreceives : Receives post reader d.inbound (train (pieces e.burstWords payload))) :
    Duplex.Coupled (e.Sent ()) post ⟨e.sendSplit payload, reader, d⟩ :=
  ⟨d.inbound, [], train (pieces e.burstWords payload), hsettled.flowing, rfl,
    sends_sendSplit hsettled.suits hsettled.sendReady hpayload, hreceives⟩

end Engine

/-- Whatever the order of the accesses of a sender and a receiver on a device just initialised, the
    one succeeds and the other receives the echo of the payload, just as it does afterwards; and
    both end under a fair schedule. -/
theorem Session.duplex_sendSplit_receive {d : Loopback} {burstWords readLength bound : Nat}
    {e : Engine} {timeout : Duration} {s : Session Loopback} {payload buffer : List UInt64}
    (hidle : d.Idle .poll) (hcreate : Engine.create .poll (d.geometry burstWords) = .ok e)
    (hinit : Session.perform ⟨e.setTimeout timeout, d⟩ (.initialise readLength) = (.done, s))
    (hpayload : payload ≠ []) (hopen : ChunksOpen (readLength / wordBytes) payload)
    (hbound : payload.length / (readLength / wordBytes) < bound) :
    let layer := Reception.echoed (readLength / wordBytes) buffer payload
    let start : Duplex _ _ := ⟨s.engine.sendSplit payload, s.engine.receive bound buffer, s.link⟩
    (∀ turns,
      (∀ count result, (start.after turns count).writer = .ret result → result = .ok ()) ∧
      (∀ count result, (start.after turns count).reader = .ret result → result = layer) ∧
      (Duplex.Fair turns → ∃ count, (start.after turns count).writer = .ret (.ok ()) ∧
        (start.after turns count).reader = .ret layer)) ∧
      (s.performAll [.sendSplit payload, .receive buffer]).1 = [.done, .received layer] ∧
        layer.buffer.length = buffer.length +
          readLength / wordBytes * (payload.length / (readLength / wordBytes) + 1) := by
  intro layer start
  obtain ⟨hsettled, -, hhalf⟩ := settled_of_perform_initialise hidle hcreate hinit
  rw [← hhalf] at hopen hbound
  have hround : Round.Admissible ⟨[payload], buffer⟩ s.engine.destination.halfWords :=
    ⟨by simp, by simpa using hpayload, by simpa [Round.data] using hopen⟩
  obtain ⟨_, hafterwards, -, -, -⟩ := performAll_round hround hsettled
  have hcoupled := hsettled.coupled hpayload
    ((hsettled.receiveReady_pieces hpayload).receives hopen hbound buffer)
  have hwriter : ∀ turns count result,
      (start.after turns count).writer = .ret result → result = .ok () :=
    fun turns count result hover => ((hcoupled.after turns count).writer_over hover).1
  have hreader : ∀ turns count result,
      (start.after turns count).reader = .ret result → result = layer := by
    intro turns count result hover
    obtain ⟨i, bursts, hreceived, -⟩ := (hcoupled.after turns count).reader_over hover
    rw [hreceived, hhalf]
  refine ⟨fun turns => ⟨hwriter turns, hreader turns, fun hfair => ?_⟩, ?_, ?_⟩
  · obtain ⟨count, result, result', hover, hover'⟩ := hcoupled.exists_over hfair
    refine ⟨count, ?_, ?_⟩
    · rw [hover, hwriter turns count result hover]
    · rw [hover', hreader turns count result' hover']
  · have hanswers := congrArg Prod.fst hafterwards
    simpa [Round.operations, Round.answers, Round.data, hhalf] using hanswers
  · have hpositive := hsettled.suits.destination.positive
    rw [hhalf] at hpositive
    rw [← length_echo hpositive]
    exact List.length_append

/-- The schedule in which reader and writer take turns. -/
def alternating (count : Nat) : Side := if count % 2 = 0 then .reader else .writer

/-- Turn and turn about is fair. -/
theorem fair_alternating : Duplex.Fair alternating := by
  intro side count
  cases side with
  | reader => exact ⟨2 * count, by omega, if_pos (by omega)⟩
  | writer => exact ⟨2 * count + 1, by omega, if_neg (by omega)⟩

/-- A payload of two chunks, read while it is sent. -/
theorem Session.duplex_sendSplit_receive_alternating :
    ∃ e s, Engine.create .poll ((Loopback.create 6 256 none).geometry 2) = .ok e ∧
      Session.perform ⟨e.setTimeout (.ofMicroseconds 0), Loopback.create 6 256 none⟩
        (.initialise 1024) = (.done, s) ∧
      ∃ count, (Duplex.after ⟨s.engine.sendSplit (List.replicate 130 5), s.engine.receive 2 [7],
          s.link⟩ alternating count).reader =
        .ret ⟨7 :: (List.replicate 130 5 ++ (List.replicate 125 0 ++ [Word.idle])),
          .complete 2048⟩ := by
  obtain ⟨e, e', hcreate, hconfigure⟩ :=
    Engine.exists_create_configure .poll none (.ofMicroseconds 0)
  have hidle : (Loopback.create 6 256 none).Idle .poll := idle_create (by simp) 6 256
  obtain ⟨d, hinit, -⟩ := exists_perform_initialise hidle hcreate hconfigure
  have hopen : ChunksOpen (1024 / wordBytes) (List.replicate 130 5) :=
    chunksOpen_of_forall fun word hword => by rw [List.eq_of_mem_replicate hword]; decide
  have hbound : (List.replicate 130 (5 : UInt64)).length / (1024 / wordBytes) < 2 := by
    rw [List.length_replicate]
    decide
  have hlayer : Reception.echoed (1024 / wordBytes) [7] (List.replicate 130 5) =
      ⟨7 :: (List.replicate 130 5 ++ (List.replicate 125 0 ++ [Word.idle])), .complete 2048⟩ := by
    simp only [Reception.echoed, echo, List.length_replicate, List.append_assoc]
    rfl
  obtain ⟨hturns, -⟩ := duplex_sendSplit_receive hidle hcreate hinit (by simp) hopen hbound
  obtain ⟨count, -, hreader⟩ := (hturns alternating).2.2 fair_alternating
  rw [hlayer] at hreader
  exact ⟨e, _, hcreate, hinit, count, hreader⟩

end DmaLink
