import DmaLink.Proofs.Engine.Session

namespace DmaLink

open Loopback

/-- Payloads that are sent one after the other, and the old contents of the buffer that one layer is
    then received behind. -/
structure Round where
  payloads : List (List UInt64)
  contents : List UInt64
deriving DecidableEq, Repr

namespace Round

def operations (r : Round) : List Engine.Operation :=
  r.payloads.map .sendSplit ++ [.receive r.contents]

/-- The payloads of a round one behind the other. -/
def data (r : Round) : List UInt64 := r.payloads.flatten

/-- There is something to send in every operation of a round, and no word at the end of a chunk of
    its data has the end bit set. -/
structure Admissible (r : Round) (chunkWords : Nat) : Prop where
  payloads_ne_nil : r.payloads ≠ []
  payload_ne_nil : ∀ payload ∈ r.payloads, payload ≠ []
  chunksOpen : ChunksOpen chunkWords r.data

/-- Each payload is sent, and the layer is the data, zeros and the idle word in whole chunks. -/
def answers (r : Round) (chunkWords : Nat) : List Engine.Answer :=
  r.payloads.map (fun _ => .done) ++
    [.received (.echoed chunkWords r.contents r.data)]

/-- The tags of the bursts that the payloads of a round go out as. -/
def tags (r : Round) (burstWords : Nat) : List OperatingMode :=
  r.payloads.flatMap fun payload =>
    List.replicate ((payload.length + burstWords - 1) / burstWords - 1) .partway ++ [.complete]

end Round

namespace Session

variable {e : Engine} {d : Loopback} {words : List UInt64} {closed : Bool}

/-- Payloads that are sent one after the other all succeed and stand in the stream in order. -/
theorem performAll_sends {payloads : List (List UInt64)}
    (hpayloads : ∀ payload ∈ payloads, payload ≠ []) (hsettled : e.Settled d words closed) :
    ∃ d', Session.performAll ⟨e, d⟩ (payloads.map .sendSplit) =
        (payloads.map fun _ => .done, ⟨e, d'⟩) ∧
      e.Settled d' (words ++ payloads.flatten) (closed || !payloads.isEmpty) ∧
        d'.received.toList = d.received.toList ++ payloads.flatten ∧
          d'.tags.toList = d.tags.toList ++ payloads.flatMap fun payload =>
            List.replicate ((payload.length + e.burstWords - 1) / e.burstWords - 1) .partway ++
              [.complete] := by
  induction payloads generalizing d words closed with
  | nil => exact ⟨d, rfl, by simpa using hsettled, by simp, by simp⟩
  | cons payload rest ih =>
    obtain ⟨hsent, hsettled', hemits⟩ := hsettled.sendSplit (hpayloads payload (by simp))
    obtain ⟨d', hperform, hsettled'', hreceived, htags⟩ :=
      ih (fun payload hpayload => hpayloads payload (by simp [hpayload])) hsettled'
    refine ⟨d', ?_, ?_, ?_, ?_⟩
    · simp only [List.map_cons, performAll, perform_sendSplit, hsent, hperform]
      rfl
    · simpa [List.append_assoc] using hsettled''
    · rw [hreceived, hemits.received, words_train, flatten_pieces hsettled.suits.positive,
        List.append_assoc, List.flatten_cons]
    · rw [htags, hemits.tags, modes_train (pieces_ne_nil hsettled.suits.positive
          (hpayloads payload (by simp))), length_pieces hsettled.suits.positive,
        List.append_assoc, List.flatMap_cons]

/-- A round gives its data back and leaves the session as it found it. -/
theorem performAll_round {r : Round} (hround : r.Admissible e.destination.halfWords)
    (hsettled : e.Settled d [] false) :
    ∃ d', Session.performAll ⟨e, d⟩ r.operations =
        (r.answers e.destination.halfWords, ⟨e, d'⟩) ∧
      e.Settled d' [] false ∧ d'.received.toList = d.received.toList ++ r.data ∧
        d'.tags.toList = d.tags.toList ++ r.tags e.burstWords := by
  obtain ⟨d', hsends, hsettled', hreceived, htags⟩ :=
    performAll_sends hround.payload_ne_nil hsettled
  have hclosed : (false || !r.payloads.isEmpty) = true := by
    simpa using hround.payloads_ne_nil
  rw [List.nil_append, hclosed] at hsettled'
  have hbound : r.data.length / e.destination.halfWords < d'.chunkBound := by
    have hsize : d'.stream.size = r.data.length := by
      rw [← Stream.length_toList]
      exact congrArg List.length hsettled'.words_eq
    have hdiv := Nat.div_le_self r.data.length e.destination.halfWords
    rw [chunkBound, hsize]
    omega
  obtain ⟨hanswer, hsettled'', hkeeps⟩ :=
    hsettled'.receive hround.chunksOpen hbound r.contents
  refine ⟨_, ?_, hsettled'', ?_, ?_⟩
  · rw [Round.operations, performAll_append, hsends]
    simp only [performAll, perform_receive]
    rw [hanswer]
    rfl
  · rw [hkeeps.received, hreceived, Round.data]
  · rw [hkeeps.tags, htags, Round.tags]

/-- Round after round, each gives its data back and leaves the session as it found it. -/
theorem performAll_flatMap_operations {rounds : List Round}
    (hrounds : ∀ r ∈ rounds, r.Admissible e.destination.halfWords)
    (hsettled : e.Settled d [] false) :
    ∃ d', Session.performAll ⟨e, d⟩ (rounds.flatMap Round.operations) =
        (rounds.flatMap fun r => r.answers e.destination.halfWords, ⟨e, d'⟩) ∧
      d'.received.toList = d.received.toList ++ rounds.flatMap Round.data ∧
        d'.tags.toList = d.tags.toList ++ rounds.flatMap fun r => r.tags e.burstWords := by
  induction rounds generalizing d with
  | nil => exact ⟨d, rfl, by simp, by simp⟩
  | cons r rest ih =>
    obtain ⟨d', hround, hsettled', hreceived, htags⟩ :=
      performAll_round (hrounds r (by simp)) hsettled
    obtain ⟨d'', hrest, hreceived', htags'⟩ :=
      ih (fun r hr => hrounds r (by simp [hr])) hsettled'
    refine ⟨d'', ?_, ?_, ?_⟩
    · rw [List.flatMap_cons, performAll_append, hround]
      simp only [hrest, List.flatMap_cons]
    · rw [hreceived', hreceived, List.append_assoc, List.flatMap_cons]
    · rw [htags', htags, List.append_assoc, List.flatMap_cons]

/-- On a fresh device, in either mode and with any limit, every round gives back the data that was
    sent in it, in whole chunks, and the device has recorded all words and the tag of each burst. -/
theorem performAll_rounds {mode : SyncMode} {sourceWords destinationWords burstWords : Nat}
    {lines : Option Interrupt.Lines} {e e' : Engine} {timeout : Duration} {readLength : Nat}
    {rounds : List Round}
    (hcreate : Engine.create mode
      ((Loopback.create sourceWords destinationWords lines).geometry burstWords) = .ok e)
    (hlines : mode = .interrupt → lines = some {})
    (hconfigure : (e.setTimeout timeout).configure readLength = .ok e')
    (hrounds : ∀ r ∈ rounds, r.Admissible (readLength / wordBytes)) :
    ∃ s, Session.performAll ⟨e, Loopback.create sourceWords destinationWords lines⟩
          (.setTimeout timeout :: .initialise readLength :: rounds.flatMap Round.operations) =
        (.done :: .done :: rounds.flatMap fun r => r.answers (readLength / wordBytes), s) ∧
      (∀ r ∈ rounds, (echo (readLength / wordBytes) r.data).length =
        readLength / wordBytes * (r.data.length / (readLength / wordBytes) + 1)) ∧
        s.link.received.toList = rounds.flatMap Round.data ∧
          s.link.tags.toList = .partway :: rounds.flatMap fun r => r.tags burstWords := by
  obtain ⟨-, -, hburst, hhalf⟩ := Engine.suits_of_configure hcreate hconfigure
  obtain ⟨d, hinit, hsettled, htags, hreceived⟩ := exists_perform_initialise
    (idle_create hlines sourceWords destinationWords) hcreate hconfigure
  rw [← hhalf] at hrounds ⊢
  obtain ⟨d', hperform, hreceived', htags'⟩ := performAll_flatMap_operations hrounds hsettled
  refine ⟨⟨e', d'⟩, ?_, ?_, ?_, ?_⟩
  · simp only [performAll, perform_setTimeout, hinit, hperform]
  · intro r _
    exact length_echo hsettled.suits.destination.positive r.data
  · rw [hreceived', hreceived]
    rfl
  · rw [htags', htags, hburst]
    rfl

/-- One round with interrupts, in which a word that looks like a tag is data. -/
theorem performAll_rounds_interrupt :
    ∃ e s, Session.performAll ⟨e, Loopback.create 6 256 (some {})⟩
          [.setTimeout (.ofMicroseconds 0), .initialise 1024, .sendSplit (List.replicate 130 5),
            .sendSplit [OperatingMode.complete.tag], .receive [7]] =
        ([.done, .done, .done, .done, .received ⟨7 :: (List.replicate 130 5 ++
            OperatingMode.complete.tag :: (List.replicate 124 0 ++ [Word.idle])),
          .complete 2048⟩], s) ∧
      s.link.received.toList = List.replicate 130 5 ++ [OperatingMode.complete.tag] := by
  obtain ⟨e, e', hcreate, hconfigure⟩ :=
    Engine.exists_create_configure .interrupt (some {}) (.ofMicroseconds 0)
  have hround : Round.Admissible ⟨[List.replicate 130 5, [OperatingMode.complete.tag]], [7]⟩
      (1024 / wordBytes) := by
    refine ⟨by simp, by simp, chunksOpen_of_forall fun word hword => ?_⟩
    simp only [Round.data, List.flatten_cons, List.flatten_nil, List.append_nil, List.mem_append,
      List.mem_replicate, List.mem_singleton] at hword
    obtain ⟨-, rfl⟩ | rfl := hword <;> decide
  obtain ⟨s, hperform, -, hreceived, -⟩ := performAll_rounds hcreate (fun _ => rfl) hconfigure
    (List.forall_mem_singleton.2 hround)
  refine ⟨_, s, hperform.trans ?_, hreceived.trans ?_⟩
  · simp [Round.answers, Round.data, Reception.echoed, echo, wordBytes]
  · rfl

end Session

end DmaLink
