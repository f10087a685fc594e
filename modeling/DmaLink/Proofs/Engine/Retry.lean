import DmaLink.Proofs.Engine.Session

namespace DmaLink

open Loopback

namespace Engine

variable {e : Engine} {d : Loopback} {buffer payload : List UInt64}

/-- A poll of a quiet port times out after one look and leaves the device as it is. -/
theorem run_takeChunk_of_quiet (hmode : e.mode = .poll) (hquiet : (d.port .s2mm).Quiet .poll)
    (half : Half) :
    d.run (e.takeChunk half) = (.error (.channelTimeout .s2mm e.limit), d) := by
  have hopen : Status.isDone (d.status .s2mm) = false := hquiet.2
  have hlook : d.run (Completion.await e.mode .s2mm e.limit) =
      d.run (if Status.isDone (d.status .s2mm) then (do
          Completion.acknowledge .s2mm
          return .ok ())
        else return .error (.channelTimeout .s2mm e.limit)) := by
    rw [hmode]
    rfl
  rw [hopen] at hlook
  rw [takeChunk, run_bind, hlook]
  rfl

/-- A chunk that is armed on too few words is not completed. -/
theorem armedAt_complete {i : Inbound} {half : Half} (hopen : i.closed = false)
    (hshort : i.words.length < e.destination.halfWords) :
    (e.armedAt half i).complete = e.armedAt half i :=
  complete_of_short rfl hopen hshort

/-- A reception with nothing to receive times out and leaves the first half armed. -/
theorem Settled.receive_of_empty (hsettled : e.Settled d [] false) (hmode : e.mode = .poll)
    (bound : Nat) (buffer : List UInt64) :
    ∃ d', d.run (e.receive (bound + 1) buffer) =
        (⟨buffer, .failed (.channelTimeout .s2mm e.limit)⟩, d') ∧ d.KeepsOutbound d' ∧
      ∀ ws, ws ≠ [] → e.Waiting .a d'.inbound ws ws.flatten := by
  obtain ⟨⟨_, -, hinbound⟩, hkeeps⟩ := (Engine.receives_arm hsettled.receiving.1
    hsettled.suits.destination (.inr rfl) .a).run hsettled.flowing rfl
  rw [List.take_nil, Inbound.pushAll_nil] at hinbound
  have hshort : d.inbound.words.length < e.destination.halfWords := by
    rw [hsettled.words_eq]
    exact hsettled.suits.destination.positive
  rw [armedAt_complete hsettled.closed_eq hshort] at hinbound
  have hquiet := hsettled.receiving.withAddress (e.destination.address .a)
  refine ⟨(d.run (e.arm .a)).2, ?_, hkeeps, fun ws hws => ?_⟩
  · have hquiet' : ((d.run (e.arm .a)).2.port .s2mm).Quiet .poll := by
      have hport : (d.run (e.arm .a)).2.port .s2mm = _ := congrArg Inbound.port hinbound
      rw [hport, ← hmode]
      exact hquiet
    rw [Engine.receive, run_bind, receiveChunks, run_bind, run_takeChunk_of_quiet hmode hquiet']
    exact congrArg (fun words => (Reception.mk words _, _)) (List.append_nil buffer)
  · rw [hinbound]
    have hwords : (e.armedAt .a d.inbound).words = [] := hsettled.words_eq
    have hclosed : (e.armedAt .a d.inbound).closed = false := hsettled.closed_eq
    refine ⟨hquiet, hsettled.suits.destination, rfl, ⟨?_, ?_⟩, hclosed, hshort⟩
    · rw [hwords, List.nil_append]
    · rw [hclosed, Eq.comm, List.isEmpty_eq_false_iff]
      exact hws

/-- The first chunk of a payload that is sent then lands in that half. -/
theorem landed_of_waiting {i : Inbound}
    (hwaiting : e.Waiting .a i (pieces e.burstWords payload) payload) :
    e.Landed .a none (i.pushAll (train (pieces e.burstWords payload))) [] payload := by
  have hawaited := pushAll_train (motive := fun i ws => e.Awaited .a none i ws payload)
    (fun _ _ _ => Awaited.push) (.inl hwaiting) (train (pieces e.burstWords payload)).length
  rw [List.take_length, length_train, List.drop_length] at hawaited
  rcases hawaited with hstill | hlanded
  · exact absurd (hstill.supplied.closed.symm.trans hstill.isOpen) (by decide)
  · exact hlanded

/-- What is left of a payload after its first chunk. All of one that does not fill a chunk stays in
    the half that it has landed in. -/
def unread (chunkWords : Nat) (payload : List UInt64) : List UInt64 :=
  if payload.length < chunkWords then payload else payload.drop chunkWords

/-- Arming the half that the first chunk has landed in gives up what it holds, if more follows. -/
theorem Landed.receives_arm {i : Inbound} (hlanded : e.Landed .a none i [] payload)
    (hmode : e.mode = .poll) :
    ∃ left, Receives (fun _ i' later => later = [] ∧
        e.Awaited .a left i' [] (unread e.destination.halfWords payload))
      (e.arm .a) i [] := by
  have hfinished : (e.armedAt .a i).port.Finished .poll := by
    have hold := hlanded.finished
    rw [hmode] at hold
    exact hold
  have harm := Engine.receives_arm hlanded.finished.1 hlanded.holds.destination
    (.inr rfl : i.armed = none ∨ ([] : List Burst) = []) .a
  rcases hlanded.holds.leaves with ⟨hfull, -, hsupplied⟩ | ⟨hshort, -, -, hempty, hopen⟩
  -- The next chunk is completed into the half at once, over the one that it holds.
  · refine ⟨none, harm.mono ?_⟩
    rintro _ i' later ⟨count, rfl, rfl⟩
    rw [List.take_nil, Inbound.pushAll_nil, unread, if_neg (Nat.not_lt.2 hfull)]
    refine ⟨List.drop_nil, .inr (landed_complete ?_ ?_ hlanded.holds.destination rfl ?_ ?_)⟩
    · exact hlanded.finished.1
    · rw [hmode]
      exact hfinished.finish
    · exact ⟨hsupplied.data, hsupplied.closed⟩
    · exact .inl hsupplied.closed
  -- Nothing is left to complete the half with, so it stays armed and keeps what it holds.
  · refine ⟨some ⟨e.destination.address .a, e.destination.halfWords⟩, harm.mono ?_⟩
    rintro _ i' later ⟨count, rfl, rfl⟩
    have hwords : i.words.length < e.destination.halfWords := by
      rw [hempty]
      exact hlanded.holds.destination.positive
    rw [List.take_nil, Inbound.pushAll_nil, unread, if_pos hshort, armedAt_complete hopen hwords]
    refine ⟨List.drop_nil, .inr ⟨?_, hlanded.holds.destination, hlanded.holds.contents, ?_⟩⟩
    · rw [hmode]
      exact hfinished
    · exact .inr ⟨hshort, rfl, .inr rfl, hempty, hopen⟩

/-- Leaving the first chunk out changes what comes back whenever there is one. -/
theorem echoed_unread_eq_iff {chunkWords : Nat} (hpositive : 0 < chunkWords) :
    Reception.echoed chunkWords buffer (unread chunkWords payload) =
        .echoed chunkWords buffer payload ↔ payload.length < chunkWords := by
  constructor
  · intro hsame
    refine Nat.lt_of_not_le fun hfull => ?_
    rw [unread, if_neg (Nat.not_lt.2 hfull)] at hsame
    have hlength := congrArg List.length (congrArg Reception.buffer hsame)
    simp only [Reception.echoed, List.length_append, length_echo hpositive,
      length_div_eq_of_le hpositive hfull, Nat.add_left_cancel_iff] at hlength
    have hcount := Nat.eq_of_mul_eq_mul_left hpositive hlength
    omega
  · intro hshort
    rw [unread, if_pos hshort]

/-- What is left of an open payload is open. -/
theorem chunksOpen_unread {chunkWords : Nat} (hopen : ChunksOpen chunkWords payload) :
    ChunksOpen chunkWords (unread chunkWords payload) := by
  rw [unread]
  split
  · exact hopen
  · exact hopen.drop

/-- No more chunks are to come than there are words in the stream, but for the last one. -/
theorem Leaves.length_unread_le {i : Inbound} {left : Option Arming}
    (hleaves : e.Leaves left i [] payload) :
    (unread e.destination.halfWords payload).length / e.destination.halfWords ≤ i.words.length := by
  rcases hleaves with ⟨hfull, -, hsupplied⟩ | ⟨hshort, -⟩
  · have hwords := hsupplied.data
    rw [List.flatten_nil, List.append_nil] at hwords
    rw [unread, if_neg (Nat.not_lt.2 hfull), ← hwords]
    exact Nat.div_le_self _ _
  · rw [unread, if_pos hshort, Nat.div_eq_of_lt hshort]
    exact Nat.zero_le _

/-- Two receptions with a payload sent in between, the first of which found nothing. -/
theorem Settled.receive_sendSplit_receive (hsettled : e.Settled d [] false)
    (hmode : e.mode = .poll) (hpayload : payload ≠ [])
    (hopen : ChunksOpen e.destination.halfWords payload) (before buffer : List UInt64) :
    (Session.performAll ⟨e, d⟩ [.receive before, .sendSplit payload, .receive buffer]).1 =
      [.received ⟨before, .failed (.channelTimeout .s2mm e.limit)⟩, .done,
        .received (.echoed e.destination.halfWords buffer
          (unread e.destination.halfWords payload))] := by
  obtain ⟨bound, hbound⟩ : ∃ bound, d.chunkBound = bound + 1 := ⟨_, rfl⟩
  obtain ⟨armed, hfailed, hkeeps, hwaiting⟩ := hsettled.receive_of_empty hmode bound before
  have hready : e.SendReady armed.outbound := by
    rw [hkeeps.outbound]
    exact hsettled.sendReady
  obtain ⟨⟨hsent, -⟩, hemits⟩ := (sends_sendSplit hsettled.suits hready hpayload).run
    (hkeeps.stalled.trans hsettled.flowing) rfl
  have hwaiting' := hwaiting _ (pieces_ne_nil hsettled.suits.positive hpayload)
  rw [flatten_pieces hsettled.suits.positive] at hwaiting'
  have hlanded := landed_of_waiting hwaiting'
  rw [← hemits.inbound] at hlanded
  obtain ⟨left, harm⟩ := hlanded.receives_arm hmode
  have hchunks : (unread e.destination.halfWords payload).length / e.destination.halfWords <
      (armed.run (e.sendSplit payload)).2.chunkBound := by
    have hfew := hlanded.holds.leaves.length_unread_le
    have hsize := (armed.run (e.sendSplit payload)).2.stream.length_toList
    simp only [inbound] at hfew
    rw [chunkBound]
    omega
  have hreceives : Receives (e.Received left buffer (unread e.destination.halfWords payload))
      (e.receive (armed.run (e.sendSplit payload)).2.chunkBound buffer)
      (armed.run (e.sendSplit payload)).2.inbound [] := by
    apply harm.bind
    rintro _ i later ⟨rfl, hawaited⟩
    exact hawaited.receives (chunksOpen_unread hopen) hchunks buffer
  obtain ⟨⟨hreceived, -⟩, -⟩ :=
    hreceives.run (hemits.stalled.trans (hkeeps.stalled.trans hsettled.flowing)) rfl
  simp only [Session.performAll, Session.perform_receive, Session.perform_sendSplit, hbound,
    hfailed, hsent, hreceived]
  rfl

end Engine

/-- On a device just initialised, a payload that is sent after a reception timed out comes back
    without its first chunk. So the next reception is right exactly if the payload does not fill a
    chunk. -/
theorem Session.performAll_receive_sendSplit_receive {d : Loopback} {burstWords readLength : Nat}
    {e : Engine} {timeout : Duration} {s : Session Loopback} {payload : List UInt64}
    (hidle : d.Idle .poll) (hcreate : Engine.create .poll (d.geometry burstWords) = .ok e)
    (hinit : Session.perform ⟨e.setTimeout timeout, d⟩ (.initialise readLength) = (.done, s))
    (hpayload : payload ≠ []) (hopen : ChunksOpen (readLength / wordBytes) payload)
    (before buffer : List UInt64) :
    let layer := Reception.echoed (readLength / wordBytes) buffer
      (Engine.unread (readLength / wordBytes) payload)
    (s.performAll [.receive before, .sendSplit payload, .receive buffer]).1 =
        [.received ⟨before, .failed (.channelTimeout .s2mm s.engine.limit)⟩, .done,
          .received layer] ∧
      (layer = .echoed (readLength / wordBytes) buffer payload ↔
        payload.length < readLength / wordBytes) := by
  obtain ⟨hsettled, hmode, hhalf⟩ := settled_of_perform_initialise hidle hcreate hinit
  rw [← hhalf] at hopen ⊢
  exact ⟨hsettled.receive_sendSplit_receive hmode hpayload hopen before buffer,
    Engine.echoed_unread_eq_iff hsettled.suits.destination.positive⟩

/-- The first of two chunks is lost to the half that was left armed. -/
theorem Session.performAll_receive_sendSplit_receive_long :
    ∃ e s, Engine.create .poll ((Loopback.create 6 256 none).geometry 2) = .ok e ∧
      Session.perform ⟨e.setTimeout (.ofMicroseconds 0), Loopback.create 6 256 none⟩
        (.initialise 1024) = (.done, s) ∧
      (s.performAll [.receive [], .sendSplit (List.replicate 130 5), .receive [7]]).1 =
        [.received ⟨[], .failed (.channelTimeout .s2mm s.engine.limit)⟩, .done,
          .received ⟨7 :: 5 :: 5 :: (List.replicate 125 0 ++ [Word.idle]), .complete 1024⟩] := by
  obtain ⟨e, e', hcreate, hconfigure⟩ :=
    Engine.exists_create_configure .poll none (.ofMicroseconds 0)
  have hidle : (Loopback.create 6 256 none).Idle .poll := idle_create (by simp) 6 256
  obtain ⟨d, hinit, -⟩ := exists_perform_initialise hidle hcreate hconfigure
  have hopen : ChunksOpen (1024 / wordBytes) (List.replicate 130 5) :=
    chunksOpen_of_forall fun word hword => by rw [List.eq_of_mem_replicate hword]; decide
  obtain ⟨hanswers, -⟩ :=
    performAll_receive_sendSplit_receive hidle hcreate hinit (by simp) hopen [] [7]
  refine ⟨e, _, hcreate, hinit, hanswers.trans ?_⟩
  simp [Engine.unread, Reception.echoed, echo, wordBytes]

end DmaLink
