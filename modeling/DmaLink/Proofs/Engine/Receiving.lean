import DmaLink.Proofs.Engine.Geometry
import DmaLink.Proofs.Engine.Pieces
import DmaLink.Proofs.Loopback.Exchange

namespace DmaLink.Engine

open Loopback

/-- The words that a reception still has to give: those in the stream, and behind them those of the
    pieces to come. The layer is closed when no more come. -/
structure Supplied (i : Inbound) (ws : List (List UInt64)) (data : List UInt64) : Prop where
  data : i.words ++ ws.flatten = data
  closed : i.closed = ws.isEmpty

/-- What a chunk of the data leaves. A full chunk leaves the data behind it; the last one leaves
    nothing, and nothing armed but perhaps `left`. -/
def Leaves (e : Engine) (left : Option Arming) (i : Inbound) (ws : List (List UInt64))
    (data : List UInt64) : Prop :=
  (e.destination.halfWords ≤ data.length ∧ i.armed = none ∧
      Supplied i ws (data.drop e.destination.halfWords)) ∨
    (data.length < e.destination.halfWords ∧ ws = [] ∧ (i.armed = none ∨ i.armed = left) ∧
      i.words = [] ∧ i.closed = false)

/-- A half holds the next chunk of the data. -/
structure Holds (e : Engine) (half : Half) (left : Option Arming) (i : Inbound)
    (ws : List (List UInt64)) (data : List UInt64) : Prop where
  destination : e.destination.Fits destinationBase i.destination.size
  contents : (i.destination.words.extract (e.destination.offset half)
    (e.destination.offset half + e.destination.halfWords)).toList =
      chunk data e.destination.halfWords
  leaves : e.Leaves left i ws data

/-- Nothing is armed and the port is quiet. -/
structure ReceiveReady (e : Engine) (i : Inbound) (ws : List (List UInt64))
    (data : List UInt64) : Prop where
  quiet : i.port.Quiet e.mode
  destination : e.destination.Fits destinationBase i.destination.size
  unarmed : i.armed = none
  supplied : Supplied i ws data

/-- A half is armed and its chunk cannot be completed yet. -/
structure Waiting (e : Engine) (half : Half) (i : Inbound) (ws : List (List UInt64))
    (data : List UInt64) : Prop where
  quiet : i.port.Quiet e.mode
  destination : e.destination.Fits destinationBase i.destination.size
  armed : i.armed = some ⟨e.destination.address half, e.destination.halfWords⟩
  supplied : Supplied i ws data
  isOpen : i.closed = false
  short : i.words.length < e.destination.halfWords

/-- The chunk of a half is there. -/
structure Landed (e : Engine) (half : Half) (left : Option Arming) (i : Inbound)
    (ws : List (List UInt64)) (data : List UInt64) : Prop where
  finished : i.port.Finished e.mode
  holds : e.Holds half left i ws data

/-- A half that was armed: its chunk is there or is waited for. -/
def Awaited (e : Engine) (half : Half) (left : Option Arming) (i : Inbound)
    (ws : List (List UInt64)) (data : List UInt64) : Prop :=
  e.Waiting half i ws data ∨ e.Landed half left i ws data

variable {e : Engine} {half : Half} {left : Option Arming} {i : Inbound}
  {words : List UInt64} {ws : List (List UInt64)} {data : List UInt64}

section Completion

/-- Once the layer is closed all of its data is in the stream. -/
theorem Supplied.eq_nil_of_closed (hsupplied : Supplied i ws data) (hclosed : i.closed = true) :
    ws = [] ∧ i.words = data := by
  have hnone : ws = [] := by simpa [hclosed] using hsupplied.closed
  have hdata := hsupplied.data
  rw [hnone, List.flatten_nil, List.append_nil] at hdata
  exact ⟨hnone, hdata⟩

theorem Supplied.length_le (hsupplied : Supplied i ws data) : i.words.length ≤ data.length := by
  rw [← hsupplied.data, List.length_append]
  exact Nat.le_add_right _ _

/-- A chunk that can be completed is the next chunk of the data, whatever is still to come. -/
theorem Supplied.chunk_eq (hsupplied : Supplied i ws data) {size : Nat}
    (hready : i.closed = true ∨ size ≤ i.words.length) : chunk i.words size = chunk data size := by
  rcases hready with hclosed | hfills
  · rw [(hsupplied.eq_nil_of_closed hclosed).2]
  · rw [chunk, chunk, if_pos hfills, if_pos (Nat.le_trans hfills hsupplied.length_le),
      ← hsupplied.data, List.take_append_of_le_length hfills]

/-- What completing a chunk leaves is what the next chunk is taken from. -/
theorem Supplied.leaves (hsupplied : Supplied i ws data) (port : Port) (destination : Window)
    (hready : i.closed = true ∨ e.destination.halfWords ≤ i.words.length) :
    e.Leaves none ⟨port, destination, i.words.drop e.destination.halfWords,
      i.closed && e.destination.halfWords ≤ i.words.length, none⟩ ws data := by
  by_cases hfills : e.destination.halfWords ≤ i.words.length
  · refine .inl ⟨Nat.le_trans hfills hsupplied.length_le, rfl, ?_, ?_⟩
    · rw [← hsupplied.data, List.drop_append_of_le_length hfills]
    · simp only [hfills, decide_true, Bool.and_true]
      exact hsupplied.closed
  · obtain ⟨hnone, hwords⟩ := hsupplied.eq_nil_of_closed (hready.resolve_right hfills)
    have hshort := Nat.lt_of_not_le hfills
    refine .inr ⟨by rw [← hwords]; exact hshort, hnone, .inl rfl, ?_, ?_⟩
    · exact List.drop_of_length_le (Nat.le_of_lt hshort)
    · simp only [hfills, decide_false, Bool.and_false]

/-- An armed half whose chunk can be completed lands. -/
theorem landed_complete (hrunning : i.port.running = true)
    (hfinish : i.port.finish.Finished e.mode)
    (hdestination : e.destination.Fits destinationBase i.destination.size)
    (harmed : i.armed = some ⟨e.destination.address half, e.destination.halfWords⟩)
    (hsupplied : Supplied i ws data)
    (hready : i.closed = true ∨ e.destination.halfWords ≤ i.words.length) :
    e.Landed half none i.complete ws data := by
  have hrange := hdestination.offset_le half
  have hgoes : (!i.port.running || !i.closed &&
      decide (i.words.length < e.destination.halfWords)) = false := by
    rcases hready with hclosed | hfills
    · simp [hrunning, hclosed]
    · simp [hrunning, hfills]
  have hcomplete : i.complete =
      ⟨i.port.finish, ⟨Memory.put i.destination.words (e.destination.offset half)
          (chunk i.words e.destination.halfWords)⟩,
        i.words.drop e.destination.halfWords,
        i.closed && e.destination.halfWords ≤ i.words.length, none⟩ := by
    simp only [Inbound.complete, harmed, hgoes, hdestination.position?_address half,
      if_neg (Nat.not_lt.2 hrange)]
    rfl
  rw [hcomplete]
  refine ⟨hfinish, ?_, ?_, hsupplied.leaves _ _ hready⟩
  · simpa only [Window.size, Memory.size_put] using hdestination
  · rw [← hsupplied.chunk_eq hready]
    exact Memory.extract_put (length_chunk i.words _) hrange

/-- An armed half whose chunk cannot be completed stays as it is. -/
theorem complete_of_short {arming : Arming} (harmed : i.armed = some arming)
    (hopen : i.closed = false) (hshort : i.words.length < arming.words) : i.complete = i := by
  simp only [Inbound.complete, harmed, hopen, hshort, decide_true, Bool.not_false, Bool.and_self,
    Bool.or_true, if_true]

/-- An armed half either lands or is waited for. -/
theorem awaited_complete (hquiet : i.port.Quiet e.mode)
    (hdestination : e.destination.Fits destinationBase i.destination.size)
    (harmed : i.armed = some ⟨e.destination.address half, e.destination.halfWords⟩)
    (hsupplied : Supplied i ws data) : e.Awaited half none i.complete ws data := by
  by_cases hready : i.closed = true ∨ e.destination.halfWords ≤ i.words.length
  · exact .inr (landed_complete hquiet.1 hquiet.finish hdestination harmed hsupplied hready)
  · simp only [not_or, Bool.not_eq_true, Nat.not_le] at hready
    rw [complete_of_short harmed hready.1 hready.2]
    exact .inl ⟨hquiet, hdestination, harmed, hsupplied, hready.1, hready.2⟩

end Completion

section Pushes

/-- The data is the same when a piece of it comes over. -/
theorem Supplied.push (hsupplied : Supplied i (words :: ws) data) :
    Supplied (i.extend ⟨words, if ws.isEmpty then .complete else .partway⟩) ws data := by
  constructor
  · rw [← hsupplied.data, Inbound.extend, List.append_assoc, List.flatten_cons]
  · have hopen : i.closed = false := hsupplied.closed
    cases ws.isEmpty <;> simp [Inbound.extend, hopen]

/-- What holds whatever comes over next holds however much of a train has come over. -/
theorem pushAll_train {motive : Inbound → List (List UInt64) → Prop}
    (hpush : ∀ i words ws, motive i (words :: ws) →
      motive (i.push ⟨words, if ws.isEmpty then .complete else .partway⟩) ws)
    (h : motive i ws) (count : Nat) :
    motive (i.pushAll ((train ws).take count)) (ws.drop count) := by
  induction ws generalizing i count with
  | nil => simpa [train] using h
  | cons words rest ih => cases count with
    | zero => exact h
    | succ count => exact ih (hpush i words rest h) count

/-- A receiver stays ready when a piece comes over. -/
theorem ReceiveReady.push (hready : e.ReceiveReady i (words :: ws) data) :
    e.ReceiveReady (i.push ⟨words, if ws.isEmpty then .complete else .partway⟩) ws data := by
  rw [Inbound.push_of_unarmed hready.unarmed]
  exact ⟨hready.quiet, hready.destination, hready.unarmed, hready.supplied.push⟩

/-- A half keeps its chunk when a piece comes over. -/
theorem Holds.push (hholds : e.Holds half left i (words :: ws) data) :
    e.Holds half left (i.push ⟨words, if ws.isEmpty then .complete else .partway⟩) ws data := by
  rcases hholds.leaves with ⟨hfull, hunarmed, hsupplied⟩ | ⟨-, hnone, -⟩
  · rw [Inbound.push_of_unarmed hunarmed]
    exact ⟨hholds.destination, hholds.contents, .inl ⟨hfull, hunarmed, hsupplied.push⟩⟩
  · cases hnone

theorem Leaves.of_none (hleaves : e.Leaves none i ws data) : e.Leaves left i ws data := by
  rcases hleaves with hfull | ⟨hshort, hnone, hunarmed, hrest⟩
  · exact .inl hfull
  · exact .inr ⟨hshort, hnone, .inl ((or_self_iff).1 hunarmed), hrest⟩

theorem Awaited.of_none (hawaited : e.Awaited half none i ws data) :
    e.Awaited half left i ws data :=
  hawaited.imp_right fun hlanded =>
    ⟨hlanded.finished, hlanded.holds.destination, hlanded.holds.contents,
      hlanded.holds.leaves.of_none⟩

theorem Supplied.withPort (hsupplied : Supplied i ws data) (port : Port) :
    Supplied { i with port } ws data :=
  ⟨hsupplied.data, hsupplied.closed⟩

theorem Holds.withPort (hholds : e.Holds half left i ws data) (port : Port) :
    e.Holds half left { i with port } ws data :=
  ⟨hholds.destination, hholds.contents,
    hholds.leaves.imp_left fun h => ⟨h.1, h.2.1, h.2.2.withPort port⟩⟩

/-- Where pieces are still to come nothing is left armed. -/
theorem Leaves.free (hleaves : e.Leaves left i ws data) : i.armed = none ∨ train ws = [] :=
  hleaves.imp (fun h => h.2.1) fun h => train_eq_nil_iff.2 h.2.1

/-- A half stays awaited when a piece comes over, which may complete its chunk. -/
theorem Awaited.push (hawaited : e.Awaited half left i (words :: ws) data) :
    e.Awaited half left (i.push ⟨words, if ws.isEmpty then .complete else .partway⟩) ws data := by
  rcases hawaited with hwaiting | hlanded
  · exact (awaited_complete (i := i.extend _) hwaiting.quiet hwaiting.destination hwaiting.armed
      hwaiting.supplied.push).of_none
  · refine .inr ⟨?_, hlanded.holds.push⟩
    rcases hlanded.holds.leaves with ⟨-, hunarmed, -⟩ | ⟨-, hnone, -⟩
    · rw [Inbound.push_of_unarmed hunarmed]
      exact hlanded.finished
    · cases hnone

end Pushes

section Programs

variable {bursts : List Burst}

/-- The receiving half with a half of the window armed. -/
def armedAt (e : Engine) (half : Half) (i : Inbound) : Inbound :=
  { i with
    port := { i.port with address := e.destination.address half }
    armed := some ⟨e.destination.address half, e.destination.halfWords⟩ }

/-- Arming a half completes what can be completed. Nothing is armed before, or nothing more comes
    over. -/
theorem receives_arm (hrunning : i.port.running = true)
    (hdestination : e.destination.Fits destinationBase i.destination.size)
    (hfree : i.armed = none ∨ bursts = []) (half : Half) :
    Receives (fun _ i' later => ∃ count, later = bursts.drop count ∧
      i' = (e.armedAt half (i.pushAll (bursts.take count))).complete) (e.arm half) i bursts := by
  have hbytes := hdestination.bytes_lt
  have hwords : e.chunkBytes / wordBytes = e.destination.halfWords :=
    Nat.mul_div_cancel _ (by decide)
  intro count
  have hfree' : (i.pushAll (bursts.take count)).armed = none ∨ bursts.drop count = [] :=
    hfree.imp (Inbound.armed_pushAll_of_unarmed · _) (by simp [·])
  have hport := Inbound.port_pushAll (hfree.imp_right (by simp [·]) :
    i.armed = none ∨ bursts.take count = [])
  refine .inr ⟨(), _, (Port.answers_writeAddress _).inbound rfl, fun more => ?_⟩
  -- More may come over between the address and the length, but it does not touch the port.
  have hport' := Inbound.port_pushAll (hfree'.imp_right (by simp [·]) :
    (i.pushAll (bursts.take count)).armed = none ∨ (bursts.drop count).take more = [])
  rw [Inbound.withPort_pushAll (hfree'.imp_right (by simp [·])), List.drop_drop]
  refine .inr ⟨(), _, Inbound.steps_length ?_ hbytes, count + more, rfl, ?_⟩
  · rw [hport]
    exact hrunning
  · rw [hwords, List.take_add, Inbound.pushAll_append, armedAt, hport']

/-- A half that holds its chunk, on a quiet port. -/
structure Drainable (e : Engine) (half : Half) (left : Option Arming) (i : Inbound)
    (ws : List (List UInt64)) (data : List UInt64) : Prop where
  quiet : i.port.Quiet e.mode
  holds : e.Holds half left i ws data

/-- A half stays drainable when a piece comes over. -/
theorem Drainable.push (hdrainable : e.Drainable half left i (words :: ws) data) :
    e.Drainable half left (i.push ⟨words, if ws.isEmpty then .complete else .partway⟩) ws data := by
  refine ⟨?_, hdrainable.holds.push⟩
  have hfree := hdrainable.holds.leaves.free.resolve_right (List.cons_ne_nil _ _)
  rw [Inbound.push_of_unarmed hfree]
  exact hdrainable.quiet

theorem Waiting.blocks (hwaiting : e.Waiting half i ws data) :
    i.Blocks (Port.look e.mode .s2mm e.limit) ∧ train ws ≠ [] := by
  constructor
  · rintro d rfl
    exact Port.Quiet.blocks hwaiting.quiet e.limit
  · rw [Ne, train_eq_nil_iff, ← List.isEmpty_iff, ← hwaiting.supplied.closed, hwaiting.isOpen]
    exact Bool.false_ne_true

/-- The wait for a chunk that is there succeeds and leaves its half drainable. -/
theorem Landed.receives_await (hlanded : e.Landed half left i ws data) :
    Receives (fun r i' later => r = .ok () ∧ ∃ ws', later = train ws' ∧
        e.Drainable half left i' ws' data)
      (Completion.await e.mode .s2mm e.limit) i (train ws) := by
  obtain ⟨p, hruns, hquiet⟩ := hlanded.finished.await .s2mm e.limit
  apply (Receives.of_runs hruns rfl hlanded.holds.leaves.free).mono
  rintro r i' later ⟨hr, count, rfl, rfl⟩
  have hholds : e.Holds half left (i.pushAll ((train ws).take count)) (ws.drop count) data :=
    pushAll_train (motive := fun i ws => e.Holds half left i ws data)
      (fun i words ws => Holds.push) hlanded.holds count
  exact ⟨hr, ws.drop count, drop_train ws count, hquiet, hholds.withPort p⟩

/-- A wait for an armed half ends once its chunk is there. -/
theorem Awaited.receives_await (hawaited : e.Awaited half left i ws data) :
    Receives (fun r i' later => r = .ok () ∧ ∃ ws', later = train ws' ∧
        e.Drainable half left i' ws' data)
      (Completion.await e.mode .s2mm e.limit) i (train ws) := by
  obtain ⟨next, hawait⟩ := Port.await_eq_act e.mode .s2mm e.limit
  rw [hawait]
  refine Receives.of_forall_blocks_or fun count => ?_
  rw [drop_train]
  have hstill : e.Awaited half left (i.pushAll ((train ws).take count)) (ws.drop count) data :=
    pushAll_train (motive := fun i ws => e.Awaited half left i ws data)
      (fun i words ws => Awaited.push) hawaited count
  rcases hstill with hwaiting | hlanded
  · exact .inl hwaiting.blocks
  · rw [← hawait]
    exact .inr hlanded.receives_await

/-- The word at the end of a half is the last of its chunk. -/
theorem Holds.load_last (hholds : e.Holds half left i ws data) :
    ∃ last : Vector UInt64 1,
      i.destination.load (e.destination.offset half + e.destination.halfWords - 1) 1 = .ok last ∧
        (chunk data e.destination.halfWords)[e.destination.halfWords - 1]? =
          some (Window.only last) := by
  have hpositive := hholds.destination.positive
  have hrange := hholds.destination.offset_le half
  have hload : e.destination.offset half + e.destination.halfWords - 1 + 1 ≤
      i.destination.size := by
    omega
  refine ⟨_, dif_pos hload, ?_⟩
  have hposition : e.destination.offset half + (e.destination.halfWords - 1) =
      e.destination.offset half + e.destination.halfWords - 1 := by
    omega
  rw [← hholds.contents, Array.getElem?_toList, Array.getElem?_extract, if_pos (by
    simp only [Window.size] at hrange
    omega), hposition]
  simp [Window.only]

/-- The words of a half are those of its chunk. -/
theorem Holds.load_half (hholds : e.Holds half left i ws data) :
    ∃ words : Vector UInt64 e.destination.halfWords,
      i.destination.load (e.destination.offset half) e.destination.halfWords = .ok words ∧
        words.toList = chunk data e.destination.halfWords :=
  ⟨_, dif_pos (hholds.destination.offset_le half), hholds.contents⟩

/-- A half stays drainable whichever pieces come over. -/
theorem Drainable.pushAll (hdrainable : e.Drainable half left i ws data) (count : Nat) :
    e.Drainable half left (i.pushAll ((train ws).take count)) (ws.drop count) data :=
  pushAll_train (motive := fun i ws => e.Drainable half left i ws data)
    (fun _ _ _ => Drainable.push) hdrainable count

/-- Taking the chunk of an armed half replies with the chunk and its last word. -/
theorem Awaited.receives_takeChunk (hawaited : e.Awaited half left i ws data) :
    Receives (fun r i' later => ∃ last, r = .ok (last, chunk data e.destination.halfWords) ∧
        (chunk data e.destination.halfWords)[e.destination.halfWords - 1]? = some last ∧
          ∃ ws', later = train ws' ∧ e.Drainable half left i' ws' data)
      (e.takeChunk half) i (train ws) := by
  apply hawaited.receives_await.bind
  rintro r i' later ⟨rfl, ws', rfl, hdrainable⟩ count
  have hlater := hdrainable.pushAll count
  obtain ⟨last, hload, hlast⟩ := hlater.holds.load_last
  rw [drop_train]
  refine .inr ⟨.ok last, _, Inbound.steps_load hload, fun more => ?_⟩
  have hlater' := hlater.pushAll more
  obtain ⟨words, hload', hwords⟩ := hlater'.holds.load_half
  rw [drop_train]
  exact .inr ⟨.ok words, _, Inbound.steps_load hload', Window.only last, by rw [hwords], hlast, _,
    rfl, hlater'⟩

/-- Arming a half of an idle receiver makes the next chunk awaited there. -/
theorem ReceiveReady.receives_arm (hready : e.ReceiveReady i ws data) (half : Half) :
    Receives (fun _ i' later => ∃ ws', later = train ws' ∧ e.Awaited half none i' ws' data)
      (e.arm half) i (train ws) := by
  apply (Engine.receives_arm hready.quiet.1 hready.destination (.inl hready.unarmed) half).mono
  rintro _ i' later ⟨count, rfl, rfl⟩
  have hlater : e.ReceiveReady (i.pushAll ((train ws).take count)) (ws.drop count) data :=
    pushAll_train (motive := fun i ws => e.ReceiveReady i ws data)
      (fun _ _ _ => ReceiveReady.push) hready count
  refine ⟨ws.drop count, drop_train ws count, awaited_complete ?_ hlater.destination rfl ?_⟩
  · exact hlater.quiet.withAddress _
  · exact ⟨hlater.supplied.data, hlater.supplied.closed⟩

theorem Awaited.positive (hawaited : e.Awaited half left i ws data) :
    0 < e.destination.halfWords :=
  hawaited.elim (·.destination.positive) (·.holds.destination.positive)

/-- A turn of a reception whose full chunk does not end the layer drains it, arms the other half and
    goes on with the data behind it. -/
theorem Awaited.receives_open {post : Reception → Inbound → List Burst → Prop}
    {buffer : List UInt64} {bound : Nat} {before : List (List UInt64)}
    (hawaited : e.Awaited half left i ws data) (hfull : e.destination.halfWords ≤ data.length)
    (hopen : ∀ last, data[e.destination.halfWords - 1]? = some last → Word.endsLayer last = false)
    (hrest : ∀ i' ws', e.Awaited half.other none i' ws' (data.drop e.destination.halfWords) →
      Receives post (e.receiveChunks buffer bound half.other
        (data.take e.destination.halfWords :: before)) i' (train ws')) :
    Receives post (e.receiveChunks buffer (bound + 1) half before) i (train ws) := by
  apply hawaited.receives_takeChunk.bind
  rintro r i' later ⟨last, rfl, hlast, ws', rfl, hquiet, hholds⟩
  have hpositive := hholds.destination.positive
  rcases hholds.leaves with ⟨-, hunarmed, hsupplied⟩ | ⟨hshort, -⟩
  case inr => exact absurd hfull (Nat.not_le.2 hshort)
  rw [chunk, if_pos hfull] at hlast ⊢
  rw [List.getElem?_take, if_pos (Nat.sub_lt hpositive Nat.one_pos)] at hlast
  simp only [hopen last hlast, Bool.false_eq_true, if_false]
  have hready : e.ReceiveReady i' ws' (data.drop e.destination.halfWords) :=
    ⟨hquiet, hholds.destination, hunarmed, hsupplied⟩
  apply (hready.receives_arm half.other).bind
  rintro _ armed later ⟨ws'', rfl, hawaited'⟩
  exact hrest armed ws'' hawaited'

/-- A turn of a reception whose chunk ends the layer drains it and is the last. -/
theorem Awaited.receives_closing {buffer : List UInt64} {bound : Nat}
    {before : List (List UInt64)} (hawaited : e.Awaited half left i ws data)
    (hends : ∀ last, (chunk data e.destination.halfWords)[e.destination.halfWords - 1]? =
      some last → Word.endsLayer last = true) :
    Receives (fun r i' later =>
        r = ⟨buffer ++ (before.reverse.flatten ++ chunk data e.destination.halfWords),
          .complete ((before.reverse.flatten ++ chunk data e.destination.halfWords).length *
            wordBytes)⟩ ∧ ∃ ws', later = train ws' ∧ e.Drainable half left i' ws' data)
      (e.receiveChunks buffer (bound + 1) half before) i (train ws) := by
  apply hawaited.receives_takeChunk.bind
  rintro r i' later ⟨last, rfl, hlast, ws', rfl, hdrainable⟩
  simp only [hends last hlast, if_true]
  refine ⟨?_, ws', rfl, hdrainable⟩
  rw [List.reverse_cons, List.flatten_append, List.flatten_singleton]

/-- The receiving half after a layer: nothing is left of it. -/
structure Drained (e : Engine) (left : Option Arming) (i : Inbound) : Prop where
  quiet : i.port.Quiet e.mode
  destination : e.destination.Fits destinationBase i.destination.size
  words : i.words = []
  isOpen : i.closed = false
  armed : i.armed = none ∨ i.armed = left

/-- Chunk after chunk, a reception gives the echo of the data. -/
theorem receives_receiveChunks {buffer : List UInt64} {bound : Nat} {before : List (List UInt64)}
    (hopen : ChunksOpen e.destination.halfWords data)
    (hbound : data.length / e.destination.halfWords < bound)
    (hawaited : e.Awaited half left i ws data) :
    Receives (fun r i' later =>
        r = ⟨buffer ++ (before.reverse.flatten ++ echo e.destination.halfWords data),
          .complete ((before.reverse.flatten ++ echo e.destination.halfWords data).length *
            wordBytes)⟩ ∧ later = [] ∧ e.Drained left i')
      (e.receiveChunks buffer bound half before) i (train ws) := by
  induction bound generalizing data half left i ws before with
  | zero => exact absurd hbound (Nat.not_lt_zero _)
  | succ bound ih =>
    rcases Nat.lt_or_ge data.length e.destination.halfWords with hshort | hfull
    -- The last chunk is filled up to the idle word, which ends the layer.
    · apply (hawaited.receives_closing fun last hlast => ?_).mono
      · rintro r i' later ⟨rfl, ws', rfl, hquiet, hholds⟩
        rcases hholds.leaves with ⟨hfull, -⟩ | ⟨-, rfl, hunarmed, hempty, hclosed⟩
        · exact absurd hfull (Nat.not_le.2 hshort)
        · rw [echo_of_short hshort]
          exact ⟨rfl, rfl, hquiet, hholds.destination, hempty, hclosed, hunarmed⟩
      · rw [getElem?_chunk_of_short hshort] at hlast
        obtain rfl := Option.some.inj hlast
        decide
    · have hfewer :
          (data.drop e.destination.halfWords).length / e.destination.halfWords < bound := by
        rw [length_div_eq_of_le hawaited.positive hfull] at hbound
        exact Nat.lt_of_succ_lt_succ hbound
      have hrest : ((data.take e.destination.halfWords :: before).reverse.flatten ++
          echo e.destination.halfWords (data.drop e.destination.halfWords)) =
            before.reverse.flatten ++ echo e.destination.halfWords data := by
        rw [echo_of_le hawaited.positive hfull, List.reverse_cons, List.flatten_append,
          List.flatten_singleton, List.append_assoc]
      refine hawaited.receives_open hfull
        (fun last hlast => hopen 1 last Nat.one_pos (by rw [Nat.one_mul]; exact hlast))
        fun i' ws' hawaited' => ?_
      apply (ih hopen.drop hfewer hawaited').mono
      rw [hrest]
      rintro r final later ⟨hr, hlater, hdrained⟩
      exact ⟨hr, hlater, hdrained.quiet, hdrained.destination, hdrained.words, hdrained.isOpen,
        .inl ((or_self_iff).1 hdrained.armed)⟩

/-- What a reception has come to once it is over. -/
def Received (e : Engine) (left : Option Arming) (buffer data : List UInt64) (r : Reception)
    (i : Inbound) (later : List Burst) : Prop :=
  r = .echoed e.destination.halfWords buffer data ∧ later = [] ∧ e.Drained left i

/-- A reception into an armed half gives the echo of the data. -/
theorem Awaited.receives (hawaited : e.Awaited half left i ws data)
    (hopen : ChunksOpen e.destination.halfWords data) {bound : Nat}
    (hbound : data.length / e.destination.halfWords < bound) (buffer : List UInt64) :
    Receives (e.Received left buffer data) (e.receiveChunks buffer bound half []) i (train ws) := by
  apply (receives_receiveChunks hopen hbound hawaited).mono
  rintro r i' later ⟨rfl, hlater, hdrained⟩
  refine ⟨?_, hlater, hdrained⟩
  rw [Reception.echoed, ← length_echo hdrained.destination.positive]
  rfl

/-- A reception into an idle half gives the echo of the data, however it comes over. -/
theorem ReceiveReady.receives (hready : e.ReceiveReady i ws data)
    (hopen : ChunksOpen e.destination.halfWords data) {bound : Nat}
    (hbound : data.length / e.destination.halfWords < bound) (buffer : List UInt64) :
    Receives (e.Received none buffer data) (e.receive bound buffer) i (train ws) := by
  apply (hready.receives_arm .a).bind
  rintro _ armed later ⟨ws', rfl, hawaited⟩
  exact hawaited.receives hopen hbound buffer

end Programs

end DmaLink.Engine
