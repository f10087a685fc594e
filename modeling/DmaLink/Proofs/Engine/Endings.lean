import DmaLink.Proofs.Engine.Session

namespace DmaLink.Engine

open Loopback

/-- The first chunk of the data whose last word has the end bit set is the `count`-th. -/
structure EndsAt (chunkWords count : Nat) (data : List UInt64) : Prop where
  positive : 0 < count
  openBefore : ∀ chunk word, 0 < chunk → chunk < count →
    data[chunk * chunkWords - 1]? = some word → Word.endsLayer word = false
  ends : ∃ word, data[count * chunkWords - 1]? = some word ∧ Word.endsLayer word = true

namespace EndsAt

variable {chunkWords count : Nat} {data : List UInt64}

/-- The data goes at least as far as the chunk that ends it. -/
theorem length_le (hends : EndsAt chunkWords count data) (hpositive : 0 < chunkWords) :
    count * chunkWords ≤ data.length := by
  obtain ⟨word, hword, -⟩ := hends.ends
  have hlast := (List.getElem?_eq_some_iff.1 hword).1
  have hproduct := Nat.mul_pos hends.positive hpositive
  omega

/-- Without its first chunk, which is not the last, the data ends one chunk earlier. -/
theorem drop (hends : EndsAt chunkWords (count + 1) data) (hmore : 0 < count)
    (hpositive : 0 < chunkWords) : EndsAt chunkWords count (data.drop chunkWords) := by
  have hplace {chunk : Nat} (hchunk : 0 < chunk) :
      chunkWords + (chunk * chunkWords - 1) = (chunk + 1) * chunkWords - 1 := by
    have hproduct := Nat.mul_pos hchunk hpositive
    rw [Nat.succ_mul]
    omega
  refine ⟨hmore, fun chunk word hchunk hbefore hword => ?_, ?_⟩
  · rw [List.getElem?_drop, hplace hchunk] at hword
    exact hends.openBefore (chunk + 1) word (Nat.succ_pos _) (Nat.succ_lt_succ hbefore) hword
  · rw [List.getElem?_drop, hplace hmore]
    exact hends.ends

end EndsAt

variable {e : Engine} {d : Loopback} {half : Half} {left : Option Arming} {i : Inbound}
  {ws : List (List UInt64)} {data : List UInt64} {count : Nat}

/-- Chunk after chunk, a reception gives the data up to the chunk that ends it. -/
theorem receives_receiveChunks_endsAt {bound : Nat} (buffer : List UInt64)
    (before : List (List UInt64)) (hends : EndsAt e.destination.halfWords count data)
    (hbound : count ≤ bound) (hawaited : e.Awaited half left i ws data) :
    Receives (fun r _ _ =>
        r = ⟨buffer ++ (before.reverse.flatten ++ data.take (count * e.destination.halfWords)),
          .complete ((before.reverse.flatten ++
            data.take (count * e.destination.halfWords)).length * wordBytes)⟩)
      (e.receiveChunks buffer bound half before) i (train ws) := by
  induction bound generalizing data half left i ws before count with
  | zero => exact absurd (Nat.lt_of_lt_of_le hends.positive hbound) (Nat.lt_irrefl 0)
  | succ bound ih =>
    have hpositive := hawaited.positive
    have hlong := hends.length_le hpositive
    obtain ⟨count, rfl⟩ : ∃ fewer, count = fewer + 1 := Nat.exists_eq_add_of_le' hends.positive
    have hfull : e.destination.halfWords ≤ data.length := by
      rw [Nat.succ_mul] at hlong
      omega
    rcases Nat.eq_zero_or_pos count with rfl | hmore
    -- This is the chunk that ends the data.
    · obtain ⟨word, hword, hmarked⟩ := hends.ends
      rw [Nat.zero_add, Nat.one_mul] at hword ⊢
      have hchunk : chunk data e.destination.halfWords = data.take e.destination.halfWords :=
        if_pos hfull
      apply (hawaited.receives_closing fun last hlast => ?_).mono
      · rintro r i' later ⟨rfl, -⟩
        rw [hchunk]
      · rw [hchunk, List.getElem?_take, if_pos (Nat.sub_lt hpositive Nat.one_pos), hword] at hlast
        obtain rfl := Option.some.inj hlast
        exact hmarked
    -- The data goes on behind this chunk.
    · have htake : data.take ((count + 1) * e.destination.halfWords) =
          data.take e.destination.halfWords ++
            (data.drop e.destination.halfWords).take (count * e.destination.halfWords) := by
        rw [Nat.succ_mul, Nat.add_comm, List.take_add]
      refine hawaited.receives_open hfull (fun last hlast => hends.openBefore 1 last Nat.one_pos
        (Nat.succ_lt_succ hmore) (by rw [Nat.one_mul]; exact hlast)) fun i' ws' hawaited' => ?_
      have hrest := ih (data.take e.destination.halfWords :: before)
        (hends.drop hmore hpositive) (Nat.le_of_succ_le_succ hbound) hawaited'
      rw [List.reverse_cons, List.flatten_append, List.flatten_singleton, List.append_assoc,
        ← htake] at hrest
      exact hrest

/-- A reception into an idle half gives data that ends at a full chunk as far as that chunk, however
    the data comes over. -/
theorem ReceiveReady.receives_endsAt (hready : e.ReceiveReady i ws data)
    (hends : EndsAt e.destination.halfWords count data) {bound : Nat} (hbound : count ≤ bound)
    (buffer : List UInt64) :
    Receives (fun r _ _ =>
        r = ⟨buffer ++ data.take (count * e.destination.halfWords),
          .complete (count * e.destination.halfWords * wordBytes)⟩)
      (e.receive bound buffer) i (train ws) := by
  have hlength : (data.take (count * e.destination.halfWords)).length =
      count * e.destination.halfWords :=
    List.length_take_of_le (hends.length_le hready.destination.positive)
  apply (hready.receives_arm .a).bind
  rintro _ armed later ⟨ws', rfl, hawaited⟩
  have hchunks := receives_receiveChunks_endsAt buffer [] hends hbound hawaited
  rwa [List.reverse_nil, List.flatten_nil, List.nil_append, hlength] at hchunks

end DmaLink.Engine
