import DmaLink.Proofs.Loopback.Halves

namespace DmaLink

section Pieces

variable {α : Type} {size : Nat}

private theorem pieces_go (hsize : 0 < size) (bound : Nat) {fuel : Nat} {entries : List α}
    (before : List (List α)) (hbound : entries.length ≤ bound) (hfuel : entries.length ≤ fuel) :
    pieces.go size fuel entries before = before.reverse ++ pieces size entries := by
  induction bound generalizing fuel entries before with
  | zero =>
    obtain rfl := List.eq_nil_of_length_eq_zero (Nat.le_zero.1 hbound)
    cases fuel <;> simp [pieces, pieces.go]
  | succ bound ih =>
    cases entries with
    | nil => cases fuel <;> simp [pieces, pieces.go]
    | cons entry rest =>
      obtain ⟨fuel, rfl⟩ : ∃ less, fuel = less + 1 :=
        ⟨fuel - 1, by simp only [List.length_cons] at hfuel; omega⟩
      have hshorter : ((entry :: rest).drop size).length ≤ rest.length := by
        simp only [List.length_drop, List.length_cons]
        omega
      simp only [List.length_cons, Nat.add_le_add_iff_right] at hbound hfuel
      simp only [pieces, List.length_cons, pieces.go, List.isEmpty_cons, Bool.false_eq_true,
        if_false]
      rw [ih _ (Nat.le_trans hshorter hbound) (Nat.le_trans hshorter hfuel),
        ih _ (Nat.le_trans hshorter hbound) hshorter]
      simp

@[simp]
theorem pieces_nil : pieces size ([] : List α) = [] := rfl

/-- Pieces are the first of them and those of the rest. -/
theorem pieces_of_ne_nil (hsize : 0 < size) {entries : List α} (hentries : entries ≠ []) :
    pieces size entries = entries.take size :: pieces size (entries.drop size) := by
  obtain ⟨entry, rest, rfl⟩ := List.exists_cons_of_ne_nil hentries
  have hshorter : ((entry :: rest).drop size).length ≤ rest.length := by
    simp only [List.length_drop, List.length_cons]
    omega
  have hgo := pieces_go hsize _ [(entry :: rest).take size] (Nat.le_refl _) hshorter
  exact hgo

/-- What holds of the empty list and carries over to a list from what is left of it without its
    first piece holds of every list. -/
theorem pieces_induction {motive : List α → Prop} (hsize : 0 < size) (nil : motive [])
    (step : ∀ entries, entries ≠ [] → motive (entries.drop size) → motive entries)
    (entries : List α) : motive entries := by
  induction hlength : entries.length using Nat.strongRecOn generalizing entries with
  | ind length ih =>
    by_cases hentries : entries = []
    · rw [hentries]
      exact nil
    · refine step entries hentries (ih _ ?_ _ rfl)
      have := List.length_pos_iff.2 hentries
      rw [List.length_drop]
      omega

/-- Pieces put together are the row they were cut from. -/
theorem flatten_pieces (hsize : 0 < size) (entries : List α) :
    (pieces size entries).flatten = entries := by
  induction entries using pieces_induction hsize with
  | nil => rfl
  | step entries hentries ih =>
    rw [pieces_of_ne_nil hsize hentries, List.flatten_cons, ih, List.take_append_drop]

theorem length_pieces (hsize : 0 < size) (entries : List α) :
    (pieces size entries).length = (entries.length + size - 1) / size := by
  induction entries using pieces_induction hsize with
  | nil =>
    rw [pieces_nil, List.length_nil, List.length_nil, Nat.zero_add, Nat.div_eq_of_lt (by omega)]
  | step entries hentries ih =>
    have hpositive := List.length_pos_iff.2 hentries
    rw [pieces_of_ne_nil hsize hentries, List.length_cons, ih, List.length_drop]
    by_cases hlonger : size ≤ entries.length
    · have hsplit : entries.length + size - 1 = entries.length - size + size - 1 + size := by omega
      rw [hsplit, Nat.add_div_right _ hsize]
    · have hsplit : entries.length + size - 1 = entries.length - 1 + size := by omega
      rw [hsplit, Nat.add_div_right _ hsize, Nat.div_eq_of_lt (by omega),
        Nat.div_eq_of_lt (by omega)]

/-- No piece is longer than the size. -/
theorem length_le_of_mem_pieces (hsize : 0 < size) {entries piece : List α}
    (hpiece : piece ∈ pieces size entries) : piece.length ≤ size := by
  induction entries using pieces_induction hsize with
  | nil => simp at hpiece
  | step entries hentries ih =>
    rw [pieces_of_ne_nil hsize hentries, List.mem_cons] at hpiece
    rcases hpiece with rfl | hrest
    · rw [List.length_take]
      exact Nat.min_le_left _ _
    · exact ih hrest

theorem pieces_ne_nil (hsize : 0 < size) {entries : List α} (hentries : entries ≠ []) :
    pieces size entries ≠ [] := by
  rw [pieces_of_ne_nil hsize hentries]
  exact List.cons_ne_nil _ _

end Pieces

/-- The bursts that a row of pieces goes out as. -/
def train : List (List UInt64) → List Loopback.Burst
  | [] => []
  | words :: rest => ⟨words, if rest.isEmpty then .complete else .partway⟩ :: train rest

theorem train_eq_nil_iff {ws : List (List UInt64)} : train ws = [] ↔ ws = [] := by
  cases ws <;> simp [train]

@[simp]
theorem length_train (ws : List (List UInt64)) : (train ws).length = ws.length := by
  induction ws with
  | nil => rfl
  | cons words rest ih => rw [train, List.length_cons, ih, List.length_cons]

/-- The end of a train is the train of the last pieces. -/
theorem drop_train (ws : List (List UInt64)) (count : Nat) :
    (train ws).drop count = train (ws.drop count) := by
  induction ws generalizing count with
  | nil => simp [train]
  | cons words rest ih => cases count with
    | zero => rfl
    | succ count => exact ih count

/-- A train carries the words of its pieces. -/
theorem words_train (ws : List (List UInt64)) :
    (train ws).flatMap Loopback.Burst.words = ws.flatten := by
  induction ws with
  | nil => rfl
  | cons words rest ih => rw [train, List.flatMap_cons, ih, List.flatten_cons]

/-- The bursts of a train are partial up to the last, which is complete. -/
theorem modes_train {ws : List (List UInt64)} (hws : ws ≠ []) :
    (train ws).map Loopback.Burst.mode =
      List.replicate (ws.length - 1) .partway ++ [.complete] := by
  induction ws with
  | nil => exact absurd rfl hws
  | cons words rest ih => cases rest with
    | nil => rfl
    | cons next later =>
      rw [train, List.map_cons, ih (List.cons_ne_nil _ _)]
      rfl

/-- A train closes its layer. -/
theorem any_complete_train {ws : List (List UInt64)} (hws : ws ≠ []) :
    ((train ws).any fun burst => burst.mode == .complete) = true := by
  have hlast : OperatingMode.complete ∈ (train ws).map Loopback.Burst.mode := by
    rw [modes_train hws]
    exact List.mem_append_right _ (List.mem_singleton_self _)
  obtain ⟨burst, hburst, hmode⟩ := List.mem_map.1 hlast
  exact List.any_eq_true.2 ⟨burst, hburst, by rw [hmode]; rfl⟩

/-- What comes back for data: the data, zeros, and the idle word at the end of a chunk. -/
def echo (chunkWords : Nat) (data : List UInt64) : List UInt64 :=
  data ++ List.replicate (chunkWords * (data.length / chunkWords + 1) - 1 - data.length) 0 ++
    [Word.idle]

/-- The reception of a layer that brings data back behind the contents of a buffer. -/
def Reception.echoed (chunkWords : Nat) (buffer data : List UInt64) : Reception where
  buffer := buffer ++ echo chunkWords data
  ending := .complete (chunkWords * (data.length / chunkWords + 1) * wordBytes)

/-- No word at the end of a chunk of the data has the end bit set. -/
def ChunksOpen (chunkWords : Nat) (data : List UInt64) : Prop :=
  ∀ chunk word, 0 < chunk → data[chunk * chunkWords - 1]? = some word →
    Word.endsLayer word = false

section Echo

variable {chunkWords : Nat} {data : List UInt64}

/-- Data that does not fill a chunk comes back as one padded chunk. -/
theorem echo_of_short (hshort : data.length < chunkWords) :
    echo chunkWords data = Loopback.chunk data chunkWords := by
  rw [echo, Loopback.chunk, if_neg (Nat.not_le.2 hshort), Nat.div_eq_of_lt hshort, Nat.zero_add,
    Nat.mul_one]

/-- Once a full chunk has been taken, one fewer is to come. -/
theorem length_div_eq_of_le (hpositive : 0 < chunkWords) (hfills : chunkWords ≤ data.length) :
    data.length / chunkWords = (data.drop chunkWords).length / chunkWords + 1 := by
  rw [List.length_drop, ← Nat.add_div_right _ hpositive, Nat.sub_add_cancel hfills]

/-- The first full chunk comes back as it is, and the rest behind it. -/
theorem echo_of_le (hpositive : 0 < chunkWords) (hfills : chunkWords ≤ data.length) :
    echo chunkWords data = data.take chunkWords ++ echo chunkWords (data.drop chunkWords) := by
  have hzeros : chunkWords * (data.length / chunkWords + 1) - 1 - data.length =
      chunkWords * ((data.drop chunkWords).length / chunkWords + 1) - 1 -
        (data.drop chunkWords).length := by
    rw [length_div_eq_of_le hpositive hfills, Nat.mul_add _ (_ + 1), Nat.mul_one, List.length_drop]
    omega
  simp only [echo, hzeros, ← List.append_assoc, List.take_append_drop]

/-- An echo is whole chunks, one more than the data fills. -/
theorem length_echo (hpositive : 0 < chunkWords) (data : List UInt64) :
    (echo chunkWords data).length = chunkWords * (data.length / chunkWords + 1) := by
  have := Nat.lt_mul_div_succ data.length hpositive
  simp only [echo, List.length_append, List.length_replicate, List.length_singleton]
  omega

/-- Data without end bits is open at every chunk. -/
theorem chunksOpen_of_forall (hopen : ∀ word ∈ data, Word.endsLayer word = false) :
    ChunksOpen chunkWords data :=
  fun _ word _ hword => hopen word (List.mem_of_getElem? hword)

/-- Behind its first chunk the data is still open at every chunk. -/
theorem ChunksOpen.drop (hopen : ChunksOpen chunkWords data) :
    ChunksOpen chunkWords (data.drop chunkWords) := by
  intro chunk word hchunk hword
  apply hopen (chunk + 1) word (Nat.succ_pos chunk)
  rw [List.getElem?_drop] at hword
  by_cases hzero : chunkWords = 0
  · simpa [hzero] using hword
  · have hpositive : 0 < chunk * chunkWords := Nat.mul_pos hchunk (Nat.pos_of_ne_zero hzero)
    rw [← hword, Nat.succ_mul]
    congr 1
    omega

end Echo

end DmaLink
