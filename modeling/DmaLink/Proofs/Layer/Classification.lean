import DmaLink.Proofs.Layer.Delivery
import DmaLink.Proofs.Layer.Validity

namespace DmaLink

namespace Layer

/-- The header that stands at the front of some bytes. -/
def Header.ofBytes (bytes : List UInt8) : Header := fun field =>
  Bytes.toInt32 ((bytes.drop (4 * field.position)).take 4)

/-- Making the header from the tokens of its bytes is reading it off the bytes. -/
theorem Header.ofTokens_int32s (bytes : List UInt8) :
    Header.ofTokens (Bytes.int32s HeaderField.all.length bytes) = .ofBytes bytes := by
  funext field
  cases field <;> simp [Header.ofTokens, Header.ofBytes, Bytes.int32s, HeaderField.all,
    HeaderField.position]

/-- How a record with a header that is accepted is answered when these bytes are left, and how many
    of them it takes. -/
structure Completes (left : List UInt8) (result : Except LayerError (Option Layer)) (taken : Nat) :
    Prop where
  weightless : (left.length - 44) / 4 < (Header.ofBytes left).weightCount →
    result = .error (.truncated (.weight ((left.length - 44) / 4))) ∧ taken = left.length
  biasless : (Header.ofBytes left).weightCount ≤ (left.length - 44) / 4 →
    (left.length - 44) / 4 < (Header.ofBytes left).weightCount + (Header.ofBytes left).biasCount →
      result = .error
        (.truncated (.bias ((left.length - 44) / 4 - (Header.ofBytes left).weightCount))) ∧
        taken = left.length
  layer : (Header.ofBytes left).weightCount + (Header.ofBytes left).biasCount ≤
      (left.length - 44) / 4 →
    (∃ l : Layer, result = .ok (some l) ∧ l.encode = left.take taken) ∧
      taken = 44 + 4 * ((Header.ofBytes left).weightCount + (Header.ofBytes left).biasCount)

/-- How a request for the next record is answered when these bytes are left, and how many of them it
    takes. -/
structure Answers (left : List UInt8) (result : Except LayerError (Option Layer)) (taken : Nat) :
    Prop where
  ended : left = [] → result = .ok none ∧ taken = 0
  headless : 1 ≤ left.length → left.length < 44 →
    result = .error (.truncated (.header (.atPosition (left.length / 4)))) ∧
      taken = left.length
  unsupported : 44 ≤ left.length → 1 < Header.ofBytes left .stride →
    result = .error (.unsupported (.stride (Header.ofBytes left .stride))) ∧ taken = 44
  invalid : 44 ≤ left.length → ¬1 < Header.ofBytes left .stride → ¬(Header.ofBytes left).Valid →
    (∃ why : Invalid, result = .error (.invalid why) ∧ why.Describes (.ofBytes left)) ∧ taken = 44
  valid : 44 ≤ left.length → (Header.ofBytes left).Valid → Completes left result taken

open Source

section Contents

variable {s : Source} {shape : Shape}

/-- When the bytes end among the weights, the first weight that is missing is named and every byte
    is taken. -/
theorem exists_readContents_weightless (hfailure : s.failure = none)
    (hshort : s.bytes.length / 4 < shape.weightCount) :
    ∃ s', readContents shape s = (.error (.truncated (.weight (s.bytes.length / 4))), s') ∧
      s.Advances s' s.bytes.length := by
  obtain ⟨s', hread, hadvances⟩ :=
    exists_readTokens_truncated .weight shape.weightCount 0 [] s hfailure (by omega)
  refine ⟨s', ?_, hadvances⟩
  rw [readContents, hread, Nat.zero_add]

/-- When the bytes end among the biases, the first bias that is missing is named and every byte is
    taken. -/
theorem exists_readContents_biasless (hfailure : s.failure = none)
    (hlong : shape.weightCount ≤ s.bytes.length / 4)
    (hshort : s.bytes.length / 4 < shape.weightCount + shape.outputChannels) :
    ∃ s', readContents shape s =
        (.error (.truncated (.bias (s.bytes.length / 4 - shape.weightCount))), s') ∧
      s.Advances s' s.bytes.length := by
  obtain ⟨s₁, hweights, hfirst⟩ :=
    exists_readTokens_ok .weight shape.weightCount 0 [] s hfailure (by omega)
  have hrest := hfirst.length_eq hfailure
  obtain ⟨s₂, hbiases, hlater⟩ := exists_readTokens_truncated .bias shape.outputChannels 0 [] s₁
    (hfirst.failure_none hfailure) (by omega)
  refine ⟨s₂, ?_, ?_⟩
  · have hindex : 0 + s₁.bytes.length / 4 = s.bytes.length / 4 - shape.weightCount := by omega
    rw [readContents, hweights]
    dsimp only
    rw [hbiases, hindex]
  · have hcount : 4 * shape.weightCount + s₁.bytes.length = s.bytes.length := by omega
    rw [← hcount]
    exact hfirst.trans hlater

/-- With bytes enough for the weights and the biases a layer is read, and just their bytes are
    taken. -/
theorem exists_readContents_ok (hfailure : s.failure = none)
    (hlong : shape.weightCount + shape.outputChannels ≤ s.bytes.length / 4) :
    ∃ l s', readContents shape s = (.ok l, s') ∧
      s.Advances s' (4 * (shape.weightCount + shape.outputChannels)) := by
  obtain ⟨s₁, hweights, hfirst⟩ :=
    exists_readTokens_ok .weight shape.weightCount 0 [] s hfailure (by omega)
  have hrest := hfirst.length_eq hfailure
  obtain ⟨s₂, hbiases, hlater⟩ := exists_readTokens_ok .bias shape.outputChannels 0 [] s₁
    (hfirst.failure_none hfailure) (by omega)
  refine ⟨⟨shape, Bytes.int32s shape.weightCount s.bytes,
    Bytes.int32s shape.outputChannels s₁.bytes⟩, s₂, ?_, ?_⟩
  · rw [readContents, hweights]
    dsimp only
    rw [hbiases]
    rfl
  · rw [Nat.mul_add]
    exact hfirst.trans hlater

end Contents

section Records

variable {s : Source}

/-- Past its first token a call answers with what the rest of the record gives. -/
theorem next_of_readRecord {layerType : Int} {s₁ s₂ : Source} {result : Except LayerError Layer}
    (htoken : firstToken s = (.ok (some layerType), s₁))
    (hrecord : readRecord layerType s₁ = (result, s₂)) :
    next s = (result.map some, s₂) := by
  rw [next, htoken]
  dsimp only
  rw [hrecord]
  cases result <;> rfl

/-- Bytes that are too few for a header are all taken, and the field at which they end is named. -/
theorem exists_next_headless (hfailure : s.failure = none) (hpositive : 1 ≤ s.bytes.length)
    (hshort : s.bytes.length < 44) :
    ∃ s', next s = (.error (.truncated (.header (.atPosition (s.bytes.length / 4)))), s') ∧
      s.Advances s' s.bytes.length := by
  by_cases hlong : 4 ≤ s.bytes.length
  · obtain ⟨s₁, htoken, hfirst⟩ := exists_firstToken_ok hfailure hlong
    have hrest := hfirst.length_eq hfailure
    have hfields : HeaderField.all.length - 1 = 10 := rfl
    obtain ⟨s₂, hread, hlater⟩ := exists_readTokens_truncated (fun i => .header (.atPosition i))
      (HeaderField.all.length - 1) 1 [Bytes.toInt32 (s.bytes.take 4)] s₁
      (hfirst.failure_none hfailure) (by omega)
    have hindex : 1 + s₁.bytes.length / 4 = s.bytes.length / 4 := by omega
    have hcount : 4 + s₁.bytes.length = s.bytes.length := by omega
    rw [hindex] at hread
    have hrecord : readRecord (Bytes.toInt32 (s.bytes.take 4)) s₁ =
        (.error (.truncated (.header (.atPosition (s.bytes.length / 4)))), s₂) := by
      rw [readRecord, hread]
    exact ⟨s₂, next_of_readRecord htoken hrecord, hcount ▸ hfirst.trans hlater⟩
  · obtain ⟨s₁, htoken, hfirst⟩ :=
      exists_firstToken_truncated hfailure hpositive (Nat.not_le.1 hlong)
    refine ⟨s₁, ?_, hfirst⟩
    have hindex : s.bytes.length / 4 = 0 := by omega
    rw [next, htoken, hindex]
    rfl

/-- A header is read if its bytes are there. -/
theorem exists_header (hfailure : s.failure = none) (hlong : 44 ≤ s.bytes.length) :
    ∃ s₁ s₂, firstToken s = (.ok (some (Bytes.toInt32 (s.bytes.take 4))), s₁) ∧
      readTokens (fun i => .header (.atPosition i)) (HeaderField.all.length - 1) 1
          [Bytes.toInt32 (s.bytes.take 4)] s₁ =
        (.ok (Bytes.int32s HeaderField.all.length s.bytes), s₂) ∧
      s.Advances s₂ 44 := by
  obtain ⟨s₁, htoken, hfirst⟩ := exists_firstToken_ok hfailure (by omega)
  have hrest := hfirst.length_eq hfailure
  obtain ⟨s₂, hread, hlater⟩ := exists_readTokens_ok (fun i => .header (.atPosition i))
    (HeaderField.all.length - 1) 1 [Bytes.toInt32 (s.bytes.take 4)] s₁
    (hfirst.failure_none hfailure) (by rw [hrest]; exact Nat.le_sub_of_add_le hlong)
  refine ⟨s₁, s₂, htoken, ?_, hfirst.trans hlater⟩
  rw [hread, hfirst.bytes_eq hfailure]
  rfl

/-- A header that is refused is the last that is read of its record. -/
theorem exists_next_refused (hfailure : s.failure = none) (hlong : 44 ≤ s.bytes.length)
    {cause : LayerError} (hcheck : (Header.ofBytes s.bytes).check = .error cause) :
    ∃ s', next s = (.error cause, s') ∧ s.Advances s' 44 := by
  obtain ⟨s₁, s₂, htoken, hread, hadvances⟩ := exists_header hfailure hlong
  have hrecord : readRecord (Bytes.toInt32 (s.bytes.take 4)) s₁ = (.error cause, s₂) := by
    rw [readRecord, hread]
    dsimp only
    rw [Header.ofTokens_int32s, hcheck]
  exact ⟨s₂, next_of_readRecord htoken hrecord, hadvances⟩

/-- Behind a header that is accepted the weights and biases of its shape are read. -/
theorem exists_next_accepted (hfailure : s.failure = none) (hlong : 44 ≤ s.bytes.length)
    {shape : Shape} (hcheck : (Header.ofBytes s.bytes).check = .ok shape) :
    ∃ s₁, s.Advances s₁ 44 ∧ ∀ result s', readContents shape s₁ = (result, s') →
      next s = (result.map some, s') := by
  obtain ⟨s₁, s₂, htoken, hread, hadvances⟩ := exists_header hfailure hlong
  refine ⟨s₂, hadvances, fun result s' hcontents => next_of_readRecord htoken ?_⟩
  rw [readRecord, hread]
  dsimp only
  rw [Header.ofTokens_int32s, hcheck]
  exact hcontents

/-- Too few bytes for a header are taken whatever they are. -/
theorem exists_answers_of_short (hfailure : s.failure = none) (hshort : s.bytes.length < 44) :
    ∃ result s', next s = (result, s') ∧ s.Advances s' s.bytes.length ∧
      Answers s.bytes result s.bytes.length := by
  by_cases hover : s.bytes = []
  · obtain ⟨s', htoken, hadvances⟩ := exists_firstToken_none hfailure hover
    refine ⟨.ok none, s', by rw [next, htoken], ?_, ?_⟩
    · rwa [hover]
    · rw [hover]
      have hnone (bound : Nat) : ¬bound + 1 ≤ ([] : List UInt8).length := Nat.not_succ_le_zero bound
      exact ⟨fun _ => ⟨rfl, rfl⟩, (absurd · (hnone 0)), (absurd · (hnone 43)),
        (absurd · (hnone 43)), (absurd · (hnone 43))⟩
  · have hpositive := List.length_pos_iff.2 hover
    obtain ⟨s', hnext, hadvances⟩ := exists_next_headless hfailure hpositive hshort
    refine ⟨_, s', hnext, hadvances, ?_⟩
    have hheadless : ¬44 ≤ s.bytes.length := Nat.not_le.2 hshort
    exact ⟨(absurd · hover), fun _ _ => ⟨rfl, rfl⟩, (absurd · hheadless), (absurd · hheadless),
      (absurd · hheadless)⟩

/-- A header that is refused is answered with the reason, and no byte behind it is taken. -/
theorem exists_answers_of_refused (hfailure : s.failure = none) (hlong : 44 ≤ s.bytes.length)
    (hinvalid : ¬(Header.ofBytes s.bytes).Valid) :
    ∃ result s', next s = (result, s') ∧ s.Advances s' 44 ∧ Answers s.bytes result 44 := by
  have hover : s.bytes ≠ [] := List.length_pos_iff.1 (by omega)
  have hheadless : ¬s.bytes.length < 44 := Nat.not_lt.2 hlong
  obtain ⟨hvalid, -⟩ | ⟨hstride, hcheck⟩ | ⟨hstride, -, why, hcheck, hdescribes⟩ :=
    (Header.ofBytes s.bytes).check_spec
  · exact absurd hvalid hinvalid
  · obtain ⟨s', hnext, hadvances⟩ := exists_next_refused hfailure hlong hcheck
    exact ⟨_, s', hnext, hadvances, (absurd · hover), fun _ => (absurd · hheadless),
      fun _ _ => ⟨rfl, rfl⟩, fun _ => (absurd hstride ·), fun _ => (absurd · hinvalid)⟩
  · obtain ⟨s', hnext, hadvances⟩ := exists_next_refused hfailure hlong hcheck
    exact ⟨_, s', hnext, hadvances, (absurd · hover), fun _ => (absurd · hheadless),
      fun _ => (absurd · hstride), fun _ _ _ => ⟨⟨why, rfl, hdescribes⟩, rfl⟩,
      fun _ => (absurd · hinvalid)⟩

/-- The bytes that a request takes to return a layer are the layer's record. -/
theorem encode_of_next_some (hfailure : s.failure = none) {l : Layer} {s' : Source} {taken : Nat}
    (hnext : next s = (.ok (some l), s')) (hadvances : s.Advances s' taken) :
    l.encode = s.bytes.take taken := by
  obtain ⟨-, -, hbytes⟩ := bytes_of_next_some hfailure hnext
  rw [hadvances.bytes_eq hfailure] at hbytes
  exact List.append_cancel_right (hbytes.symm.trans (List.take_append_drop taken s.bytes).symm)

/-- Behind a valid header the weights and biases are taken that it announces, or all bytes if these
    are too few. -/
theorem exists_completes (hfailure : s.failure = none) (hlong : 44 ≤ s.bytes.length)
    (hvalid : (Header.ofBytes s.bytes).Valid) :
    ∃ result s' taken, next s = (result, s') ∧ s.Advances s' taken ∧ 44 ≤ taken ∧
      taken ≤ s.bytes.length ∧ Completes s.bytes result taken := by
  obtain ⟨shape, hcheck, hweights, hbiases⟩ := hvalid.check_eq_ok
  obtain ⟨s₁, hheader, hnext⟩ := exists_next_accepted hfailure hlong hcheck
  have hfailure₁ := hheader.failure_none hfailure
  have hrest := hheader.length_eq hfailure
  have hall : 44 + s₁.bytes.length = s.bytes.length := by omega
  rcases Nat.lt_or_ge (s₁.bytes.length / 4) shape.weightCount with hfew | hmany
  · obtain ⟨s', hread, hlater⟩ := exists_readContents_weightless hfailure₁ hfew
    rw [hrest, hweights] at hfew
    rw [hrest] at hread
    refine ⟨_, s', s.bytes.length, hnext _ s' hread, hall ▸ hheader.trans hlater, hlong,
      Nat.le_refl _, fun _ => ⟨rfl, rfl⟩, fun hmany => ?_, fun hmany => ?_⟩
    · omega
    · omega
  rcases Nat.lt_or_ge (s₁.bytes.length / 4) (shape.weightCount + shape.outputChannels) with
    hfew | hall'
  · obtain ⟨s', hread, hlater⟩ := exists_readContents_biasless hfailure₁ hmany hfew
    rw [hrest, hweights] at hmany hread
    rw [hrest, hweights, hbiases] at hfew
    refine ⟨_, s', s.bytes.length, hnext _ s' hread, hall ▸ hheader.trans hlater, hlong,
      Nat.le_refl _, fun hnone => ?_, fun _ _ => ⟨rfl, rfl⟩, fun hmore => ?_⟩
    · omega
    · omega
  · obtain ⟨l, s', hread, hlater⟩ := exists_readContents_ok hfailure₁ hall'
    have hadvances := hheader.trans hlater
    rw [hweights, hbiases] at hadvances hall'
    have hlayer := hnext _ s' hread
    refine ⟨_, s', _, hlayer, hadvances, Nat.le_add_right _ _, by omega, fun hfew => ?_,
      fun _ hfew => ?_, fun _ => ⟨⟨l, rfl, encode_of_next_some hfailure hlayer hadvances⟩, rfl⟩⟩
    · omega
    · omega

/-- A request for the next record is answered as the bytes that are left decide, and takes at least
    one of them if there are any. -/
theorem exists_answers (hfailure : s.failure = none) :
    ∃ result s' taken, next s = (result, s') ∧ s.Advances s' taken ∧ taken ≤ s.bytes.length ∧
      (s.bytes ≠ [] → 1 ≤ taken) ∧ Answers s.bytes result taken := by
  rcases Nat.lt_or_ge s.bytes.length 44 with hshort | hlong
  · obtain ⟨result, s', hnext, hadvances, hanswers⟩ := exists_answers_of_short hfailure hshort
    exact ⟨result, s', _, hnext, hadvances, Nat.le_refl _, List.length_pos_iff.2, hanswers⟩
  by_cases hvalid : (Header.ofBytes s.bytes).Valid
  · obtain ⟨result, s', taken, hnext, hadvances, hheader, hle, hcompletes⟩ :=
      exists_completes hfailure hlong hvalid
    refine ⟨result, s', taken, hnext, hadvances, hle, fun _ => by omega, ?_⟩
    have hstride := hvalid.stride_eq
    exact {
      ended := fun hover => absurd hover (List.length_pos_iff.1 (by omega))
      headless := fun _ hshort => absurd hlong (Nat.not_le.2 hshort)
      unsupported := fun _ hwide => by omega
      invalid := fun _ _ hinvalid => absurd hvalid hinvalid
      valid := fun _ _ => hcompletes }
  · obtain ⟨result, s', hnext, hadvances, hanswers⟩ :=
      exists_answers_of_refused hfailure hlong hvalid
    exact ⟨result, s', 44, hnext, hadvances, hlong, fun _ => by decide, hanswers⟩

end Records

/-- How many records an answer returns. -/
def returned : Except LayerError (Option Layer) → Nat
  | .ok (some _) => 1
  | _ => 0

/-- The loader after so many requests. -/
def Loader.after (l : Loader) : (count : Nat) → Loader
  | 0 => l
  | count + 1 => (l.after count).next.2

section Requests

variable {l : Loader}

/-- A request of a loader is answered as the bytes that are left decide, and counts a record exactly
    if it returns one. -/
theorem Loader.exists_answers (hfailure : l.source.failure = none) :
    ∃ taken, l.source.Advances l.next.2.source taken ∧ taken ≤ l.source.bytes.length ∧
      (l.source.bytes ≠ [] → 1 ≤ taken) ∧ Answers l.source.bytes l.next.1 taken ∧
      l.next.2.layersRead = l.layersRead + returned l.next.1 := by
  obtain ⟨result, s', taken, hnext, hadvances, hle, hpositive, hanswers⟩ :=
    Layer.exists_answers hfailure
  refine ⟨taken, ?_⟩
  rcases result with cause | _ | layer
  · rw [Loader.next_of_no_layer hnext nofun]
    exact ⟨hadvances, hle, hpositive, hanswers, rfl⟩
  · rw [Loader.next_of_no_layer hnext nofun]
    exact ⟨hadvances, hle, hpositive, hanswers, rfl⟩
  · rw [Loader.next_of_layer hnext]
    exact ⟨hadvances, hle, hpositive, hanswers, rfl⟩

/-- Every request takes bytes off the front, as long as there are any. -/
theorem Loader.exists_advances_after (hfailure : l.source.failure = none) (count : Nat) :
    ∃ before, l.source.Advances (l.after count).source before ∧
      before ≤ l.source.bytes.length ∧ (before < count → before = l.source.bytes.length) := by
  induction count with
  | zero => exact ⟨0, l.source.advances_zero l.source.calls, Nat.zero_le _, nofun⟩
  | succ count ih =>
    obtain ⟨before, hbefore, hle, hover⟩ := ih
    obtain ⟨taken, htaken, hleft, hpositive, -⟩ :=
      Loader.exists_answers (hbefore.failure_none hfailure)
    rw [hbefore.length_eq hfailure] at hleft
    rw [← List.length_pos_iff, hbefore.length_eq hfailure] at hpositive
    exact ⟨before + taken, hbefore.trans htaken, by omega, fun hfew => by omega⟩

end Requests

/-- However often a record has been asked for, the source stands behind the bytes taken by then, and
    what is left decides how the next request is answered and how many bytes it takes. It takes at
    least one if there are any, so that in the end every request is told that there is no more. -/
theorem requests_classified (s : Source) (hfailure : s.failure = none) (layersRead count : Nat) :
    let l := Loader.after ⟨s, layersRead⟩ count
    (∃ before, before ≤ s.bytes.length ∧ l.source.bytes = s.bytes.drop before ∧
        l.source.position = s.position + before) ∧
      (∃ taken, Answers l.source.bytes l.next.1 taken ∧ taken ≤ l.source.bytes.length ∧
        (l.source.bytes ≠ [] → 1 ≤ taken) ∧
        l.next.2.source.bytes = l.source.bytes.drop taken ∧
        l.next.2.source.position = l.source.position + taken) ∧
      l.next.2.layersRead = l.layersRead + returned l.next.1 ∧
      (s.bytes.length ≤ count → l.next.1 = .ok none) := by
  intro l
  obtain ⟨before, hbefore, hle, hover⟩ : ∃ before, s.Advances l.source before ∧
      before ≤ s.bytes.length ∧ (before < count → before = s.bytes.length) :=
    Loader.exists_advances_after (l := ⟨s, layersRead⟩) hfailure count
  have hfailure' := hbefore.failure_none hfailure
  obtain ⟨taken, htaken, hleft, hpositive, hanswers, hcounted⟩ := Loader.exists_answers hfailure'
  refine ⟨⟨before, hle, hbefore.bytes_eq hfailure, hbefore.position_eq⟩,
    ⟨taken, hanswers, hleft, hpositive, htaken.bytes_eq hfailure', htaken.position_eq⟩, hcounted,
    fun hcount => (hanswers.ended ?_).1⟩
  apply List.eq_nil_of_length_eq_zero
  rw [hbefore.length_eq hfailure]
  omega

/-- A header with a stride of two, a record of one weight and one bias, and two bytes, with every
    fifth call interrupted. -/
def strayBytes : Source :=
  { bytes := [0, 0, 1, 1, 1, 1, 1, 0, 0, 0, 2, 0, 0, 1, 1, 1, 1, 1, 0, 0, 0, 1, 7, 9].flatMap
      Bytes.ofInt32 ++ [5, 6], interruptEvery := 5 }

theorem valid_strayBytes : (Header.ofBytes (strayBytes.bytes.drop 44)).Valid where
  stride_eq := by decide
  flag := by decide
  positive := by decide
  nonneg := by decide
  side_pos axis := by cases axis <;> decide
  weights_lt := by decide

/-- Behind the refused header the record is read, and the two bytes are no header. -/
theorem requests_classified_strayBytes :
    strayBytes.failure = none ∧
      (Loader.after ⟨strayBytes, 0⟩ 0).next.1 = .error (.unsupported (.stride 2)) ∧
      (∃ l, (Loader.after ⟨strayBytes, 0⟩ 1).next.1 = .ok (some l)) ∧
      (Loader.after ⟨strayBytes, 0⟩ 2).next.1 = .error (.truncated (.header .layerType)) ∧
      (Loader.after ⟨strayBytes, 0⟩ 3).layersRead = 1 := by
  obtain ⟨-, ⟨taken, hfirst, -, -, hrest, -⟩, hcounted, -⟩ :=
    requests_classified strayBytes rfl 0 0
  obtain ⟨hrefused, rfl⟩ := hfirst.unsupported (by decide) (by decide)
  obtain ⟨-, ⟨taken', hsecond, -, -, hrest', -⟩, hcounted', -⟩ :=
    requests_classified strayBytes rfl 0 1
  have hleft : (Loader.after ⟨strayBytes, 0⟩ 1).source.bytes = strayBytes.bytes.drop 44 := hrest
  rw [hleft] at hsecond hrest'
  obtain ⟨⟨l, hlayer, -⟩, rfl⟩ := (hsecond.valid (by decide) valid_strayBytes).layer (by decide)
  obtain ⟨-, ⟨taken'', hthird, -⟩, hcounted'', -⟩ := requests_classified strayBytes rfl 0 2
  have hleft' : (Loader.after ⟨strayBytes, 0⟩ 2).source.bytes = [5, 6] := hrest'
  rw [hleft'] at hthird
  obtain ⟨hheadless, -⟩ := hthird.headless (by decide) (by decide)
  rw [hrefused] at hcounted
  rw [hlayer] at hcounted'
  rw [hheadless] at hcounted''
  have hone : (Loader.after ⟨strayBytes, 0⟩ 2).layersRead = 1 :=
    hcounted'.trans (congrArg (· + 1) hcounted)
  exact ⟨rfl, hrefused, ⟨l, hlayer⟩, hheadless, hcounted''.trans hone⟩

end Layer

end DmaLink
