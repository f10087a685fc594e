import DmaLink.Proofs.Layer.Delivery
import DmaLink.Proofs.Layer.Sizing

namespace DmaLink

namespace Layer

/-- A digit behind others is below the base, so that together they stay below the product. -/
theorem mul_add_lt {count base high low : Nat} (hhigh : high < count) (hlow : low < base) :
    high * base + low < count * base :=
  calc
    high * base + low < high * base + base := Nat.add_lt_add_left hlow _
    _ = (high + 1) * base := (Nat.succ_mul high base).symm
    _ ≤ count * base := Nat.mul_le_mul_right base hhigh

theorem eq_of_mul_add_eq {base high low high' low' : Nat} (hlow : low < base) (hlow' : low' < base)
    (hsame : high * base + low = high' * base + low') : high = high' ∧ low = low' := by
  have hlows := congrArg (· % base) hsame
  simp only [Nat.mul_add_mod', Nat.mod_eq_of_lt hlow, Nat.mod_eq_of_lt hlow'] at hlows
  rw [hlows] at hsame
  have hpositive : 0 < base := Nat.zero_lt_of_lt hlow
  exact ⟨Nat.eq_of_mul_eq_mul_right hpositive (Nat.add_right_cancel hsame), hlows⟩

namespace Shape

/-- A weight of a layer of this shape. -/
@[ext]
structure Index (s : Shape) where
  output : Fin s.outputChannels
  input : Fin s.inputChannels
  row : Fin s.kernelSide
  column : Fin s.kernelSide

variable {s : Shape}

namespace Index

/-- The place of a weight among those of its output channel. -/
def offset (i : s.Index) : Nat := (i.input * s.kernelSide + i.row) * s.kernelSide + i.column

/-- The place of a weight among all weights. -/
def place (i : s.Index) : Nat :=
  ((i.output * s.inputChannels + i.input) * s.kernelSide + i.row) * s.kernelSide + i.column

end Index

/-- The weights are those of one kernel for each output channel. -/
theorem weightCount_eq_mul (s : Shape) : s.weightCount = s.outputChannels * s.kernelSize := by
  simp only [weightCount, kernelSize, Nat.mul_assoc]

namespace Index

variable (i : s.Index)

theorem offset_lt : i.offset < s.kernelSize :=
  mul_add_lt (mul_add_lt i.input.isLt i.row.isLt) i.column.isLt

/-- An index lies within the weights. -/
theorem place_lt : i.place < s.weightCount :=
  mul_add_lt (mul_add_lt (mul_add_lt i.output.isLt i.input.isLt) i.row.isLt) i.column.isLt

/-- The weights of an output channel lie behind those of the channels before it. -/
theorem place_eq : i.place = i.output * s.kernelSize + i.offset := by
  simp only [place, offset, kernelSize, Nat.add_mul, Nat.mul_assoc, Nat.add_assoc]

/-- Two indices never share a place. -/
theorem place_injective : Function.Injective (place (s := s)) := by
  intro i j hsame
  obtain ⟨hlines, hcolumn⟩ := eq_of_mul_add_eq i.column.isLt j.column.isLt hsame
  obtain ⟨hkernels, hrow⟩ := eq_of_mul_add_eq i.row.isLt j.row.isLt hlines
  obtain ⟨houtput, hinput⟩ := eq_of_mul_add_eq i.input.isLt j.input.isLt hkernels
  exact Index.ext (Fin.ext houtput) (Fin.ext hinput) (Fin.ext hrow) (Fin.ext hcolumn)

/-- The digits of a place are the weight that lies there. -/
theorem exists_place_eq {place : Nat} (hplace : place < s.weightCount) :
    ∃ i : s.Index, i.place = place := by
  have hkernels : place / s.kernelSide / s.kernelSide < s.outputChannels * s.inputChannels := by
    rw [Nat.div_div_eq_div_mul]
    apply Nat.div_lt_of_lt_mul
    rwa [Nat.mul_comm, ← Nat.mul_assoc]
  have hside : 0 < s.kernelSide :=
    Nat.pos_of_ne_zero fun hzero => by simp [weightCount, hzero] at hplace
  have hinputs : 0 < s.inputChannels :=
    Nat.pos_of_ne_zero fun hzero => by simp [hzero] at hkernels
  refine ⟨⟨⟨place / s.kernelSide / s.kernelSide / s.inputChannels,
      Nat.div_lt_of_lt_mul (Nat.mul_comm _ _ ▸ hkernels)⟩,
    ⟨place / s.kernelSide / s.kernelSide % s.inputChannels, Nat.mod_lt _ hinputs⟩,
    ⟨place / s.kernelSide % s.kernelSide, Nat.mod_lt _ hside⟩,
    ⟨place % s.kernelSide, Nat.mod_lt _ hside⟩⟩, ?_⟩
  simp only [Index.place, Nat.div_add_mod']

end Index

theorem kernelSize_pos (hdocumented : s.Documented) : 1 ≤ s.kernelSize :=
  Nat.mul_pos (Nat.mul_pos hdocumented.inputChannels_pos hdocumented.kernelSide_pos)
    hdocumented.kernelSide_pos

/-- The output channels share out fewer weights than 64 bits count. -/
theorem mul_kernelSize_lt (hdocumented : s.Documented) :
    s.outputChannels * s.kernelSize < Size.limit := by
  rw [← weightCount_eq_mul]
  exact hdocumented.weights_lt

theorem kernelWords_eq (hdocumented : s.Documented) : s.kernelWords = .ok s.kernelSize := by
  have hfits : s.kernelSize < Size.limit :=
    calc
      s.kernelSize = 1 * s.kernelSize := (Nat.one_mul _).symm
      _ ≤ s.outputChannels * s.kernelSize :=
        Nat.mul_le_mul_right _ hdocumented.outputChannels_pos
      _ < Size.limit := mul_kernelSize_lt hdocumented
  exact (Size.mul_mul_eq_checked fun _ => hdocumented.kernelSide_pos).trans
    (Size.checked_of_lt hfits)

/-- The output channel whose slice would begin within what 64 bits count and end beyond. -/
def overrun (s : Shape) : Nat := (Size.limit - 1) / s.kernelSize

/-- The overrun is the one channel whose start can be told and whose end cannot. -/
theorem eq_overrun_iff (hdocumented : s.Documented) {output : Nat} :
    output = s.overrun ↔
      output * s.kernelSize < Size.limit ∧ Size.limit ≤ (output + 1) * s.kernelSize := by
  have hpositive := kernelSize_pos hdocumented
  have hlimit : 0 < Size.limit := by decide
  rw [eq_comm, overrun, Nat.div_eq_iff hpositive, Nat.succ_mul]
  omega

/-- The overrun lies behind every channel the layer has. -/
theorem le_overrun (hdocumented : s.Documented) : s.outputChannels ≤ s.overrun :=
  (Nat.le_div_iff_mul_le (kernelSize_pos hdocumented)).2
    (Nat.le_pred_of_lt (mul_kernelSize_lt hdocumented))

theorem overrun_lt (s : Shape) : s.overrun < 2 ^ 64 :=
  Nat.lt_of_le_of_lt (Nat.div_le_self _ _) (by decide)

/-- No step of computing the place of a weight exceeds the place. -/
theorem weightPlace_eq (hdocumented : s.Documented) (i : s.Index) :
    s.weightPlace i.output i.input i.row i.column = .ok i.place := by
  have hplace : i.place < Size.limit := Nat.lt_trans i.place_lt hdocumented.weights_lt
  have hside := hdocumented.kernelSide_pos
  have hkernels := Nat.le_mul_of_pos_right (i.output * s.inputChannels + i.input) hside
  have hlines := Nat.le_mul_of_pos_right
    ((i.output * s.inputChannels + i.input) * s.kernelSide + i.row) hside
  unfold Index.place at hplace
  simp only [weightPlace, bind_eq_ok_iff, Size.mul_eq_ok_iff, Size.add_eq_ok_iff]
  refine ⟨_, ⟨?_, rfl⟩, _, ⟨?_, rfl⟩, _, ⟨?_, rfl⟩, _, ⟨?_, rfl⟩, _, ⟨?_, rfl⟩, hplace, rfl⟩ <;>
    omega

end Shape

/-- Equal parts of a list, one after the other, are the list up to the end of the last. -/
theorem flatMap_slices {α : Type} (entries : List α) (width count : Nat) :
    (List.range count).flatMap (fun part => (entries.drop (part * width)).take width) =
      entries.take (count * width) := by
  induction count with
  | zero => simp
  | succ count ih =>
    rw [List.range_succ, List.flatMap_append, ih, Nat.succ_mul, List.take_add]
    simp

/-- The weights of an output channel as they lie among all weights. -/
def slice (l : Layer) (output : Nat) : List Int :=
  (l.weights.drop (output * l.kernelSize)).take l.kernelSize

/-- The weights of a layer that was read are those of one kernel for each output channel. -/
theorem Documented.length_eq_mul {l : Layer} (hdocumented : l.Documented) :
    l.weights.length = l.outputChannels * l.kernelSize :=
  hdocumented.weights_length.trans l.weightCount_eq_mul

/-- The output channels share out the weights among them. -/
theorem flatMap_slice {l : Layer} (hdocumented : l.Documented) :
    (List.range l.outputChannels).flatMap l.slice = l.weights := by
  have hslices := flatMap_slices l.weights l.kernelSize l.outputChannels
  rwa [← hdocumented.length_eq_mul, List.take_length] at hslices

/-- The kernel of a channel is a view of the weights. -/
theorem slice_getElem? (l : Layer) (i : l.Index) :
    (l.slice i.output)[i.offset]? = l.weights[i.place]? := by
  rw [slice, List.getElem?_take_of_lt i.offset_lt, List.getElem?_drop, i.place_eq]

/-- Every index of a layer that was read has a weight. -/
theorem Documented.exists_weight {l : Layer} (hdocumented : l.Documented) (i : l.Index) :
    ∃ weight, l.weights[i.place]? = some weight := by
  have hplace : i.place < l.weights.length := by
    rw [hdocumented.weights_length]
    exact i.place_lt
  exact ⟨_, List.getElem?_eq_getElem hplace⟩

/-- Looking up a weight and asking for it agree. -/
theorem weight?_eq_of_lookUp {l : Layer} {output input row column : Nat} {weight : Option Int}
    (hfound : l.lookUp output input row column = .ok weight) :
    l.weight? output input row column = weight := by
  rw [weight?, hfound]

/-- Looking up an index gives the weight at its place. -/
theorem Documented.lookUp_index {l : Layer} (hdocumented : l.Documented) (i : l.Index) :
    l.lookUp i.output i.input i.row i.column = .ok l.weights[i.place]? := by
  rw [lookUp, if_pos ⟨i.output.isLt, i.input.isLt, i.row.isLt, i.column.isLt⟩,
    Shape.weightPlace_eq hdocumented.toDocumented]
  rfl

theorem Documented.weight?_eq {l : Layer} (hdocumented : l.Documented) (i : l.Index) :
    l.weight? i.output i.input i.row i.column = l.weights[i.place]? :=
  weight?_eq_of_lookUp (hdocumented.lookUp_index i)

/-- A position out of range has no weight. -/
theorem lookUp_of_absent {l : Layer} {output input row column : Nat}
    (habsent : l.outputChannels ≤ output ∨ l.inputChannels ≤ input ∨ l.kernelSide ≤ row ∨
      l.kernelSide ≤ column) : l.lookUp output input row column = .ok none :=
  if_neg fun hpresent => by omega

/-- Looking up any position of a layer that was read never fails. -/
theorem Documented.lookUp_eq {l : Layer} (hdocumented : l.Documented)
    (output input row column : Nat) :
    l.lookUp output input row column = .ok (l.weight? output input row column) := by
  by_cases hpresent : output < l.outputChannels ∧ input < l.inputChannels ∧ row < l.kernelSide ∧
      column < l.kernelSide
  · obtain ⟨houtput, hinput, hrow, hcolumn⟩ := hpresent
    have hfound := hdocumented.lookUp_index ⟨⟨_, houtput⟩, ⟨_, hinput⟩, ⟨_, hrow⟩, ⟨_, hcolumn⟩⟩
    exact hfound.trans (congrArg Except.ok (weight?_eq_of_lookUp hfound).symm)
  · have habsent : l.lookUp output input row column = .ok none := lookUp_of_absent (by omega)
    exact habsent.trans (congrArg Except.ok (weight?_eq_of_lookUp habsent).symm)

/-- The slice of an output channel is found if the channel is there. If it is not, the slice would
    begin beyond what 64 bits count, or end there, or lie behind all weights. -/
theorem Documented.kernel?_eq {l : Layer} (hdocumented : l.Documented) (output : Nat) :
    l.kernel? output =
      if Size.limit ≤ output * l.kernelSize then .ok none
      else if Size.limit ≤ (output + 1) * l.kernelSize then .error .sumTooLarge
      else .ok (if output < l.outputChannels then some (l.slice output) else none) := by
  have hstop : output * l.kernelSize + l.kernelSize ≤ l.weights.length ↔
      output < l.outputChannels := by
    rw [hdocumented.length_eq_mul, ← Nat.succ_mul]
    exact Nat.mul_le_mul_right_iff (Shape.kernelSize_pos hdocumented.toDocumented)
  have hfound : (if output * l.kernelSize + l.kernelSize ≤ l.weights.length
      then (.ok (some (l.slice output)) : Except Trap (Option (List Int))) else .ok none) =
      .ok (if output < l.outputChannels then some (l.slice output) else none) := by
    simp only [hstop, apply_ite Except.ok]
  rw [kernel?, Shape.kernelWords_eq hdocumented.toDocumented, Nat.succ_mul, ← hfound]
  by_cases hbegins : Size.limit ≤ output * l.kernelSize
  · rw [if_pos hbegins]
    exact if_pos hbegins
  · rw [if_neg hbegins]
    refine (if_neg hbegins).trans ?_
    rcases Nat.lt_or_ge (output * l.kernelSize + l.kernelSize) Size.limit with hends | hends
    · rw [Size.add, if_pos hends, if_neg (Nat.not_le.2 hends)]
      rfl
    · rw [Size.add, if_neg (Nat.not_lt.2 hends), if_pos hends]
      rfl

/-- The slice of an output channel that is there ends within all weights. -/
theorem Documented.kernel?_of_lt {l : Layer} (hdocumented : l.Documented) {output : Nat}
    (houtput : output < l.outputChannels) : l.kernel? output = .ok (some (l.slice output)) := by
  have hends : (output + 1) * l.kernelSize < Size.limit :=
    Nat.lt_of_le_of_lt (Nat.mul_le_mul_right l.kernelSize houtput)
      (Shape.mul_kernelSize_lt hdocumented.toDocumented)
  have hbegins : output * l.kernelSize < Size.limit :=
    Nat.lt_of_le_of_lt (Nat.mul_le_mul_right l.kernelSize (Nat.le_succ output)) hends
  rw [hdocumented.kernel?_eq, if_neg (Nat.not_le.2 hbegins), if_neg (Nat.not_le.2 hends),
    if_pos houtput]

section Reading

open Source

theorem eq_of_cutOff_eq_ok_some {cut : Option Failure} {l : Layer}
    {result : Except LayerError (Option Layer)}
    (hcut : cutOff cut Option.isNone result = .ok (some l)) : result = .ok (some l) := by
  rcases result with cause | _ | layer
  · cases hcut
  · cases cut <;> cases hcut
  · exact hcut

/-- Every source is read as its bytes before a failure in one piece, save that it may fail where
    these end. -/
theorem exists_carries (s : Source) : ∃ t : Source, t.failure = none ∧ s.Carries s.cut t :=
  ⟨{ bytes := s.readable, position := s.position }, rfl, rfl, rfl, rfl, rfl⟩

variable {loader loader' : Loader} {l : Layer}

/-- A layer that a call of the loader gives is read from its source. -/
theorem exists_next_of_loader_next (hread : loader.next = (.ok (some l), loader')) :
    ∃ s', next loader.source = (.ok (some l), s') := by
  unfold Loader.next at hread
  split at hread
  · next layer source hnext =>
    cases hread
    exact ⟨source, hnext⟩
  · next result source _ hnext =>
    cases hread
    exact ⟨source, hnext⟩

/-- A layer that is read is documented, whatever source it is read from. -/
theorem documented_of_next (hread : loader.next = (.ok (some l), loader')) : l.Documented := by
  obtain ⟨s', hnext⟩ := exists_next_of_loader_next hread
  obtain ⟨t, hfailure, hcarries⟩ := exists_carries loader.source
  obtain ⟨result, s'', t', hs, ht, -⟩ := exists_next_eq hcarries
  rw [hnext] at hs
  rw [eq_of_cutOff_eq_ok_some (Prod.mk.inj hs).1.symm] at ht
  exact (bytes_of_next_some hfailure ht).2.1

/-- A layer of two output channels, each with twelve weights. -/
def twoKernels : Layer where
  layerType := 2
  compressed := false
  kernelSide := 2
  inputChannels := 3
  inputColumns := 5
  inputRows := 4
  outputChannels := 2
  pooled := false
  relu := true
  padding := 0
  outputColumns := 4
  outputRows := 3
  weights := [-12, -11, -10, -9, -8, -7, -6, -5, -4, -3, -2, -1,
    0, 1, 2, 3, 4, 5, 6, 7, 8, 9, 10, 11]
  biases := [100, 200]

theorem documented_twoKernels : twoKernels.Documented where
  kernelSide_pos := by decide
  inputChannels_pos := by decide
  outputChannels_pos := by decide
  outputColumns_eq := rfl
  outputColumns_pos := by decide
  outputRows_eq := rfl
  outputRows_pos := by decide
  weights_lt := by decide
  weights_length := rfl
  biases_length := rfl
  fits := by simp only [Bytes.FitsInt32]; decide

theorem exists_read_twoKernels :
    ∃ loader', Loader.next ⟨.ofBytes twoKernels.encode, 0⟩ = (.ok (some twoKernels), loader') := by
  have hbytes : (Source.ofBytes twoKernels.encode).bytes = twoKernels.encode ++ [] :=
    (List.append_nil _).symm
  obtain ⟨s', hnext, -⟩ := next_of_bytes_eq documented_twoKernels rfl hbytes
  exact ⟨_, Loader.next_of_layer hnext⟩

/-- Of a layer that is read, output channel, input channel, row and column address each weight
    exactly once. No lookup is abandoned. It finds the weight at the place that the four address,
    where the slice of the output channel has it too, and none if one of the four is out of range.
    The slices make up all weights. -/
theorem weights_addressed (hread : loader.next = (.ok (some l), loader')) :
    l.weights.length = l.outputChannels * l.inputChannels * l.kernelSide * l.kernelSide ∧
      l.biases.length = l.outputChannels ∧
      (∀ place < l.weights.length, ∃! i : l.Index, i.place = place) ∧
      (∀ output input row column,
        l.lookUp output input row column = .ok (l.weight? output input row column)) ∧
      (∃ slices : Nat → List Int,
        (∀ output < l.outputChannels, l.kernel? output = .ok (some (slices output))) ∧
        (List.range l.outputChannels).flatMap slices = l.weights ∧
        ∀ i : l.Index, ∃ weight,
          l.weightPlace i.output i.input i.row i.column = .ok i.place ∧
          l.weights[i.place]? = some weight ∧
          l.weight? i.output i.input i.row i.column = some weight ∧
          (slices i.output)[i.offset]? = some weight) ∧
      ∀ output input row column, l.outputChannels ≤ output ∨ l.inputChannels ≤ input ∨
          l.kernelSide ≤ row ∨ l.kernelSide ≤ column →
        l.weight? output input row column = none := by
  have hdocumented := documented_of_next hread
  refine ⟨hdocumented.weights_length, hdocumented.biases_length, ?_, hdocumented.lookUp_eq,
    ⟨l.slice, ?_, flatMap_slice hdocumented, ?_⟩, ?_⟩
  · intro place hplace
    rw [hdocumented.weights_length] at hplace
    obtain ⟨i, hi⟩ := Shape.Index.exists_place_eq hplace
    exact ⟨i, hi, fun j hj => Shape.Index.place_injective (hj.trans hi.symm)⟩
  · intro output houtput
    exact hdocumented.kernel?_of_lt houtput
  · intro i
    obtain ⟨weight, hweight⟩ := hdocumented.exists_weight i
    refine ⟨weight, Shape.weightPlace_eq hdocumented.toDocumented i, hweight, ?_, ?_⟩
    · rw [hdocumented.weight?_eq, hweight]
    · rw [slice_getElem?, hweight]
  · intro output input row column habsent
    exact weight?_eq_of_lookUp (lookUp_of_absent habsent)

/-- The weight 9 lies at place 21, which is place 9 of the second slice. -/
theorem weights_addressed_twoKernels :
    (∃ loader', Loader.next ⟨.ofBytes twoKernels.encode, 0⟩ = (.ok (some twoKernels), loader')) ∧
      twoKernels.weightPlace 1 2 0 1 = .ok 21 ∧ twoKernels.lookUp 1 2 0 1 = .ok (some 9) ∧
      (∃ slice, twoKernels.kernel? 1 = .ok (some slice) ∧ slice[9]? = some 9) ∧
      twoKernels.weight? 0 0 2 0 = none ∧
      twoKernels.weight? 18446744073709551615 2 1 1 = none := by
  obtain ⟨loader', hread⟩ := exists_read_twoKernels
  obtain ⟨-, -, -, hnever, ⟨slices, hslices, -, hfound⟩, habsent⟩ := weights_addressed hread
  obtain ⟨weight, hplace, hweight, hfinds, hslice⟩ :=
    hfound ⟨⟨1, by decide⟩, ⟨2, by decide⟩, ⟨0, by decide⟩, ⟨1, by decide⟩⟩
  obtain rfl : 9 = weight := Option.some.inj hweight
  have hlookUp := (hnever 1 2 0 1).trans (congrArg Except.ok hfinds)
  exact ⟨⟨loader', hread⟩, hplace, hlookUp, ⟨slices 1, hslices 1 (by decide), hslice⟩,
    habsent 0 0 2 0 (by decide), habsent _ 2 1 1 (by decide)⟩

/-- For an output channel that is not there no slice is found, save for the one whose slice would
    end beyond what 64 bits count: asking for that one is abandoned. -/
theorem slice_of_absent (hread : loader.next = (.ok (some l), loader')) :
    (∀ output, l.outputChannels ≤ output → output ≠ l.overrun → l.kernel? output = .ok none) ∧
      l.outputChannels ≤ l.overrun ∧ l.overrun < 2 ^ 64 ∧
      l.kernel? l.overrun = .error .sumTooLarge := by
  have hdocumented := documented_of_next hread
  have hshape := hdocumented.toDocumented
  refine ⟨fun output habsent hother => ?_, Shape.le_overrun hshape, l.overrun_lt, ?_⟩
  · rw [Ne, Shape.eq_overrun_iff hshape] at hother
    rw [hdocumented.kernel?_eq]
    split
    case isTrue => rfl
    case isFalse hbegins =>
      rw [if_neg fun hends => hother ⟨Nat.lt_of_not_le hbegins, hends⟩,
        if_neg (Nat.not_lt.2 habsent)]
  · obtain ⟨hbegins, hends⟩ := (Shape.eq_overrun_iff hshape).1 rfl
    rw [hdocumented.kernel?_eq, if_neg (Nat.not_le.2 hbegins), if_pos hends]

/-- Asking for the slice of one channel of 64 bits is abandoned. -/
theorem slice_of_absent_twoKernels :
    (∃ loader', Loader.next ⟨.ofBytes twoKernels.encode, 0⟩ = (.ok (some twoKernels), loader')) ∧
      twoKernels.kernel? 1537228672809129301 = .error .sumTooLarge ∧
      twoKernels.kernel? 2 = .ok none ∧ twoKernels.kernel? 18446744073709551615 = .ok none := by
  obtain ⟨loader', hread⟩ := exists_read_twoKernels
  obtain ⟨hnone, -, -, habandoned⟩ := slice_of_absent hread
  exact ⟨⟨loader', hread⟩, habandoned, hnone 2 (by decide) (by decide),
    hnone _ (by decide) (by decide)⟩

end Reading

end Layer

end DmaLink
