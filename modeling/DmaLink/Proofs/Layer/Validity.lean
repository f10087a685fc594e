import DmaLink.Proofs.Layer.Format

namespace DmaLink.Layer

namespace HeaderField

/-- The fields that must be 0 or 1. -/
def flags : List HeaderField := [.compression, .pooling, .relu]

/-- The fields that must be positive. -/
def counts : List HeaderField := [.kernelSide, .inputChannels, .outputChannels]

/-- The fields that must not be negative. -/
def amounts : List HeaderField := [.layerType, .inputColumns, .inputRows, .padding]

end HeaderField

/-- The side of the input that a side of the output comes from. -/
def Axis.input : Axis → HeaderField
  | .columns => .inputColumns
  | .rows => .inputRows

namespace Header

/-- The number of weights that a header announces. -/
def weightCount (h : Header) : Nat :=
  (h .outputChannels * h .inputChannels * h .kernelSide * h .kernelSide).toNat

/-- The number of biases that a header announces. -/
def biasCount (h : Header) : Nat := (h .outputChannels).toNat

/-- A side of the output that a header announces. -/
def side (h : Header) (axis : Axis) : Int :=
  (h axis.input - h .kernelSide + 1 + 2 * h .padding).tdiv (h .pooling + 1)

/-- The conditions that a header meets to be accepted. -/
structure Valid (h : Header) : Prop where
  stride_eq : h .stride = 1
  flag : ∀ field ∈ HeaderField.flags, h field = 0 ∨ h field = 1
  positive : ∀ field ∈ HeaderField.counts, 1 ≤ h field
  nonneg : ∀ field ∈ HeaderField.amounts, 0 ≤ h field
  side_pos : ∀ axis, 1 ≤ h.side axis
  weights_lt : h.weightCount < 2 ^ 64

variable {h : Header}

/-- No field of a valid header is negative. -/
theorem Valid.nonneg_all (hvalid : h.Valid) (field : HeaderField) : 0 ≤ h field := by
  have hflag := hvalid.flag field
  have hpositive := hvalid.positive field
  have hamount := hvalid.nonneg field
  have hstride := hvalid.stride_eq
  cases field <;> simp [HeaderField.flags, HeaderField.counts, HeaderField.amounts] at * <;> omega

theorem weightCount_eq {outputs inputs kernel : Nat} (houtputs : h .outputChannels = outputs)
    (hinputs : h .inputChannels = inputs) (hkernel : h .kernelSide = kernel) :
    h.weightCount = outputs * inputs * kernel * kernel := by
  rw [weightCount, houtputs, hinputs, hkernel]
  norm_cast

theorem side_eq {axis : Axis} {input kernel padding : Nat} {pooled : Bool}
    (hinput : h axis.input = input) (hkernel : h .kernelSide = kernel)
    (hpadding : h .padding = padding) (hpooled : h .pooling = pooled.toInt) :
    h.side axis = sideOf input kernel padding pooled := by
  rw [side, sideOf, hinput, hkernel, hpadding, hpooled]
  cases pooled <;> rfl

end Header

/-- What a reason for refusing a header says of it. -/
def Invalid.Describes (h : Header) : Invalid → Prop
  | .stride value => value = h .stride ∧ value < 1
  | .negative field value => value = h field ∧ value < 0
  | .zero field => field ∈ HeaderField.counts ∧ h field = 0
  | .noFlag field value =>
    field ∈ HeaderField.flags ∧ value = h field ∧ value ≠ 0 ∧ value ≠ 1
  | .outputSide axis side input kernel padding =>
    input = h axis.input ∧ kernel = h .kernelSide ∧ padding = h .padding ∧ side = h.side axis ∧
      side ≤ 0
  | .weightCount => 2 ^ 64 ≤ h.weightCount
  | .stated _ => False

namespace Header

variable {α β : Type} {h : Header}

/-- A header with a fault is not valid. -/
theorem not_valid_of_describes {why : Invalid} (hdescribes : why.Describes h) : ¬h.Valid := by
  intro hvalid
  cases why with
  | stride value =>
    obtain ⟨rfl, hless⟩ := hdescribes
    have hstride := hvalid.stride_eq
    omega
  | negative field value =>
    obtain ⟨rfl, hnegative⟩ := hdescribes
    have hnonneg := hvalid.nonneg_all field
    omega
  | zero field =>
    obtain ⟨hcount, hzero⟩ := hdescribes
    have hpositive := hvalid.positive field hcount
    omega
  | noFlag field value =>
    obtain ⟨hflag, rfl, hzero, hone⟩ := hdescribes
    exact (hvalid.flag field hflag).elim hzero hone
  | outputSide axis side input kernel padding =>
    obtain ⟨-, -, -, rfl, hempty⟩ := hdescribes
    have hside := hvalid.side_pos axis
    omega
  | weightCount => exact absurd hvalid.weights_lt (Nat.not_lt.2 hdescribes)
  | stated reason => exact hdescribes

/-- A result that, if it is an error, is a reason for refusing a header that is so of it. -/
def Describes (h : Header) (result : Except LayerError α) : Prop :=
  ∀ cause, result = .error cause → ∃ why : Invalid, cause = .invalid why ∧ why.Describes h

theorem describes_ok (value : α) : h.Describes (.ok value) := nofun

theorem describes_error {why : Invalid} (hdescribes : why.Describes h) :
    h.Describes (.error (.invalid why) : Except LayerError α) := by
  intro cause hcause
  exact ⟨why, (Except.error.inj hcause).symm, hdescribes⟩

/-- Checks that report only faults of the header do so one after another. -/
theorem Describes.bind {x : Except LayerError α} {f : α → Except LayerError β}
    (hx : h.Describes x) (hf : ∀ value, x = .ok value → h.Describes (f value)) :
    h.Describes (x >>= f) := by
  cases x with
  | error cause =>
    obtain ⟨why, rfl, hdescribes⟩ := hx cause rfl
    exact describes_error hdescribes
  | ok value => exact hf value rfl

/-- Refusing a negative field reports a fault the header has. -/
theorem describes_nonNegative (field : HeaderField) : h.Describes (h.nonNegative field) := by
  unfold nonNegative
  split
  case isTrue hnegative => exact describes_error ⟨rfl, hnegative⟩
  case isFalse => exact describes_ok _

theorem describes_positive {field : HeaderField} (hfield : field ∈ HeaderField.counts) :
    h.Describes (h.positive field) := by
  unfold positive
  split
  case isTrue hzero => exact describes_error ⟨hfield, hzero⟩
  case isFalse => exact describes_nonNegative field

theorem describes_flag {field : HeaderField} (hfield : field ∈ HeaderField.flags) :
    h.Describes (h.flag field) := by
  unfold flag
  split
  case isTrue => exact describes_ok _
  case isFalse hzero =>
    split
    case isTrue => exact describes_ok _
    case isFalse hone => exact describes_error ⟨hfield, rfl, hzero, hone⟩

theorem describes_outputSide {axis : Axis} {input kernel padding : Nat} {pooled : Bool}
    (hinput : h axis.input = input) (hkernel : h .kernelSide = kernel)
    (hpadding : h .padding = padding) (hpooled : h .pooling = pooled.toInt) :
    h.Describes (outputSide axis input kernel padding pooled) := by
  have hside := side_eq hinput hkernel hpadding hpooled
  simp only [outputSide]
  split
  case isTrue hempty =>
    exact describes_error ⟨hinput.symm, hkernel.symm, hpadding.symm, hside.symm, hempty⟩
  case isFalse => exact describes_ok _

/-- Refusing the stride reports a fault of a header whose stride is at most one. -/
theorem describes_checkStride (hstride : ¬1 < h .stride) : h.Describes h.checkStride := by
  unfold checkStride
  rw [if_neg hstride]
  split
  case isTrue hless => exact describes_error ⟨rfl, hless⟩
  case isFalse => exact describes_ok _

/-- Whatever a header is refused for is so of it, a stride of more than one apart. -/
theorem describes_check (hstride : ¬1 < h .stride) : h.Describes h.check := by
  refine .bind (describes_checkStride hstride) fun _ _ => ?_
  refine .bind (describes_nonNegative _) fun _ _ => ?_
  refine .bind (describes_flag (by decide)) fun _ _ => ?_
  refine .bind (describes_flag (by decide)) fun pooled hpooled => ?_
  refine .bind (describes_flag (by decide)) fun _ _ => ?_
  refine .bind (describes_positive (by decide)) fun kernel hkernel => ?_
  refine .bind (describes_positive (by decide)) fun inputs hinputs => ?_
  refine .bind (describes_positive (by decide)) fun outputs houtputs => ?_
  refine .bind (describes_nonNegative _) fun columns hcolumns => ?_
  refine .bind (describes_nonNegative _) fun rows hrows => ?_
  refine .bind (describes_nonNegative _) fun padding hpadding => ?_
  rw [flag_eq_ok_iff] at hpooled
  rw [positive_eq_ok_iff] at hkernel hinputs houtputs
  rw [nonNegative_eq_ok_iff] at hcolumns hrows hpadding
  refine .bind (describes_outputSide hcolumns hkernel.1 hpadding hpooled) fun _ _ => ?_
  refine .bind (describes_outputSide hrows hkernel.1 hpadding hpooled) fun _ _ => ?_
  dsimp only
  split
  case isTrue => exact describes_ok _
  case isFalse hmany =>
    refine describes_error (Nat.le_of_not_lt ?_)
    rw [weightCount_eq houtputs.1 hinputs.1 hkernel.1]
    exact hmany

/-- A stride of more than one is refused whatever the other fields are. -/
theorem check_of_one_lt_stride (hstride : 1 < h .stride) :
    h.check = .error (.unsupported (.stride (h .stride))) := by
  have hrefused : h.checkStride = .error (.unsupported (.stride (h .stride))) := if_pos hstride
  rw [check, hrefused]
  rfl

theorem one_le_sideOf {input kernel padding : Int} {pooled : Bool}
    (hside : 1 ≤ (input - kernel + 1 + 2 * padding) / (pooled.toNat + 1)) :
    1 ≤ sideOf input kernel padding pooled := by
  rcases Int.lt_or_le (input - kernel + 1 + 2 * padding) 0 with hnegative | hplaces
  · have hempty : (input - kernel + 1 + 2 * padding) / (pooled.toNat + 1) ≤ 0 :=
      Int.ediv_nonpos_of_nonpos_of_neg (Int.le_of_lt hnegative) (by omega)
    omega
  · rwa [sideOf_eq_ediv hplaces]

/-- An accepted header meets every condition, and its shape has as many weights and biases as it
    announces. -/
theorem valid_of_check {shape : Shape} (hcheck : h.check = .ok shape) :
    h.Valid ∧ shape.weightCount = h.weightCount ∧ shape.outputChannels = h.biasCount := by
  obtain ⟨l, rfl⟩ : ∃ l : Layer, l.toShape = shape := ⟨⟨shape, [], []⟩, rfl⟩
  obtain ⟨rfl, hdocumented⟩ := check_eq_ok_iff.1 hcheck
  have hcount : l.header.weightCount = l.weightCount := weightCount_eq rfl rfl rfl
  have hcolumns := hdocumented.outputColumns_pos
  have hrows := hdocumented.outputRows_pos
  refine ⟨⟨rfl, ?_, ?_, ?_, ?_, ?_⟩, hcount.symm, rfl⟩
  · intro field hfield
    simp only [HeaderField.flags, List.mem_cons, List.not_mem_nil, or_false] at hfield
    rcases hfield with rfl | rfl | rfl
    · cases hflag : l.compressed <;> simp [Layer.header, hflag]
    · cases hflag : l.pooled <;> simp [Layer.header, hflag]
    · cases hflag : l.relu <;> simp [Layer.header, hflag]
  · intro field hfield
    simp only [HeaderField.counts, List.mem_cons, List.not_mem_nil, or_false] at hfield
    rcases hfield with rfl | rfl | rfl
    · exact Int.ofNat_le.2 hdocumented.kernelSide_pos
    · exact Int.ofNat_le.2 hdocumented.inputChannels_pos
    · exact Int.ofNat_le.2 hdocumented.outputChannels_pos
  · intro field hfield
    simp only [HeaderField.amounts, List.mem_cons, List.not_mem_nil, or_false] at hfield
    rcases hfield with rfl | rfl | rfl | rfl <;> exact Int.natCast_nonneg _
  · rintro (_ | _)
    · have hside : l.header.side .columns =
          sideOf l.inputColumns l.kernelSide l.padding l.pooled := side_eq rfl rfl rfl rfl
      rw [hside]
      apply one_le_sideOf
      rw [← hdocumented.outputColumns_eq]
      exact Int.ofNat_le.2 hcolumns
    · have hside : l.header.side .rows =
          sideOf l.inputRows l.kernelSide l.padding l.pooled := side_eq rfl rfl rfl rfl
      rw [hside]
      apply one_le_sideOf
      rw [← hdocumented.outputRows_eq]
      exact Int.ofNat_le.2 hrows
  · rw [hcount]
    exact hdocumented.weights_lt

/-- A header is accepted with the numbers of weights and biases that it announces, or refused for
    its stride alone, or refused for a condition that it does not meet. -/
theorem check_spec (h : Header) :
    (h.Valid ∧ ∃ shape, h.check = .ok shape ∧ shape.weightCount = h.weightCount ∧
        shape.outputChannels = h.biasCount) ∨
      (1 < h .stride ∧ h.check = .error (.unsupported (.stride (h .stride)))) ∨
      ¬1 < h .stride ∧ ¬h.Valid ∧
        ∃ why : Invalid, h.check = .error (.invalid why) ∧ why.Describes h := by
  by_cases hstride : 1 < h .stride
  · exact .inr (.inl ⟨hstride, check_of_one_lt_stride hstride⟩)
  cases hcheck : h.check with
  | ok shape =>
    obtain ⟨hvalid, hcounts⟩ := valid_of_check hcheck
    exact .inl ⟨hvalid, shape, rfl, hcounts⟩
  | error cause =>
    obtain ⟨why, rfl, hdescribes⟩ := describes_check hstride cause hcheck
    exact .inr (.inr ⟨hstride, not_valid_of_describes hdescribes, why, rfl, hdescribes⟩)

/-- A valid header passes its checks, with the sizes its fields give. -/
theorem Valid.check_eq_ok (hvalid : h.Valid) :
    ∃ shape, h.check = .ok shape ∧ shape.weightCount = h.weightCount ∧
      shape.outputChannels = h.biasCount := by
  have hstride := hvalid.stride_eq
  obtain ⟨-, hcheck⟩ | ⟨hwide, -⟩ | ⟨-, hinvalid, -⟩ := h.check_spec
  · exact hcheck
  · omega
  · exact absurd hvalid hinvalid

end Header

end DmaLink.Layer
