import DmaLink.Proofs.Except
import DmaLink.Network
import DmaLink.Proofs.Layer.Tokens

namespace DmaLink

namespace Layer

/-- The conditions that the shape of a layer meets: kernel and channels are not empty, the sides of
    the output are what the kernel leaves of the padded input, halved by pooling, and the number of
    weights fits in 64 bits. -/
structure Shape.Documented (s : Shape) : Prop where
  kernelSide_pos : 1 ≤ s.kernelSide
  inputChannels_pos : 1 ≤ s.inputChannels
  outputChannels_pos : 1 ≤ s.outputChannels
  outputColumns_eq : (s.outputColumns : Int) =
    (s.inputColumns - s.kernelSide + 1 + 2 * s.padding) / (s.pooled.toNat + 1)
  outputColumns_pos : 1 ≤ s.outputColumns
  outputRows_eq : (s.outputRows : Int) =
    (s.inputRows - s.kernelSide + 1 + 2 * s.padding) / (s.pooled.toNat + 1)
  outputRows_pos : 1 ≤ s.outputRows
  weights_lt : s.outputChannels * s.inputChannels * s.kernelSide * s.kernelSide < 2 ^ 64

/-- The conditions that a layer meets to have a record: its shape is documented, its weights and
    biases come in the number that the shape says, and all its tokens are 32-bit integers. -/
structure Documented (l : Layer) : Prop extends Shape.Documented l.toShape where
  weights_length : l.weights.length =
    l.outputChannels * l.inputChannels * l.kernelSide * l.kernelSide
  biases_length : l.biases.length = l.outputChannels
  fits : ∀ token ∈ l.tokens, Bytes.FitsInt32 token

namespace Header

variable {h : Header}

theorem nonNegative_eq_ok_iff {field : HeaderField} {n : Nat} :
    h.nonNegative field = .ok n ↔ h field = n := by
  unfold nonNegative
  split
  · simp; omega
  · simp only [Except.ok.injEq]; omega

/-- A field passes for a positive number exactly if it is one. -/
theorem positive_eq_ok_iff {field : HeaderField} {n : Nat} :
    h.positive field = .ok n ↔ h field = n ∧ 1 ≤ n := by
  unfold positive
  split
  · simp; omega
  · rw [nonNegative_eq_ok_iff]; omega

theorem flag_eq_ok_iff {field : HeaderField} {b : Bool} :
    h.flag field = .ok b ↔ h field = b.toInt := by
  unfold flag
  split
  · cases b <;> simp_all
  · split
    · cases b <;> simp_all
    · cases b <;> simp_all

theorem checkStride_eq_ok_iff {u : Unit} : h.checkStride = .ok u ↔ h .stride = 1 := by
  unfold checkStride
  split
  · simp; omega
  · split
    · simp; omega
    · simp; omega

/-- A side that has places for the kernel is their number, halved under pooling. -/
theorem sideOf_eq_ediv {input kernel padding : Int} {pooled : Bool}
    (hplaces : 0 ≤ input - kernel + 1 + 2 * padding) :
    sideOf input kernel padding pooled =
      (input - kernel + 1 + 2 * padding) / (pooled.toNat + 1) := by
  rw [sideOf, Int.tdiv_eq_ediv_of_nonneg hplaces]
  cases pooled <;> rfl

/-- A side with no place for the kernel is not positive. -/
theorem sideOf_nonpos {input kernel padding : Int} {pooled : Bool}
    (hplaces : input - kernel + 1 + 2 * padding < 0) : sideOf input kernel padding pooled ≤ 0 := by
  have hneg : 0 ≤ (-(input - kernel + 1 + 2 * padding)).tdiv (if pooled then 2 else 1) :=
    Int.tdiv_nonneg (by omega) (by cases pooled <;> decide)
  rw [Int.neg_tdiv] at hneg
  simp only [sideOf]
  omega

/-- An output side is accepted exactly if it is at least one, and it is the number of places, halved
    under pooling. -/
theorem outputSide_eq_ok_iff {axis : Axis} {input kernel padding n : Nat} {pooled : Bool} :
    outputSide axis input kernel padding pooled = .ok n ↔
      (n : Int) = (input - kernel + 1 + 2 * padding) / (pooled.toNat + 1) ∧ 1 ≤ n := by
  simp only [outputSide]
  rcases Int.lt_or_le ((input : Int) - kernel + 1 + 2 * padding) 0 with hneg | hnonneg
  · rw [if_pos (sideOf_nonpos hneg)]
    have hside : ((input : Int) - kernel + 1 + 2 * padding) / (pooled.toNat + 1) ≤ 0 :=
      Int.ediv_nonpos_of_nonpos_of_neg (Int.le_of_lt hneg) (by omega)
    simp only [reduceCtorEq, false_iff]
    omega
  · rw [sideOf_eq_ediv hnonneg]
    split
    · simp only [reduceCtorEq, false_iff]
      omega
    · simp only [Except.ok.injEq]
      omega

/-- A header is accepted exactly if it is that of a layer of a documented shape. -/
theorem check_eq_ok_iff {l : Layer} :
    h.check = .ok l.toShape ↔ h = l.header ∧ l.toShape.Documented := by
  simp only [check, bind_eq_ok_iff, checkStride_eq_ok_iff, nonNegative_eq_ok_iff,
    positive_eq_ok_iff, flag_eq_ok_iff, outputSide_eq_ok_iff]
  constructor
  · rintro ⟨_, hstride, layerType, hlayerType, compressed, hcompressed, pooled, hpooled, relu,
      hrelu, kernelSide, ⟨hkernel, hkernelPos⟩, inputChannels, ⟨hinput, hinputPos⟩,
      outputChannels, ⟨houtput, houtputPos⟩, inputColumns, hcolumns, inputRows, hrows, padding,
      hpadding, outputColumns, ⟨hsideColumns, hcolumnsPos⟩, outputRows, ⟨hsideRows, hrowsPos⟩,
      hresult⟩
    split at hresult
    · next hcount =>
      have hshape := Except.ok.inj hresult
      rw [← hshape]
      refine ⟨?_, hkernelPos, hinputPos, houtputPos, hsideColumns, hcolumnsPos, hsideRows,
        hrowsPos, hcount⟩
      funext field
      cases field <;> simp only [Layer.header, ← hshape] <;> assumption
    · cases hresult
  · rintro ⟨rfl, hdocumented⟩
    refine ⟨(), rfl, _, rfl, _, rfl, _, rfl, _, rfl, _, ⟨rfl, hdocumented.kernelSide_pos⟩,
      _, ⟨rfl, hdocumented.inputChannels_pos⟩, _, ⟨rfl, hdocumented.outputChannels_pos⟩,
      _, rfl, _, rfl, _, rfl, _, ⟨hdocumented.outputColumns_eq, hdocumented.outputColumns_pos⟩,
      _, ⟨hdocumented.outputRows_eq, hdocumented.outputRows_pos⟩, ?_⟩
    exact if_pos hdocumented.weights_lt

theorem ofTokens_tokens (h : Header) : ofTokens h.tokens = h := by
  funext field
  cases field <;> rfl

/-- The tokens of a header are those it was made of. -/
theorem tokens_ofTokens {tokens : List Int} (hlength : tokens.length = HeaderField.all.length) :
    (ofTokens tokens).tokens = tokens := by
  apply List.ext_getElem
  · simp [Header.tokens, hlength]
  · intro i hi hi'
    have hposition : ∀ i (hi : i < HeaderField.all.length), HeaderField.all[i].position = i := by
      decide
    simp [Header.tokens, ofTokens, hposition, hi']

end Header

/-- A record at the front of a source that does not fail is read as its layer. -/
theorem next_of_bytes_eq {l : Layer} (hdocumented : l.Documented) {s : Source} {rest : List UInt8}
    (hfailure : s.failure = none) (hbytes : s.bytes = l.encode ++ rest) :
    ∃ s', next s = (.ok (some l), s') ∧ s'.failure = none ∧ s'.bytes = rest := by
  have hfits := hdocumented.fits
  have htokens : l.tokens =
      l.header .layerType :: l.header.tokens.tail ++ l.weights ++ l.biases := rfl
  rw [encode, htokens] at hbytes
  rw [htokens] at hfits
  simp only [List.flatMap_append, List.flatMap_cons, List.append_assoc] at hbytes
  obtain ⟨s₁, htoken, hfailure₁, hbytes₁⟩ :=
    firstToken_of_bytes_eq hfailure (hfits _ (by simp)) hbytes
  obtain ⟨s₂, hheader, hfailure₂, hbytes₂⟩ :=
    readTokens_of_bytes_eq (fun i => .header (.atPosition i)) l.header.tokens.tail
      (fun t ht => hfits t (by simp [ht])) 1 [l.header .layerType] _ s₁ hfailure₁ hbytes₁
  obtain ⟨s₃, hweights, hfailure₃, hbytes₃⟩ :=
    readTokens_of_bytes_eq .weight l.weights (fun t ht => hfits t (by simp [ht])) 0 [] _ s₂
      hfailure₂ hbytes₂
  obtain ⟨s₄, hbiases, hfailure₄, hbytes₄⟩ :=
    readTokens_of_bytes_eq .bias l.biases (fun t ht => hfits t (by simp [ht])) 0 [] _ s₃
      hfailure₃ hbytes₃
  have hcheck : (Header.ofTokens l.header.tokens).check = .ok l.toShape :=
    Header.check_eq_ok_iff.mpr ⟨Header.ofTokens_tokens _, hdocumented.toDocumented⟩
  rw [hdocumented.weights_length] at hweights
  rw [hdocumented.biases_length] at hbiases
  have hcontents : readContents l.toShape s₂ = (.ok l, s₄) := by
    simp only [readContents, Shape.weightCount, hweights, hbiases]
    rfl
  have hrecord : readRecord (l.header .layerType) s₁ = (.ok l, s₄) := by
    have hcount : HeaderField.all.length - 1 = l.header.tokens.tail.length := rfl
    have hjoin : [l.header .layerType].reverse ++ l.header.tokens.tail = l.header.tokens := rfl
    rw [readRecord, hcount, hheader, hjoin]
    dsimp only
    rw [hcheck]
    exact hcontents
  refine ⟨s₄, ?_, hfailure₄, hbytes₄⟩
  simp only [next, htoken, hrecord]

/-- A layer is read only where its weights and then its biases are. -/
theorem readContents_eq_ok {shape : Shape} {l : Layer} {s s' : Source}
    (hread : readContents shape s = (.ok l, s')) :
    ∃ weights biases s₁, readTokens .weight shape.weightCount 0 [] s = (.ok weights, s₁) ∧
      readTokens .bias shape.outputChannels 0 [] s₁ = (.ok biases, s') ∧
      l = { shape with weights, biases } := by
  rw [readContents] at hread
  split at hread
  · cases hread
  · next weights s₁ hweights =>
    split at hread
    · cases hread
    · next biases s₂ hbiases =>
      cases hread
      exact ⟨weights, biases, s₁, hweights, hbiases, rfl⟩

/-- A record is read only where its header is, passes its checks, and has its weights and biases
    behind it. -/
theorem readRecord_eq_ok {layerType : Int} {l : Layer} {s s' : Source}
    (hread : readRecord layerType s = (.ok l, s')) :
    ∃ tokens shape s₁,
      readTokens (fun i => .header (.atPosition i)) (HeaderField.all.length - 1) 1 [layerType] s =
        (.ok tokens, s₁) ∧
      (Header.ofTokens tokens).check = .ok shape ∧ readContents shape s₁ = (.ok l, s') := by
  rw [readRecord] at hread
  split at hread
  · cases hread
  · next tokens s₁ htokens =>
    split at hread
    · cases hread
    · next shape hcheck => exact ⟨tokens, shape, s₁, htokens, hcheck, hread⟩

/-- What is read behind the first token of a record, from a source that does not fail, is a
    documented layer whose record stood at the front. -/
theorem bytes_of_readRecord_ok {layerType : Int} {l : Layer} {s s' : Source}
    (hfailure : s.failure = none) (htype : Bytes.FitsInt32 layerType)
    (hread : readRecord layerType s = (.ok l, s')) :
    s'.failure = none ∧ l.Documented ∧
      Bytes.ofInt32 layerType ++ s.bytes = l.encode ++ s'.bytes := by
  obtain ⟨_, shape, s₁, hheader, hcheck, hcontents⟩ := readRecord_eq_ok hread
  obtain ⟨weights, biases, s₂, hweights, hbiases, rfl⟩ := readContents_eq_ok hcontents
  obtain ⟨header, rfl, hheaderLength, hheaderFits, hheaderBytes, hfailure₁⟩ :=
    bytes_of_readTokens_ok _ _ _ _ _ s s₁ hfailure hheader
  obtain ⟨_, rfl, hweightsLength, hweightsFits, hweightsBytes, hfailure₂⟩ :=
    bytes_of_readTokens_ok _ _ _ _ _ s₁ s₂ hfailure₁ hweights
  obtain ⟨_, rfl, hbiasesLength, hbiasesFits, hbiasesBytes, hfailure₃⟩ :=
    bytes_of_readTokens_ok _ _ _ _ _ s₂ s' hfailure₂ hbiases
  obtain ⟨hfields, hshape⟩ :=
    (Header.check_eq_ok_iff (l := { shape with weights, biases })).mp hcheck
  -- The header that was accepted has the tokens that were read, so they are those of the layer.
  have hback : layerType :: header =
      Header.tokens (Layer.header { shape with weights, biases }) := by
    rw [← hfields]
    exact (Header.tokens_ofTokens (by simp [hheaderLength, HeaderField.all])).symm
  have htokens : Layer.tokens { shape with weights, biases } =
      layerType :: header ++ weights ++ biases := by
    rw [Layer.tokens, ← hback]
  refine ⟨hfailure₃, ⟨hshape, hweightsLength, hbiasesLength, ?_⟩, ?_⟩
  · intro token hmem
    rw [htokens] at hmem
    simp only [List.mem_append, List.mem_cons] at hmem
    obtain ((rfl | hmem) | hmem) | hmem := hmem
    · exact htype
    · exact hheaderFits token hmem
    · exact hweightsFits token hmem
    · exact hbiasesFits token hmem
  · rw [hheaderBytes, hweightsBytes, hbiasesBytes, encode, htokens]
    simp

/-- A layer that is read from a source that does not fail is documented, and its record stood at
    the front. -/
theorem bytes_of_next_some {s s' : Source} {l : Layer} (hfailure : s.failure = none)
    (hnext : next s = (.ok (some l), s')) :
    s'.failure = none ∧ l.Documented ∧ s.bytes = l.encode ++ s'.bytes := by
  rw [next] at hnext
  split at hnext
  · cases hnext
  · cases hnext
  · next layerType s₁ htoken =>
    obtain ⟨hfailure₁, htype, hbytes⟩ := bytes_of_firstToken_some hfailure htoken
    split at hnext
    · cases hnext
    · next layer s₂ hrecord =>
      cases hnext
      rw [hbytes]
      exact bytes_of_readRecord_ok hfailure₁ htype hrecord

/-- A call finds no further layer only at the end of the bytes. -/
theorem bytes_of_next_none {s s' : Source} (hfailure : s.failure = none)
    (hnext : next s = (.ok none, s')) : s.bytes = [] := by
  rw [next] at hnext
  split at hnext
  · cases hnext
  · next htoken => exact bytes_of_firstToken_none hfailure htoken
  · split at hnext <;> cases hnext

theorem next_of_bytes_nil {s : Source} (hfailure : s.failure = none) (hbytes : s.bytes = []) :
    ∃ s', next s = (.ok none, s') := by
  obtain ⟨s', htoken, -⟩ := exists_firstToken_none hfailure hbytes
  exact ⟨s', by rw [next, htoken]⟩

end Layer

namespace Network

open Layer

/-- From a source that does not fail, records of documented layers are read back. -/
theorem readAll_of_bytes_eq (layers : List Layer) (hdocumented : ∀ l ∈ layers, l.Documented)
    (before : List Layer) (s : Source) (hfailure : s.failure = none)
    (hbytes : s.bytes = layers.flatMap Layer.encode) :
    readAll before s = .ok (before.reverse ++ layers) := by
  induction layers generalizing before s with
  | nil =>
    obtain ⟨s', hnext⟩ := next_of_bytes_nil hfailure hbytes
    rw [readAll]
    split
    · next heq => rw [hnext] at heq; cases heq
    · simp
    · next heq => rw [hnext] at heq; cases heq
  | cons l layers ih =>
    obtain ⟨s', hnext, hfailure', hbytes'⟩ :=
      next_of_bytes_eq (hdocumented l List.mem_cons_self) hfailure hbytes
    rw [readAll]
    split
    · next heq => rw [hnext] at heq; cases heq
    · next heq => rw [hnext] at heq; cases heq
    · next layer rest heq =>
      rw [hnext] at heq
      cases heq
      rw [ih (fun l hl => hdocumented l (List.mem_cons_of_mem _ hl)) (l :: before) s' hfailure'
        hbytes']
      simp

/-- The layers that are read from a source that does not fail are documented, and the source held
    their records and nothing else. -/
theorem bytes_of_readAll_ok (before result : List Layer) (s : Source) (hfailure : s.failure = none)
    (hread : readAll before s = .ok result) :
    ∃ layers, result = before.reverse ++ layers ∧ (∀ l ∈ layers, l.Documented) ∧
      s.bytes = layers.flatMap Layer.encode := by
  fun_induction readAll before s with
  | case1 => cases hread
  | case2 before s s' hnext =>
    cases hread
    exact ⟨[], by simp, by simp, bytes_of_next_none hfailure hnext⟩
  | case3 before s layer rest hnext ih =>
    obtain ⟨hfailure', hlayer, hbytes⟩ := bytes_of_next_some hfailure hnext
    obtain ⟨layers, hresult, hlayers, hrest⟩ := ih hfailure' hread
    refine ⟨layer :: layers, by simpa using hresult, ?_, ?_⟩
    · intro l hl
      rcases List.mem_cons.mp hl with rfl | hmem
      · exact hlayer
      · exact hlayers l hmem
    · rw [hbytes, hrest, List.flatMap_cons]

/-- Reading accepts exactly the records of documented layers one after the other, and gives back
    those layers in order. -/
theorem ofBytes_eq_ok_iff (bytes : List UInt8) (n : Network) :
    ofBytes bytes = .ok n ↔
      (∀ l ∈ n.layers, l.Documented) ∧ bytes = n.layers.flatMap Layer.encode := by
  have hmap : ofBytes bytes = .ok n ↔ readAll [] (.ofBytes bytes) = .ok n.layers := by
    rw [ofBytes, ofSource]
    cases readAll [] (.ofBytes bytes) with
    | error cause => simp [Except.map]
    | ok layers =>
      obtain ⟨expected⟩ := n
      simp [Except.map]
  rw [hmap]
  constructor
  · intro hread
    obtain ⟨layers, hresult, hdocumented, hbytes⟩ := bytes_of_readAll_ok [] _ _ rfl hread
    rw [List.reverse_nil, List.nil_append] at hresult
    rw [hresult]
    exact ⟨hdocumented, hbytes⟩
  · rintro ⟨hdocumented, hbytes⟩
    exact readAll_of_bytes_eq n.layers hdocumented [] (.ofBytes bytes) rfl hbytes

end Network

end DmaLink
