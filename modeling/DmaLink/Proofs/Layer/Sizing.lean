import DmaLink.Proofs.Layer.Format

namespace DmaLink

namespace Size

/-- A product that is told exactly if it fits in 64 bits, and abandons the operation if not. -/
def checked (product : Nat) : Except Trap Nat :=
  if product < limit then .ok product else .error .productTooLarge

theorem checked_of_lt {product : Nat} (hfits : product < limit) :
    checked product = .ok product := if_pos hfits

theorem checked_of_le {product : Nat} (hlarge : limit ≤ product) :
    checked product = .error .productTooLarge := if_neg (Nat.not_lt.2 hlarge)

/-- The program's multiplication is the checked one. -/
theorem mul_eq_checked (a b : Nat) : mul a b = checked (a * b) := rfl

/-- A checked product is a number or is reported as too large. -/
theorem checked_eq_or (product : Nat) :
    (∃ n, checked product = .ok n) ∨ checked product = .error .productTooLarge := by
  rcases Nat.lt_or_ge product limit with hfits | hlarge
  · exact .inl ⟨product, checked_of_lt hfits⟩
  · exact .inr (checked_of_le hlarge)

/-- A product of three is abandoned for its first two only if it is too large itself, or if it is
    empty. -/
theorem mul_mul_eq_checked {a b c : Nat} (hfirst : limit ≤ a * b → 1 ≤ c) :
    (do mul (← mul a b) c) = checked (a * b * c) := by
  rw [mul_eq_checked]
  rcases Nat.lt_or_ge (a * b) limit with hfits | hlarge
  · rw [checked_of_lt hfits]
    rfl
  · rw [checked_of_le hlarge,
      checked_of_le (Nat.le_trans hlarge (Nat.le_mul_of_pos_right (a * b) (hfirst hlarge)))]
    rfl

/-- The largest of some sizes is one of them, if there are any. -/
theorem foldl_max_spec (sizes : List Nat) :
    (∀ size ∈ sizes, size ≤ sizes.foldl max 0) ∧
      (sizes ≠ [] → sizes.foldl max 0 ∈ sizes) := by
  have hmax : (0 :: sizes).max? = some (sizes.foldl max 0) := List.max?_cons'
  obtain ⟨hmem, hmost⟩ := List.max?_eq_some_iff.1 hmax
  refine ⟨fun size hsize => hmost size (List.mem_cons_of_mem 0 hsize), fun hsome => ?_⟩
  rcases List.mem_cons.1 hmem with hzero | hattained
  · obtain ⟨size, hsize⟩ := List.exists_mem_of_ne_nil sizes hsome
    have hle := hmost size (List.mem_cons_of_mem 0 hsize)
    have hsame : size = sizes.foldl max 0 := by omega
    rwa [← hsame]
  · exact hattained

end Size

namespace Layer

namespace Shape

/-- The activations that a layer of this shape produces, however many they are. -/
def outputVolume (s : Shape) : Nat := s.outputChannels * s.outputRows * s.outputColumns

/-- The activations that a layer of this shape consumes, however many they are. -/
def inputVolume (s : Shape) : Nat := s.inputChannels * s.inputRows * s.inputColumns

end Shape

variable {l : Layer}

/-- The size of the output is its volume, as far as the product can be told. -/
theorem Documented.outputWords_eq (hdocumented : l.Documented) :
    l.outputWords = Size.checked l.outputVolume :=
  Size.mul_mul_eq_checked fun _ => hdocumented.outputColumns_pos

/-- The sides of the input are fields of the header, so that channels and rows fit in 62 bits. -/
theorem Documented.inputWords_eq (hdocumented : l.Documented) :
    l.inputWords = Size.checked l.inputVolume := by
  have hchannels : (l.inputChannels : Int) < 2147483648 :=
    (hdocumented.fits l.inputChannels (by simp [tokens, Header.tokens, header, HeaderField.all])).2
  have hrows : (l.inputRows : Int) < 2147483648 :=
    (hdocumented.fits l.inputRows (by simp [tokens, Header.tokens, header, HeaderField.all])).2
  have hplane : l.inputChannels * l.inputRows < Size.limit :=
    Nat.lt_of_le_of_lt (Nat.mul_le_mul (by omega : l.inputChannels ≤ 2147483648)
      (by omega : l.inputRows ≤ 2147483648)) (by decide)
  exact Size.mul_mul_eq_checked fun hlarge => absurd hplane (Nat.not_lt.2 hlarge)

end Layer

namespace Network

open Layer

/-- The layers of an accepted file are documented. -/
theorem documented_of_ofBytes {bytes : List UInt8} {n : Network} (hread : ofBytes bytes = .ok n) :
    ∀ l ∈ n.layers, l.Documented := by
  rw [ofBytes, ofSource] at hread
  cases hall : readAll [] (.ofBytes bytes) with
  | error cause =>
    rw [hall] at hread
    cases hread
  | ok result =>
    obtain ⟨layers, rfl, hdocumented, -⟩ := bytes_of_readAll_ok [] result _ rfl hall
    rw [hall] at hread
    cases hread
    exact hdocumented

/-- Of an accepted file every layer tells how many activations it produces and consumes, exactly if
    the number fits in 64 bits; if it does not, the operation is abandoned. The most that one layer
    produces is told if that number fits for every layer. -/
theorem activations_of_accepted {bytes : List UInt8} {n : Network}
    (hread : ofBytes bytes = .ok n) :
    (∀ l ∈ n.layers, l.outputWords = Size.checked l.outputVolume ∧
        l.inputWords = Size.checked l.inputVolume) ∧
      ((∀ l ∈ n.layers, l.outputVolume < 2 ^ 64) →
        ∃ most, n.maxOutputWords = .ok most ∧ (∀ l ∈ n.layers, l.outputVolume ≤ most) ∧
          (n.layers = [] → most = 0) ∧ (n.layers ≠ [] → ∃ l ∈ n.layers, l.outputVolume = most)) ∧
      ((∃ l ∈ n.layers, 2 ^ 64 ≤ l.outputVolume) →
        n.maxOutputWords = .error .productTooLarge) := by
  have hdocumented := documented_of_ofBytes hread
  refine ⟨fun l hl => ⟨(hdocumented l hl).outputWords_eq, (hdocumented l hl).inputWords_eq⟩,
    fun hfits => ?_, fun hlarge => ?_⟩
  · have hsizes := mapM_eq_ok_map fun l hl =>
      (hdocumented l hl).outputWords_eq.trans (Size.checked_of_lt (hfits l hl))
    obtain ⟨hmost, hattained⟩ := Size.foldl_max_spec (n.layers.map fun l => l.outputVolume)
    refine ⟨_, by rw [maxOutputWords, hsizes]; rfl, ?_, ?_, ?_⟩
    · intro l hl
      exact hmost _ (List.mem_map.2 ⟨l, hl, rfl⟩)
    · intro hnone
      rw [hnone]
      rfl
    · intro hsome
      exact List.mem_map.1 (hattained (by simpa using hsome))
  · obtain ⟨l, hl, hlarge⟩ := hlarge
    have hends (l : Layer) (hl : l ∈ n.layers) :
        (∃ words, l.outputWords = .ok words) ∨ l.outputWords = .error .productTooLarge := by
      rw [(hdocumented l hl).outputWords_eq]
      exact Size.checked_eq_or l.outputVolume
    have hfails : l.outputWords = .error .productTooLarge :=
      (hdocumented l hl).outputWords_eq.trans (Size.checked_of_le hlarge)
    rw [maxOutputWords, mapM_eq_error hends ⟨l, hl, hfails⟩]
    rfl

/-- A layer of one weight whose input and padding are as wide and as high as they can be. -/
def widest : Layer where
  layerType := 1
  compressed := false
  kernelSide := 1
  inputChannels := 1
  inputColumns := 2147483647
  inputRows := 2147483647
  outputChannels := 1
  pooled := false
  relu := true
  padding := 2147483647
  outputColumns := 6442450941
  outputRows := 6442450941
  weights := [7]
  biases := [9]

theorem documented_widest : widest.Documented where
  kernelSide_pos := by decide
  inputChannels_pos := by decide
  outputChannels_pos := by decide
  outputColumns_eq := rfl
  outputColumns_pos := by decide
  outputRows_eq := rfl
  outputRows_pos := by decide
  weights_lt := by decide
  weights_length := rfl
  biases_length := rfl
  fits := by simp only [Bytes.FitsInt32]; decide

theorem ofBytes_encode_widest : ofBytes widest.encode = .ok ⟨[widest]⟩ := by
  have hread := readAll_of_bytes_eq [widest] (by simpa using documented_widest) []
    (.ofBytes widest.encode) rfl (List.append_nil _).symm
  rw [ofBytes, ofSource, hread]
  rfl

/-- The record of that layer is accepted, and the operation that asks for its activations is
    abandoned. -/
theorem activations_of_widest :
    ofBytes widest.encode = .ok ⟨[widest]⟩ ∧ 2 ^ 64 ≤ widest.outputVolume ∧
      widest.outputWords = .error .productTooLarge ∧ widest.inputWords = .ok 4611686014132420609 ∧
      maxOutputWords ⟨[widest]⟩ = .error .productTooLarge := by
  obtain ⟨hactivations, -, hlarge⟩ := activations_of_accepted ofBytes_encode_widest
  obtain ⟨houtput, hinput⟩ := hactivations widest List.mem_cons_self
  have hvolume : 2 ^ 64 ≤ widest.outputVolume := by decide
  exact ⟨ofBytes_encode_widest, hvolume, houtput, hinput,
    hlarge ⟨widest, List.mem_cons_self, hvolume⟩⟩

end Network

end DmaLink
