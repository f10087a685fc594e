import DmaLink.Layer.Record
import DmaLink.Layer.Source

namespace DmaLink.Layer

/-- Bytes per token. -/
def tokenBytes : Nat := 4

/-- Fills the first token of a record, of whose bytes those of `before` are there and `need` are
    missing. There is none if the source ends before its first byte. A failure is reported whatever
    its kind. -/
def fillFirst (need : Nat) (before : List UInt8) (s : Source) :
    Except LayerError (Option Int) × Source :=
  match need with
  | 0 => (.ok (some (Bytes.toInt32 before)), s)
  | need + 1 =>
    match s.pull (need + 1) with
    | (.bytes first rest, s) => fillFirst (need - rest.length) (before ++ first :: rest) s
    | (.ended, s) =>
      if before.isEmpty then (.ok none, s) else (.error (.truncated (.header .layerType)), s)
    | (.failed failure, s) => (.error (.io failure.cause), s)
termination_by need

/-- Reads the first token of a record. -/
def firstToken (s : Source) : Except LayerError (Option Int) × Source := fillFirst tokenBytes [] s

/-- The error for a failure inside a field that is not the first of its record. Bytes that have
    ended too early have ended inside the field, whether the reader or the source says so. -/
def Failure.inside (failure : Failure) (field : Field) : LayerError :=
  match failure.kind with
  | .unexpectedEnd => .truncated field
  | .other => .io failure.cause

/-- Reads a token that is not the first of its record. -/
def token (field : Field) (s : Source) : Except LayerError Int × Source :=
  match s.readExact tokenBytes [] with
  | (.ok bytes, s) => (.ok (Bytes.toInt32 bytes), s)
  | (.error failure, s) => (.error (failure.inside field), s)

/-- Reads `count` tokens, the first of which is number `index`, behind those of `before`, newest
    first. `field` names the field of each number. -/
def readTokens (field : Nat → Field) :
    (count index : Nat) → (before : List Int) → Source → Except LayerError (List Int) × Source
  | 0, _, before, s => (.ok before.reverse, s)
  | count + 1, index, before, s =>
    match token (field index) s with
    | (.ok value, s) => readTokens field count (index + 1) (value :: before) s
    | (.error cause, s) => (.error cause, s)

/-- Reads the weights and biases of a shape. -/
def readContents (shape : Shape) (s : Source) : Except LayerError Layer × Source :=
  match readTokens .weight shape.weightCount 0 [] s with
  | (.error cause, s) => (.error cause, s)
  | (.ok weights, s) =>
    match readTokens .bias shape.outputChannels 0 [] s with
    | (.error cause, s) => (.error cause, s)
    | (.ok biases, s) => (.ok { shape with weights, biases }, s)

/-- Reads what follows the first token of a record. -/
def readRecord (layerType : Int) (s : Source) : Except LayerError Layer × Source :=
  let rest := HeaderField.all.length - 1
  match readTokens (fun i => .header (.atPosition i)) rest 1 [layerType] s with
  | (.error cause, s) => (.error cause, s)
  | (.ok tokens, s) =>
    match (Header.ofTokens tokens).check with
    | .error cause => (.error cause, s)
    | .ok shape => readContents shape s

/-- Reads the next record; none if the source ends where it would begin. -/
def next (s : Source) : Except LayerError (Option Layer) × Source :=
  match firstToken s with
  | (.error cause, s) => (.error cause, s)
  | (.ok none, s) => (.ok none, s)
  | (.ok (some layerType), s) =>
    match readRecord layerType s with
    | (.error cause, s) => (.error cause, s)
    | (.ok layer, s) => (.ok (some layer), s)

/-- Reads exactly one record. -/
def readOne (s : Source) : Except LayerError Layer :=
  match (next s).1 with
  | .error cause => .error cause
  | .ok none => .error (.truncated (.header .layerType))
  | .ok (some layer) => .ok layer

/-- A source being read record by record. -/
structure Loader where
  source : Source
  /-- The records returned so far. -/
  layersRead : Nat := 0

/-- Reads the next record. After an error the loader goes on where the source stands. -/
def Loader.next (l : Loader) : Except LayerError (Option Layer) × Loader :=
  match Layer.next l.source with
  | (.ok (some layer), source) => (.ok (some layer), ⟨source, l.layersRead + 1⟩)
  | (result, source) => (result, ⟨source, l.layersRead⟩)

theorem length_fillFirst_le (need : Nat) (before : List UInt8) (s : Source) :
    (fillFirst need before s).2.bytes.length ≤ s.bytes.length := by
  fun_induction fillFirst need before s with
  | case1 => exact Nat.le_refl _
  | case2 before s need first rest s' hpull ih =>
    exact Nat.le_trans ih (Source.length_le_of_pull hpull)
  | case3 before s need s' hpull => exact Source.length_le_of_pull hpull
  | case4 before s need s' hpull => exact Source.length_le_of_pull hpull
  | case5 before s need failure s' hpull => exact Source.length_le_of_pull hpull

theorem length_token_le (field : Field) (s : Source) :
    (token field s).2.bytes.length ≤ s.bytes.length := by
  have hle := s.length_readExact_le tokenBytes []
  unfold token
  split
  · next hread => rwa [hread] at hle
  · next hread => rwa [hread] at hle

theorem length_readTokens_le (field : Nat → Field) (count index : Nat) (before : List Int)
    (s : Source) :
    (readTokens field count index before s).2.bytes.length ≤ s.bytes.length := by
  fun_induction readTokens field count index before s with
  | case1 => exact Nat.le_refl _
  | case2 count index before s value s' htoken ih =>
    have hle := length_token_le (field index) s
    rw [htoken] at hle
    exact Nat.le_trans ih hle
  | case3 count index before s cause s' htoken =>
    have hle := length_token_le (field index) s
    rwa [htoken] at hle

/-- Reading a record puts nothing back into the source. -/
theorem length_readRecord_le (layerType : Int) (s : Source) :
    (readRecord layerType s).2.bytes.length ≤ s.bytes.length := by
  have hheader := length_readTokens_le (fun i => .header (.atPosition i))
    (HeaderField.all.length - 1) 1 [layerType] s
  simp only [readRecord]
  split
  · next heq => rwa [heq] at hheader
  · next tokens s₁ heq =>
    rw [heq] at hheader
    split
    · exact hheader
    · next shape _ =>
      have hweights := length_readTokens_le .weight shape.weightCount 0 [] s₁
      simp only [readContents]
      split
      · next heq' => rw [heq'] at hweights; exact Nat.le_trans hweights hheader
      · next weights s₂ heq' =>
        rw [heq'] at hweights
        have hbiases := length_readTokens_le .bias shape.outputChannels 0 [] s₂
        split
        · next heq'' =>
          rw [heq''] at hbiases
          exact Nat.le_trans hbiases (Nat.le_trans hweights hheader)
        · next heq'' =>
          rw [heq''] at hbiases
          exact Nat.le_trans hbiases (Nat.le_trans hweights hheader)

/-- A first token that is read has been in the source. -/
theorem length_firstToken_lt {s s' : Source} {value : Int}
    (h : firstToken s = (.ok (some value), s')) : s'.bytes.length < s.bytes.length := by
  rw [firstToken, tokenBytes, fillFirst] at h
  split at h
  · next first rest s₁ hpull =>
    have hle := length_fillFirst_le (3 - rest.length) ([] ++ first :: rest) s₁
    rw [h] at hle
    exact Nat.lt_of_le_of_lt hle (Source.length_lt_of_pull hpull)
  · cases h
  · cases h

/-- A layer that is read leaves fewer bytes behind. -/
theorem length_next_lt {s s' : Source} {layer : Layer} (h : next s = (.ok (some layer), s')) :
    s'.bytes.length < s.bytes.length := by
  simp only [next] at h
  split at h
  · cases h
  · cases h
  · next layerType s₁ htoken =>
    have hlt := length_firstToken_lt htoken
    have hle := length_readRecord_le layerType s₁
    split at h
    · cases h
    · next heq =>
      rw [heq] at hle
      obtain rfl : _ = s' := (Prod.mk.inj h).2
      exact Nat.lt_of_le_of_lt hle hlt

end DmaLink.Layer
