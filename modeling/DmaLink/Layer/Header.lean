import DmaLink.Layer.Error
import DmaLink.Size

namespace DmaLink.Layer

/-- The values of a header's fields. -/
abbrev Header := HeaderField → Int

/-- The header with the given tokens. -/
def Header.ofTokens (tokens : List Int) : Header := fun field => tokens.getD field.position 0

/-- The tokens of a header, in file order. -/
def Header.tokens (h : Header) : List Int := HeaderField.all.map h

/-- The shape of a layer. -/
structure Shape where
  layerType : Nat
  compressed : Bool
  kernelSide : Nat
  inputChannels : Nat
  inputColumns : Nat
  inputRows : Nat
  outputChannels : Nat
  pooled : Bool
  relu : Bool
  padding : Nat
  outputColumns : Nat
  outputRows : Nat
deriving DecidableEq, Repr

namespace Shape

/-- The stride of every layer. -/
def stride : Nat := 1

/-- The weights of one output channel. -/
def kernelSize (s : Shape) : Nat := s.inputChannels * s.kernelSide * s.kernelSide

/-- The weights of all output channels. -/
def weightCount (s : Shape) : Nat :=
  s.outputChannels * s.inputChannels * s.kernelSide * s.kernelSide

/-- The weights of one output channel, counted in 64 bits. -/
def kernelWords (s : Shape) : Except Trap Nat := do
  Size.mul (← Size.mul s.inputChannels s.kernelSide) s.kernelSide

/-- The place of a weight among all weights, computed in 64 bits. The column counts fastest and the
    output channel slowest. -/
def weightPlace (s : Shape) (output input row column : Nat) : Except Trap Nat := do
  let kernel ← Size.add (← Size.mul output s.inputChannels) input
  let line ← Size.add (← Size.mul kernel s.kernelSide) row
  Size.add (← Size.mul line s.kernelSide) column

/-- The activations that the layer produces. -/
def outputWords (s : Shape) : Except Trap Nat := do
  Size.mul (← Size.mul s.outputChannels s.outputRows) s.outputColumns

/-- The activations that the layer consumes. -/
def inputWords (s : Shape) : Except Trap Nat := do
  Size.mul (← Size.mul s.inputChannels s.inputRows) s.inputColumns

/-- One line that describes the layer. -/
def describe (s : Shape) : String :=
  s!"type {s.layerType} | {s.inputChannels}x{s.inputRows}x{s.inputColumns} -> " ++
  s!"{s.outputChannels}x{s.outputRows}x{s.outputColumns} | " ++
  s!"kernel {s.kernelSide}x{s.kernelSide} pad {s.padding} stride {stride}" ++
  (if s.pooled then " pool" else "") ++
  (if s.relu then " relu" else "") ++
  (if s.compressed then " compressed" else "")

end Shape

namespace Header

/-- The value of a field that must not be negative. -/
def nonNegative (h : Header) (field : HeaderField) : Except LayerError Nat :=
  if h field < 0 then .error (.invalid (.negative field (h field))) else .ok (h field).toNat

/-- The value of a field that must be positive. -/
def positive (h : Header) (field : HeaderField) : Except LayerError Nat :=
  if h field = 0 then .error (.invalid (.zero field)) else h.nonNegative field

/-- The value of a field that is a flag. -/
def flag (h : Header) (field : HeaderField) : Except LayerError Bool :=
  if h field = 0 then .ok false
  else if h field = 1 then .ok true
  else .error (.invalid (.noFlag field (h field)))

/-- A side of the output: the places of the kernel on the padded input, halved toward zero by
    pooling. -/
def sideOf (input kernel padding : Int) (pooled : Bool) : Int :=
  (input - kernel + 1 + 2 * padding).tdiv (if pooled then 2 else 1)

/-- A side of the output, which must be positive. -/
def outputSide (axis : Axis) (input kernel padding : Nat) (pooled : Bool) :
    Except LayerError Nat :=
  let side := sideOf input kernel padding pooled
  if side ≤ 0 then .error (.invalid (.outputSide axis side input kernel padding))
  else .ok side.toNat

/-- Only a stride of one is supported, and less is no stride. -/
def checkStride (h : Header) : Except LayerError Unit :=
  if 1 < h .stride then .error (.unsupported (.stride (h .stride)))
  else if h .stride < 1 then .error (.invalid (.stride (h .stride)))
  else .ok ()

/-- The shape that a header stands for, or why it is not accepted. -/
def check (h : Header) : Except LayerError Shape := do
  h.checkStride
  let layerType ← h.nonNegative .layerType
  let compressed ← h.flag .compression
  let pooled ← h.flag .pooling
  let relu ← h.flag .relu
  let kernelSide ← h.positive .kernelSide
  let inputChannels ← h.positive .inputChannels
  let outputChannels ← h.positive .outputChannels
  let inputColumns ← h.nonNegative .inputColumns
  let inputRows ← h.nonNegative .inputRows
  let padding ← h.nonNegative .padding
  let outputColumns ← outputSide .columns inputColumns kernelSide padding pooled
  let outputRows ← outputSide .rows inputRows kernelSide padding pooled
  let shape : Shape :=
    { layerType, compressed, kernelSide, inputChannels, inputColumns, inputRows, outputChannels,
      pooled, relu, padding, outputColumns, outputRows }
  if shape.weightCount < Size.limit then return shape else .error (.invalid .weightCount)

end Header

end DmaLink.Layer
