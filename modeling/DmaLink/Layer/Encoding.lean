import DmaLink.Bytes
import DmaLink.Layer.Record

namespace DmaLink.Layer

/-- The header of a layer's record. -/
def header (l : Layer) : Header
  | .layerType => l.layerType
  | .compression => l.compressed.toInt
  | .kernelSide => l.kernelSide
  | .inputChannels => l.inputChannels
  | .inputColumns => l.inputColumns
  | .inputRows => l.inputRows
  | .outputChannels => l.outputChannels
  | .pooling => l.pooled.toInt
  | .relu => l.relu.toInt
  | .padding => l.padding
  | .stride => Shape.stride

/-- The tokens of a layer's record. -/
def tokens (l : Layer) : List Int := l.header.tokens ++ l.weights ++ l.biases

/-- The bytes of a layer's record. -/
def encode (l : Layer) : List UInt8 := l.tokens.flatMap Bytes.ofInt32

end DmaLink.Layer
