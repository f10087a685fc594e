import DmaLink.Fault

namespace DmaLink

namespace Layer

/-- The fields of a record's header, in file order. -/
inductive HeaderField where
  | layerType
  | compression
  | kernelSide
  | inputChannels
  | inputColumns
  | inputRows
  | outputChannels
  | pooling
  | relu
  | padding
  | stride
deriving DecidableEq, Repr

namespace HeaderField

/-- The name of a field in messages. -/
def name : HeaderField → String
  | .layerType => "layer_type"
  | .compression => "compression_enabled"
  | .kernelSide => "kernel_side"
  | .inputChannels => "num_input_channels"
  | .inputColumns => "num_input_columns"
  | .inputRows => "num_input_rows"
  | .outputChannels => "num_output_channels"
  | .pooling => "pooling_enabled"
  | .relu => "relu_enabled"
  | .padding => "padding"
  | .stride => "stride"

/-- The fields in file order. -/
def all : List HeaderField :=
  [.layerType, .compression, .kernelSide, .inputChannels, .inputColumns, .inputRows,
    .outputChannels, .pooling, .relu, .padding, .stride]

/-- The place of a field in a header, from zero. -/
def position : HeaderField → Nat
  | .layerType => 0
  | .compression => 1
  | .kernelSide => 2
  | .inputChannels => 3
  | .inputColumns => 4
  | .inputRows => 5
  | .outputChannels => 6
  | .pooling => 7
  | .relu => 8
  | .padding => 9
  | .stride => 10

/-- The field at a place of a header; the last one past the end. -/
def atPosition (i : Nat) : HeaderField := all.getD i .stride

@[simp]
theorem atPosition_position (f : HeaderField) : atPosition f.position = f := by
  cases f <;> rfl

end HeaderField

/-- A field of a record. -/
inductive Field where
  | header (field : HeaderField)
  | weight (index : Nat)
  | bias (index : Nat)
  /-- A field named by the caller. -/
  | stated (name : String)
deriving DecidableEq, Repr

/-- The name of a field in messages. -/
def Field.name : Field → String
  | .header field => field.name
  | .weight index => s!"weight[{index}]"
  | .bias index => s!"bias[{index}]"
  | .stated name => name

/-- One of the two sides of an output. -/
inductive Axis where
  | columns
  | rows
deriving DecidableEq, Repr

/-- The name of an axis in messages. -/
def Axis.name : Axis → String
  | .columns => "columns"
  | .rows => "rows"

/-- Why a record needs what the controller does not do. -/
inductive Unsupported where
  | stride (stride : Int)
  /-- A reason given by the caller. -/
  | stated (reason : String)
deriving DecidableEq, Repr

/-- The text of such a reason. -/
def Unsupported.message : Unsupported → String
  | .stride value => s!"stride {value} (only stride 1 is implemented)"
  | .stated reason => reason

/-- Why the header of a record is not valid. -/
inductive Invalid where
  | stride (stride : Int)
  | negative (field : HeaderField) (value : Int)
  | zero (field : HeaderField)
  | noFlag (field : HeaderField) (value : Int)
  | outputSide (axis : Axis) (side input kernel padding : Int)
  | weightCount
  /-- A reason given by the caller. -/
  | stated (reason : String)
deriving DecidableEq, Repr

/-- The text of such a reason. -/
def Invalid.message : Invalid → String
  | .stride value => s!"stride {value}"
  | .negative field value => field.name ++ s!" is negative ({value})"
  | .zero field => field.name ++ " is zero"
  | .noFlag field value => field.name ++ s!" must be 0 or 1, got {value}"
  | .outputSide axis side input kernel padding =>
    "output " ++ axis.name ++
      s!" would be {side} (input {input}, kernel {kernel}, padding {padding})"
  | .weightCount => "weight count overflows"
  | .stated reason => reason

end Layer

/-- The errors of reading layers. -/
inductive LayerError where
  /-- The record uses what the controller does not implement. -/
  | unsupported (cause : Layer.Unsupported)
  /-- The fields of the header do not agree or are out of range. -/
  | invalid (cause : Layer.Invalid)
  /-- The stream ended inside a record. -/
  | truncated (field : Layer.Field)
  | fileNotFound (path : String)
  | io (cause : TransportFault)
deriving DecidableEq, Repr

/-- The text of an error. -/
def LayerError.message : LayerError → String
  | .unsupported cause => "Unsupported layer: " ++ cause.message
  | .invalid cause => "Invalid layer: " ++ cause.message
  | .truncated field => "Layer record truncated while reading " ++ field.name
  | .fileNotFound path => s!"Layer file not found: {path}"
  | .io cause => "I/O error: " ++ cause.message

end DmaLink
