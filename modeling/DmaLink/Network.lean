import DmaLink.FileTree
import DmaLink.Layer.Encoding
import DmaLink.Layer.Reader

namespace DmaLink

/-- A network: the layers of one file, in order. -/
structure Network where
  layers : List Layer
deriving DecidableEq, Repr

namespace Network

/-- Reads records until the source ends where one would begin, behind the layers of `before`,
    newest first. -/
def readAll (before : List Layer) (s : Layer.Source) : Except LayerError (List Layer) :=
  match _hnext : Layer.next s with
  | (.error cause, _) => .error cause
  | (.ok none, _) => .ok before.reverse
  | (.ok (some layer), rest) => readAll (layer :: before) rest
termination_by s.bytes.length
decreasing_by exact Layer.length_next_lt _hnext

/-- Reads a network from a source. -/
def ofSource (s : Layer.Source) : Except LayerError Network := (readAll [] s).map Network.mk

/-- Reads a network from bytes in memory. -/
def ofBytes (bytes : List UInt8) : Except LayerError Network := ofSource (.ofBytes bytes)

/-- The bytes of a network's file. -/
def encode (n : Network) : List UInt8 := n.layers.flatMap Layer.encode

/-- Reads a network from a file. Whatever keeps a file from being found counts as its absence; a
    directory can be opened but not read. -/
def ofFile (files : FileTree) (path : String) : Except LayerError Network :=
  match files.find path with
  | .error _ => .error (.fileNotFound path)
  | .ok (_, .directory) => .error (.io (.file .isDirectory))
  | .ok (_, .file file) => ofBytes file.contents
  | .ok (_, .sink) => ofBytes []

/-- The number of layers. -/
def size (n : Network) : Nat := n.layers.length

/-- The weights of all layers. -/
def totalWeightCount (n : Network) : Nat := (n.layers.flatMap fun l => l.weights).length

/-- The most activations that one layer produces, zero for a network without layers. -/
def maxOutputWords (n : Network) : Except Trap Nat := do
  let sizes ← n.layers.mapM fun l => l.outputWords
  return sizes.foldl max 0

end Network

end DmaLink
