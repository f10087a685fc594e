import DmaLink.Layer.Header

namespace DmaLink

/-- A layer as it is shipped to the controller. The weights lie in file order, the column fastest
    and the output channel slowest. -/
structure Layer extends Layer.Shape where
  weights : List Int
  biases : List Int
deriving DecidableEq, Repr

namespace Layer

/-- Looks up the weight for an output channel, an input channel, a row and a column. There is none
    if one of them is out of range, and then its place is not computed. -/
def lookUp (l : Layer) (output input row column : Nat) : Except Trap (Option Int) :=
  if output < l.outputChannels ∧ input < l.inputChannels ∧ row < l.kernelSide ∧
      column < l.kernelSide then do
    let place ← l.weightPlace output input row column
    return l.weights[place]?
  else return none

/-- The weight that a lookup finds. -/
def weight? (l : Layer) (output input row column : Nat) : Option Int :=
  match l.lookUp output input row column with
  | .ok weight => weight
  | .error _ => none

/-- The weights of an output channel; none if there is no such channel. -/
def kernel? (l : Layer) (output : Nat) : Except Trap (Option (List Int)) := do
  let len ← l.kernelWords
  let start := output * len
  if Size.limit ≤ start then return none
  let stop ← Size.add start len
  if stop ≤ l.weights.length then return some ((l.weights.drop start).take len) else return none

end Layer

end DmaLink
