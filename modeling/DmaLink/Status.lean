namespace DmaLink.Status

/-- The flag that asks for a channel that is not halted. It is no bit of the register. -/
def running : UInt32 := 0x0000

/-- The channel is halted. -/
def halted : UInt32 := 0x0001

/-- The transfer completed and the channel pauses. -/
def idle : UInt32 := 0x0002

/-- The block includes a scatter-gather engine. -/
def scatterGather : UInt32 := 0x0008

/-- An internal error: the lengths do not agree. -/
def internalError : UInt32 := 0x0010

/-- A slave error on the memory side. -/
def slaveError : UInt32 := 0x0020

/-- A decode error: the address is not valid. -/
def decodeError : UInt32 := 0x0040

/-- A scatter-gather internal error. -/
def scatterGatherInternalError : UInt32 := 0x0100

/-- A scatter-gather slave error. -/
def scatterGatherSlaveError : UInt32 := 0x0200

/-- A scatter-gather decode error. -/
def scatterGatherDecodeError : UInt32 := 0x0400

/-- The completion interrupt. -/
def completionInterrupt : UInt32 := 0x1000

/-- The delay interrupt. -/
def delayInterrupt : UInt32 := 0x2000

/-- The error interrupt. -/
def errorInterrupt : UInt32 := 0x4000

/-- The two bits that are both set once a burst is finished. -/
def transferDone : UInt32 := idle ||| completionInterrupt

/-- The bits that have a name of their own in reports, in report order. -/
def named : List (UInt32 × String) :=
  [(idle, "idle"), (scatterGather, "SGIncld"), (internalError, "DMAIntErr"),
    (slaveError, "DMASlvErr"), (decodeError, "DMADecErr"),
    (scatterGatherInternalError, "SGIntErr"), (scatterGatherSlaveError, "SGSlvErr"),
    (scatterGatherDecodeError, "SGDecErr"), (completionInterrupt, "IOC_Irq"),
    (delayInterrupt, "Dly_Irq"), (errorInterrupt, "Err_Irq")]

/-- Whether the halted bit is set. -/
def isHalted (status : UInt32) : Bool := status &&& halted != 0

/-- Whether the burst is finished. -/
def isDone (status : UInt32) : Bool := status &&& transferDone == transferDone

/-- Tests a status against one flag. `running` asks whether the halted bit is clear; any other
    flag asks whether one of its bits is set. -/
def shows (status flag : UInt32) : Bool :=
  if flag = running then !isHalted status else status &&& flag != 0

/-- The names of a status: `halted` or `running`, then those of its set bits. -/
def names (status : UInt32) : List String :=
  (if isHalted status then "halted" else "running") ::
    (named.filter fun bit => status &&& bit.1 != 0).map Prod.snd

end DmaLink.Status
