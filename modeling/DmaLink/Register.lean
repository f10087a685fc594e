namespace DmaLink

/-- The two directions of the link. Each has a control, a status, an address and a length register;
    writing the length starts a transfer, so the address is written first. -/
inductive Channel where
  /-- From memory to the stream: the host sends. -/
  | mm2s
  /-- From the stream to memory: the host receives. -/
  | s2mm
deriving DecidableEq, Repr

namespace Channel

/-- The name a channel has in messages. -/
def name : Channel → String
  | .mm2s => "MM2S"
  | .s2mm => "S2MM"

/-- The offset of the control register. -/
def control : Channel → Nat
  | .mm2s => 0x00
  | .s2mm => 0x30

/-- The offset of the status register. -/
def status : Channel → Nat
  | .mm2s => 0x04
  | .s2mm => 0x34

/-- The offset of the address register: the source of MM2S, the destination of S2MM. -/
def address : Channel → Nat
  | .mm2s => 0x18
  | .s2mm => 0x48

/-- The offset of the length register, in bytes. Writing it launches MM2S and arms S2MM. -/
def length : Channel → Nat
  | .mm2s => 0x28
  | .s2mm => 0x58

end Channel

namespace Control

/-- Stops the channel. -/
def halt : UInt32 := 0x0000

/-- Runs the channel with all interrupts disabled. -/
def run : UInt32 := 0x0001

/-- Returns the channel to its power-on state. -/
def reset : UInt32 := 0x0004

/-- Runs the channel with its completion, delay and error interrupts enabled. -/
def runInterrupting : UInt32 := 0xF001

end Control

/-- One write to a register. -/
structure RegisterWrite where
  offset : Nat
  value : UInt32
deriving DecidableEq, Repr

end DmaLink
