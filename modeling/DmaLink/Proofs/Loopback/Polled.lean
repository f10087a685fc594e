import DmaLink.Proofs.Loopback.Exchange

namespace DmaLink

/-- A control word with its interrupts off. -/
def Control.polled (word : UInt32) : UInt32 := word &&& ~~~0xF000

/-- A value for the register at an offset, with its interrupts off if it is a control word. -/
def Control.polledAt (offset : Nat) (value : UInt32) : UInt32 :=
  if offset / 4 = Channel.mm2s.control / 4 ∨ offset / 4 = Channel.s2mm.control / 4 then polled value
  else value

def RegisterWrite.polled (write : RegisterWrite) : RegisterWrite :=
  ⟨write.offset, Control.polledAt write.offset write.value⟩

/-- Other bits of a control word are kept. -/
theorem Control.polled_and (word : UInt32) {bits : UInt32} (hbits : ~~~0xF000 &&& bits = bits) :
    polled word &&& bits = word &&& bits := by
  rw [polled, UInt32.and_assoc, hbits]

theorem Control.polled_and_interrupts (word : UInt32) :
    polled word &&& Loopback.interruptEnable = 0 := by
  have hnone : ~~~0xF000 &&& Loopback.interruptEnable = 0 := by decide
  rw [polled, UInt32.and_assoc, hnone, UInt32.and_zero]

theorem Control.polledAt_zero (offset : Nat) : polledAt offset 0 = 0 := by
  unfold polledAt
  split <;> rfl

theorem Control.polledAt_control (channel : Channel) (value : UInt32) :
    polledAt channel.control value = polled value := by
  cases channel <;> rfl

theorem Control.polledAt_status (channel : Channel) (value : UInt32) :
    polledAt channel.status value = value := by
  cases channel <;> rfl

theorem Control.polledAt_address (channel : Channel) (value : UInt32) :
    polledAt channel.address value = value := by
  cases channel <;> rfl

theorem Control.polledAt_length (channel : Channel) (value : UInt32) :
    polledAt channel.length value = value := by
  cases channel <;> rfl

/-- Without its interrupt bits the control word of either mode is that of looking at the status. -/
theorem SyncMode.polled_runWord (mode : SyncMode) :
    Control.polled mode.runWord = SyncMode.poll.runWord := by
  cases mode <;> rfl

namespace Loopback

/-- The device with the interrupts of its channels off and these lines. -/
def polled (lines : Option Interrupt.Lines) (d : Loopback) : Loopback :=
  { d with
    registers := d.registers.mapIdx fun i value => Control.polledAt (4 * i) value
    writes := d.writes.map RegisterWrite.polled
    lines }

variable (lines : Option Interrupt.Lines) (d : Loopback)

/-- Only the control registers of a device look different without interrupts. -/
theorem register_polled (offset : Nat) :
    (d.polled lines).register offset = Control.polledAt offset (d.register offset) := by
  have hindex : 4 * (offset / 4) / 4 = offset / 4 := Nat.mul_div_cancel_left _ (by decide)
  simp only [register, polled, Vector.getElem?_mapIdx]
  cases d.registers[offset / 4]? with
  | none => exact (Control.polledAt_zero offset).symm
  | some value => simp only [Option.map_some, Option.getD_some, Control.polledAt, hindex]

/-- A register that is set looks as the write without interrupt bits does. -/
theorem setRegister_polled (offset : Nat) (value : UInt32) :
    (d.setRegister offset value).polled lines =
      (d.polled lines).setRegister offset (Control.polledAt offset value) := by
  have hindex : 4 * (offset / 4) / 4 = offset / 4 := Nat.mul_div_cancel_left _ (by decide)
  have hregisters : (d.registers.setIfInBounds (offset / 4) value).mapIdx
        (fun i value => Control.polledAt (4 * i) value) =
      (d.registers.mapIdx fun i value => Control.polledAt (4 * i) value).setIfInBounds (offset / 4)
        (Control.polledAt offset value) := by
    apply Vector.ext
    intro i hi
    simp only [Vector.getElem_mapIdx, Vector.getElem_setIfInBounds]
    split
    case isTrue hsame =>
      rw [← hsame]
      simp only [Control.polledAt, hindex]
    case isFalse => rfl
  simp only [setRegister, polled, hregisters]

theorem status_polled (channel : Channel) : (d.polled lines).status channel = d.status channel :=
  (register_polled lines d channel.status).trans (Control.polledAt_status channel _)

theorem running_polled (channel : Channel) :
    (d.polled lines).running channel = d.running channel := by
  rw [running, running, status_polled]

theorem setStatus_polled (channel : Channel) (value : UInt32) :
    (d.setRegister channel.status value).polled lines =
      (d.polled lines).setRegister channel.status value := by
  rw [setRegister_polled, Control.polledAt_status]

theorem setStatusBits_polled (channel : Channel) (bits : UInt32) :
    (d.setStatusBits channel bits).polled lines = (d.polled lines).setStatusBits channel bits := by
  rw [setStatusBits, setStatusBits, setStatus_polled, status_polled]

theorem clearStatusBits_polled (channel : Channel) (bits : UInt32) :
    (d.clearStatusBits channel bits).polled lines =
      (d.polled lines).clearStatusBits channel bits := by
  rw [clearStatusBits, clearStatusBits, setStatus_polled, status_polled]

/-- Without interrupts a finished burst shows in the status alone. -/
theorem finish_polled (channel : Channel) :
    (d.finish channel).polled lines = (d.polled lines).finish channel := by
  have hdisabled : (d.polled lines).register channel.control &&& interruptEnable = 0 := by
    rw [register_polled, Control.polledAt_control, Control.polled_and_interrupts]
  have hraised (d : Loopback) : (d.raise channel).polled lines = d.polled lines := rfl
  simp only [finish, hdisabled, bne_self_eq_false, Bool.false_eq_true, if_false]
  split
  · rw [hraised, setStatusBits_polled]
  · exact setStatusBits_polled lines d channel _

theorem completeChunk_polled : d.completeChunk.polled lines = (d.polled lines).completeChunk := by
  have hstalled : (d.polled lines).stalled = d.stalled := rfl
  have harmed : (d.polled lines).armed = d.armed := rfl
  have hstream : (d.polled lines).stream = d.stream := rfl
  have hlayer : (d.polled lines).layerComplete = d.layerComplete := rfl
  have hdestination : (d.polled lines).destination = d.destination := rfl
  simp only [completeChunk, running_polled, hstalled, harmed, hstream, hlayer, hdestination]
  split
  · rfl
  split
  · rfl
  split
  · rfl
  split
  · exact setStatusBits_polled lines _ .s2mm _
  split
  · exact setStatusBits_polled lines _ .s2mm _
  · exact finish_polled lines _ .s2mm

theorem sendBurst_polled (bytes : Nat) :
    (d.sendBurst bytes).polled lines = (d.polled lines).sendBurst bytes := by
  have htake (burst : List UInt64) :
      (d.takeBurst burst).polled lines = (d.polled lines).takeBurst burst := by
    simp only [takeBurst]
    split <;> rfl
  have hstalled : (d.polled lines).stalled = d.stalled := rfl
  have hsource : (d.polled lines).source = d.source := rfl
  simp only [sendBurst, running_polled, hstalled, hsource, register_polled,
    Control.polledAt_address]
  split
  · rfl
  split
  · exact setStatusBits_polled lines d .mm2s _
  split
  · exact setStatusBits_polled lines d .mm2s _
  · rw [completeChunk_polled, finish_polled, htake]

theorem arm_polled (bytes : Nat) : (d.arm bytes).polled lines = (d.polled lines).arm bytes := by
  simp only [arm, running_polled, register_polled, Control.polledAt_address]
  split
  · exact completeChunk_polled lines _
  · rfl

theorem powerOn_polled (channel : Channel) :
    (d.powerOn channel).polled lines = (d.polled lines).powerOn channel := by
  have hset : ((d.setRegister channel.control Control.halt).setRegister channel.status
        Status.halted).polled lines =
      ((d.polled lines).setRegister channel.control Control.halt).setRegister channel.status
        Status.halted := by
    rw [setStatus_polled, setRegister_polled, Control.polledAt_control]
    rfl
  cases channel with
  | mm2s => exact hset
  | s2mm => exact congrArg (fun d : Loopback => { d with armed := none }) hset

theorem control_polled (channel : Channel) (value : UInt32) :
    (d.control channel value).polled lines =
      (d.polled lines).control channel (Control.polled value) := by
  have hreset : Control.polled value &&& Control.reset = value &&& Control.reset :=
    Control.polled_and value (by decide)
  have hrun : Control.polled value &&& Control.run = value &&& Control.run :=
    Control.polled_and value (by decide)
  have hset : (d.setRegister channel.control value).polled lines =
      (d.polled lines).setRegister channel.control (Control.polled value) := by
    rw [setRegister_polled, Control.polledAt_control]
  simp only [control, hreset, hrun]
  split
  · exact powerOn_polled lines d channel
  split
  · cases channel with
    | mm2s => rw [clearStatusBits_polled, hset]
    | s2mm => rw [completeChunk_polled, clearStatusBits_polled, hset]
  · rw [setStatusBits_polled, hset]

/-- Any write acts on a device without interrupts as it does with them, but for the interrupt bits.
    -/
theorem write_polled (offset : Nat) (value : UInt32) :
    (d.write offset value).polled lines =
      (d.polled lines).write offset (Control.polledAt offset value) := by
  have hlogged : ({ d with writes := d.writes.push ⟨offset, value⟩ } : Loopback).polled lines =
      { d.polled lines with
        writes := (d.polled lines).writes.push ⟨offset, Control.polledAt offset value⟩ } := by
    simp only [polled, Array.map_push]
    rfl
  simp only [write]
  rw [← hlogged]
  split
  case isTrue h => rw [h, Control.polledAt_control, control_polled]
  split
  case isTrue h => rw [h, Control.polledAt_control, control_polled]
  split
  case isTrue h => rw [h, Control.polledAt_status, clearStatusBits_polled]
  split
  case isTrue h => rw [h, Control.polledAt_status, clearStatusBits_polled]
  split
  case isTrue h => rw [h, Control.polledAt_length, sendBurst_polled, setRegister_polled,
    Control.polledAt_length]
  split
  case isTrue h => rw [h, Control.polledAt_length, arm_polled, setRegister_polled,
    Control.polledAt_length]
  · exact setRegister_polled lines _ offset value

theorem setStalled_polled (stalled : Bool) :
    (d.setStalled stalled).polled lines = (d.polled lines).setStalled stalled := by
  cases stalled with
  | true => rfl
  | false => exact completeChunk_polled lines { d with stalled := false }

theorem polled_create (sourceWords destinationWords : Nat) (lines' : Option Interrupt.Lines) :
    (create sourceWords destinationWords lines').polled lines =
      create sourceWords destinationWords lines := by
  have hregisters : (Vector.replicate 23 (0 : UInt32)).mapIdx
      (fun i value => Control.polledAt (4 * i) value) = Vector.replicate 23 0 := by
    apply Vector.ext
    intro i hi
    simp only [Vector.getElem_mapIdx, Vector.getElem_replicate, Control.polledAt_zero]
  rw [create, powerOn_polled, powerOn_polled]
  simp only [create, polled, hregisters, List.map_toArray, List.map_nil]

end Loopback

end DmaLink
