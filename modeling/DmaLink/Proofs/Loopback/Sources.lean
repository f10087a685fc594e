import DmaLink.Proofs.Queue.Traffic
import DmaLink.Proofs.Loopback.Exchange

namespace DmaLink.Loopback

open Link (Access.Awaits)

/-- The device without what its source window holds, the address of the sending channel, and the
    log. -/
def unsourced (d : Loopback) : Loopback :=
  ({ d with source := .zeroed d.source.size, writes := #[] } : Loopback).setRegister
    Channel.mm2s.address 0

/-- Two devices that differ at most in what their source windows hold, in the address of the sending
    channel, and in their logs. -/
def Alike (d d' : Loopback) : Prop := d.unsourced = d'.unsourced

/-- Takes a burst in, unless the sending channel is halted or the device is stalled. -/
def takeIn (d : Loopback) (burst : List UInt64) : Loopback :=
  if !d.running .mm2s || d.stalled then d else ((d.takeBurst burst).finish .mm2s).completeChunk

section Unsourced

variable (d : Loopback)

/-- Only the source address looks different without sources. -/
theorem register_unsourced {offset : Nat} (hoffset : offset / 4 ≠ 6) :
    d.unsourced.register offset = d.register offset := by
  rw [unsourced, register_setRegister _ (by decide)]
  exact if_neg hoffset

theorem setRegister_unsourced {offset : Nat} (hoffset : offset / 4 ≠ 6) (value : UInt32) :
    (d.setRegister offset value).unsourced = d.unsourced.setRegister offset value := by
  have hcomm : (d.registers.setIfInBounds (offset / 4) value).setIfInBounds 6 0 =
      (d.registers.setIfInBounds 6 0).setIfInBounds (offset / 4) value :=
    Vector.toArray_inj.1 (Array.setIfInBounds_comm _ _ hoffset)
  exact congrArg (fun registers => { d.unsourced with registers }) hcomm

/-- The source address does not matter without sources. -/
theorem unsourced_setRegister_address (value : UInt32) :
    (d.setRegister Channel.mm2s.address value).unsourced = d.unsourced := by
  simp only [unsourced, setRegister, Vector.setIfInBounds_setIfInBounds]

theorem status_unsourced (channel : Channel) : d.unsourced.status channel = d.status channel :=
  register_unsourced d (by cases channel <;> decide)

theorem running_unsourced (channel : Channel) :
    d.unsourced.running channel = d.running channel := by
  rw [running, running, status_unsourced]

theorem setStatusBits_unsourced (channel : Channel) (bits : UInt32) :
    (d.setStatusBits channel bits).unsourced = d.unsourced.setStatusBits channel bits := by
  rw [setStatusBits, setStatusBits, setRegister_unsourced d (by cases channel <;> decide),
    status_unsourced]

theorem clearStatusBits_unsourced (channel : Channel) (bits : UInt32) :
    (d.clearStatusBits channel bits).unsourced = d.unsourced.clearStatusBits channel bits := by
  rw [clearStatusBits, clearStatusBits, setRegister_unsourced d (by cases channel <;> decide),
    status_unsourced]

theorem finish_unsourced (channel : Channel) :
    (d.finish channel).unsourced = d.unsourced.finish channel := by
  have hraised (d : Loopback) : (d.raise channel).unsourced = d.unsourced.raise channel := rfl
  have hcontrol : channel.control / 4 ≠ 6 := by cases channel <;> decide
  simp only [finish, register_unsourced d hcontrol]
  split
  · rw [hraised, setStatusBits_unsourced]
  · exact setStatusBits_unsourced d channel _

theorem completeChunk_unsourced : d.completeChunk.unsourced = d.unsourced.completeChunk := by
  have hstalled : d.unsourced.stalled = d.stalled := rfl
  have harmed : d.unsourced.armed = d.armed := rfl
  have hstream : d.unsourced.stream = d.stream := rfl
  have hlayer : d.unsourced.layerComplete = d.layerComplete := rfl
  have hdestination : d.unsourced.destination = d.destination := rfl
  simp only [completeChunk, running_unsourced, hstalled, harmed, hstream, hlayer, hdestination]
  split
  · rfl
  split
  · rfl
  split
  · rfl
  split
  · exact setStatusBits_unsourced _ .s2mm _
  split
  · exact setStatusBits_unsourced _ .s2mm _
  · exact finish_unsourced _ .s2mm

/-- A burst is taken in as its words are, wherever they stand. -/
theorem sendBurst_unsourced {bytes start : Nat} {burst : List UInt64}
    (hposition : position? (d.register Channel.mm2s.address) sourceBase = some start)
    (hrange : start + bytes / wordBytes ≤ d.source.size)
    (hburst : (d.source.words.extract start (start + bytes / wordBytes)).toList = burst) :
    (d.sendBurst bytes).unsourced = d.unsourced.takeIn burst := by
  have htake : (d.takeBurst burst).unsourced = d.unsourced.takeBurst burst := by
    simp only [takeBurst]
    split <;> rfl
  have hstalled : d.unsourced.stalled = d.stalled := rfl
  simp only [sendBurst, takeIn, running_unsourced, hstalled]
  split
  · rfl
  · rw [hposition]
    simp only [if_neg (Nat.not_lt.2 hrange)]
    rw [hburst, completeChunk_unsourced, finish_unsourced, htake]

/-- A launch at any place where the words of a burst stand has them taken in. -/
theorem unsourced_launch {address : UInt32} {start bytes : Nat} {burst : List UInt64}
    (hbytes : bytes < UInt32.size) (hposition : position? address sourceBase = some start)
    (hrange : start + bytes / wordBytes ≤ d.source.size)
    (hburst : (d.source.words.extract start (start + bytes / wordBytes)).toList = burst) :
    (d.run (Engine.launch .mm2s address bytes)).2.unsourced =
      (d.unsourced.setRegister Channel.mm2s.length (UInt32.ofNat bytes)).takeIn burst := by
  let aimed := d.write Channel.mm2s.address address
  have haimed : aimed.register Channel.mm2s.address = address := by
    have hset := register_setRegister
      ({ d with writes := d.writes.push ⟨Channel.mm2s.address, address⟩ } : Loopback)
      (show Channel.mm2s.address / 4 < 23 by decide) address Channel.mm2s.address
    rwa [if_pos rfl] at hset
  let armed := aimed.withLength .mm2s (UInt32.ofNat bytes)
  have harmed : armed.register Channel.mm2s.address = address := by
    rw [← haimed]
    exact (register_setRegister _ (show Channel.mm2s.length / 4 < 23 by decide) _ _).trans
      (if_neg (by decide))
  have hlaunched : (d.run (Engine.launch .mm2s address bytes)).2 = armed.sendBurst bytes :=
    congrArg armed.sendBurst (UInt32.toNat_ofNat_of_lt' hbytes)
  have hunsourced : armed.unsourced =
      d.unsourced.setRegister Channel.mm2s.length (UInt32.ofNat bytes) := by
    refine (setRegister_unsourced _ (by decide) _).trans ?_
    exact congrArg (setRegister · Channel.mm2s.length (UInt32.ofNat bytes))
      (unsourced_setRegister_address d address)
  rw [hlaunched, sendBurst_unsourced armed (by rw [harmed]; exact hposition) hrange hburst,
    hunsourced]

end Unsourced

variable {d d' : Loopback} {access : Link.Access}

namespace Alike

theorem received (halike : d.Alike d') : d.received = d'.received :=
  show d.unsourced.received = d'.unsourced.received by rw [halike]

theorem tags (halike : d.Alike d') : d.tags = d'.tags :=
  show d.unsourced.tags = d'.unsourced.tags by rw [halike]

theorem stream (halike : d.Alike d') : d.stream = d'.stream :=
  show d.unsourced.stream = d'.unsourced.stream by rw [halike]

theorem layerComplete (halike : d.Alike d') : d.layerComplete = d'.layerComplete :=
  show d.unsourced.layerComplete = d'.unsourced.layerComplete by rw [halike]

theorem destination (halike : d.Alike d') : d.destination = d'.destination :=
  show d.unsourced.destination = d'.unsourced.destination by rw [halike]

theorem lines (halike : d.Alike d') : d.lines = d'.lines :=
  show d.unsourced.lines = d'.unsourced.lines by rw [halike]

theorem status (halike : d.Alike d') (channel : Channel) :
    d.status channel = d'.status channel := by
  rw [← status_unsourced d, halike, status_unsourced]

theorem geometry (halike : d.Alike d') {burstWords : Nat} :
    d.geometry burstWords = d'.geometry burstWords := by
  have hgeometry (d : Loopback) : d.unsourced.geometry burstWords = d.geometry burstWords := by
    simp only [Loopback.geometry]
    congr 1
    exact Array.size_replicate
  rw [← hgeometry d, halike, hgeometry]

/-- Accesses that wait for a burst get the same reply from devices that are alike, and leave them
    alike. -/
theorem answer (halike : d.Alike d') (hawaits : access.Awaits .mm2s) :
    (d.answer access).1 = (d'.answer access).1 ∧
      (d.answer access).2.Alike (d'.answer access).2 := by
  have hleft : d.unsourced = d'.unsourced := halike
  have hlines := halike.lines
  have hrelined (lines : Option Interrupt.Lines) :
      ({ d.unsourced with lines } : Loopback) = { d'.unsourced with lines } := by rw [hleft]
  cases hawaits with
  | pollDone limit =>
    exact ⟨congrArg Status.isDone (halike.status .mm2s), halike⟩
  | awaitInterrupt limit =>
    have hsignalled : d.signalled .mm2s = d'.signalled .mm2s := by
      rw [signalled, hlines, signalled]
    exact ⟨congrArg Except.ok hsignalled, halike⟩
  | takeInterrupt =>
    simp only [Loopback.answer, hlines]
    split
    · exact ⟨rfl, halike⟩
    · exact ⟨rfl, hrelined _⟩
  | rearm =>
    simp only [Loopback.answer, hlines]
    split
    · exact ⟨rfl, halike⟩
    · exact ⟨rfl, hrelined _⟩
  | acknowledge bits =>
    have hwritten (d : Loopback) : (d.write Channel.mm2s.status bits).unsourced =
        d.unsourced.clearStatusBits .mm2s (bits &&& clearableBits) :=
      clearStatusBits_unsourced _ .mm2s _
    refine ⟨rfl, (hwritten d).trans ?_⟩
    rw [hleft]
    exact (hwritten d').symm

/-- A program that only waits for bursts goes the same way on devices that are alike. -/
theorem run {α : Type} {p : Proc Link.io α} (halike : d.Alike d')
    (hawaits : p.Uses (Access.Awaits .mm2s)) :
    (d.run p).1 = (d'.run p).1 ∧ (d.run p).2.Alike (d'.run p).2 := by
  induction p generalizing d d' with
  | ret result => exact ⟨rfl, halike⟩
  | act access next ih =>
    obtain ⟨_, haccess, hnext⟩ := hawaits (d.answer access).1
    obtain ⟨hreply, halike'⟩ := halike.answer haccess
    have hrun : d'.run (.act access next) =
        (d'.answer access).2.run (next (d.answer access).1) := by
      rw [hreply]
      rfl
    rw [hrun]
    exact ih _ halike' hnext

end Alike

end DmaLink.Loopback
