import DmaLink.Loopback
import DmaLink.Proofs.Engine.Courses

namespace DmaLink

namespace Loopback

/-- The size of the window of a channel. -/
def windowSize (channel : Channel) (d : Loopback) : Nat :=
  match channel with
  | .mm2s => d.source.size
  | .s2mm => d.destination.size

section Sizes

theorem size_answer (access : Window.Access) (w : Window) :
    (w.answer access).2.size = w.size := by
  cases access with
  | load start len => rfl
  | store start words =>
    simp only [Window.answer, Window.store]
    split
    · exact Memory.size_put ..
    · rfl

variable (channel : Channel) (d : Loopback)

theorem windowSize_finish (other : Channel) :
    (d.finish other).windowSize channel = d.windowSize channel := by
  simp only [finish]
  split <;> cases channel <;> rfl

theorem windowSize_completeChunk : d.completeChunk.windowSize channel = d.windowSize channel := by
  simp only [completeChunk]
  split
  · rfl
  split
  · rfl
  split
  · rfl
  split
  · cases channel <;> rfl
  split
  · cases channel <;> rfl
  rw [windowSize_finish]
  cases channel with
  | mm2s => rfl
  | s2mm => exact Memory.size_put ..

theorem windowSize_sendBurst (bytes : Nat) :
    (d.sendBurst bytes).windowSize channel = d.windowSize channel := by
  have htake (burst : List UInt64) : (d.takeBurst burst).windowSize channel =
      d.windowSize channel := by
    simp only [takeBurst]
    split <;> cases channel <;> rfl
  simp only [sendBurst]
  split
  · rfl
  split
  · cases channel <;> rfl
  split
  · cases channel <;> rfl
  rw [windowSize_completeChunk, windowSize_finish, htake]

theorem windowSize_control (other : Channel) (value : UInt32) :
    (d.control other value).windowSize channel = d.windowSize channel := by
  simp only [control]
  split
  · cases other <;> cases channel <;> rfl
  split
  · cases other with
    | mm2s => cases channel <;> rfl
    | s2mm =>
      rw [windowSize_completeChunk]
      cases channel <;> rfl
  · cases channel <;> rfl

/-- No register write changes the size of a window. -/
theorem windowSize_write (offset : Nat) (value : UInt32) :
    (d.write offset value).windowSize channel = d.windowSize channel := by
  have hlogged :
      ({ d with writes := d.writes.push ⟨offset, value⟩ } : Loopback).windowSize channel =
        d.windowSize channel := by
    cases channel <;> rfl
  have hset (d : Loopback) : (d.setRegister offset value).windowSize channel =
      d.windowSize channel := by
    cases channel <;> rfl
  have hcleared (d : Loopback) (other : Channel) (bits : UInt32) :
      (d.clearStatusBits other bits).windowSize channel = d.windowSize channel := by
    cases channel <;> rfl
  have harm (d : Loopback) (bytes : Nat) : (d.arm bytes).windowSize channel =
      d.windowSize channel := by
    simp only [arm]
    split
    · rw [windowSize_completeChunk]
      cases channel <;> rfl
    · rfl
  simp only [write]
  (repeat' split) <;>
    simp only [windowSize_control, windowSize_sendBurst, harm, hcleared, hset, hlogged]

theorem windowSize_answer (access : Link.Access) :
    (d.answer access).2.windowSize channel = d.windowSize channel := by
  cases access with
  | writeRegister offset value => exact windowSize_write channel d offset value
  | window other access =>
    cases other with
    | mm2s =>
      cases channel with
      | mm2s => exact size_answer access d.source
      | s2mm => rfl
    | s2mm =>
      cases channel with
      | mm2s => rfl
      | s2mm => exact size_answer access d.destination
  | takeInterrupt other =>
    simp only [answer]
    split <;> cases channel <;> rfl
  | rearm other =>
    simp only [answer]
    split <;> cases channel <;> rfl
  | _ => rfl

theorem windowSize_setStalled (stalled : Bool) :
    (d.setStalled stalled).windowSize channel = d.windowSize channel := by
  cases stalled with
  | true => cases channel <;> rfl
  | false =>
    simp only [setStalled, Bool.false_eq_true, if_false, windowSize_completeChunk]
    cases channel <;> rfl

/-- A simulated device gives the replies of a link with windows of the sizes of its own. -/
theorem admits_answer (access : Link.Access) :
    access.Admits (fun channel => d.windowSize channel) (d.answer access).1 := by
  have hstored (w : Window) (start : Nat) (words : List UInt64) :
      (w.store start words).1 = if start + words.length ≤ w.size then .ok ()
        else .error (.outOfBounds start words.length w.size) := apply_ite Prod.fst ..
  cases access with
  | window channel access =>
    cases access with
    | load start len => trivial
    | store start words => cases channel <;> exact hstored _ start words
  | awaitInterrupt channel limit =>
    intro cause hcause
    exact nomatch hcause
  | takeInterrupt channel =>
    intro cause hcause
    simp only [answer, Interrupt.Lines.take, Interrupt.Line.take] at hcause
    split at hcause
    · exact ⟨_, (Except.error.inj hcause).symm⟩
    · split at hcause
      · exact nomatch hcause
      · exact ⟨_, (Except.error.inj hcause).symm⟩
  | rearm channel =>
    intro cause hcause
    simp only [answer, Interrupt.Lines.rearm, Interrupt.Line.rearm] at hcause
    split at hcause
    · exact nomatch hcause
    · split at hcause
      · exact nomatch hcause
      · exact ⟨_, (Except.error.inj hcause).symm⟩
  | _ => trivial

end Sizes

/-- The simulated device answers accesses of its windows as windows of fixed sizes do. -/
theorem lawful : Device.Lawful windowSize where
  size_answer channel access d := windowSize_answer channel d access
  admits access d := admits_answer d access

/-- The simulated device refuses exactly what runs past the end of a window. -/
theorem guarded : Device.Guarded windowSize := by
  intro channel start words d hpast
  have hrefused (w : Window) (hw : w.size < start + words.length) :
      (w.store start words).2 = w := by
    rw [Window.store, if_neg (Nat.not_le.2 hw)]
  cases channel with
  | mm2s => exact congrArg (fun source => { d with source }) (hrefused d.source hpast)
  | s2mm =>
    exact congrArg (fun destination => { d with destination }) (hrefused d.destination hpast)

/-- The sizes of its windows are all that the geometry of a device tells of it. -/
theorem geometry_eq_of_size {d d' : Loopback}
    (hsize : ∀ channel, d'.windowSize channel = d.windowSize channel) (burstWords : Nat) :
    d'.geometry burstWords = d.geometry burstWords := by
  have hsource : d'.source.size = d.source.size := hsize .mm2s
  have hdestination : d'.destination.size = d.destination.size := hsize .s2mm
  simp only [geometry, hsource, hdestination]

theorem geometry_run {α : Type} (p : Proc Link.io α) (d : Loopback) (burstWords : Nat) :
    (p.run answer d).2.geometry burstWords = d.geometry burstWords :=
  geometry_eq_of_size (fun channel => Proc.size_run lawful p d channel) burstWords

/-- A simulated device that is stalled and released while it is in use: after each access, as often
    as the next entry says. -/
structure Stalling where
  device : Loopback
  toggles : List (List Bool)

instance : Device Stalling where
  answer access link :=
    match link.device.answer access with
    | (reply, device) =>
      (reply, ⟨(link.toggles.headD []).foldl setStalled device, link.toggles.tail⟩)
  chunkBound link := link.device.chunkBound
  writeCount link := link.device.writes.size

/-- A device that stalls at any time is as lawful as one that does not. -/
theorem lawful_stalling :
    Device.Lawful fun channel (link : Stalling) => link.device.windowSize channel where
  size_answer channel access link := by
    have htoggled (toggles : List Bool) (d : Loopback) :
        (toggles.foldl setStalled d).windowSize channel = d.windowSize channel := by
      induction toggles generalizing d with
      | nil => rfl
      | cons stalled rest ih => rw [List.foldl_cons, ih, windowSize_setStalled]
    exact (htoggled _ _).trans (windowSize_answer channel link.device access)
  admits access link := admits_answer link.device access

theorem Stalling.geometry_run {α : Type} (p : Proc Link.io α) (link : Stalling)
    (burstWords : Nat) :
    (p.run Device.answer link).2.device.geometry burstWords = link.device.geometry burstWords :=
  geometry_eq_of_size (fun channel => Proc.size_run lawful_stalling p link channel) burstWords

end Loopback

end DmaLink
