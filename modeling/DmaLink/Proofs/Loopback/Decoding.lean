import DmaLink.Proofs.Engine.Intents
import DmaLink.Proofs.Loopback.Lawful
import DmaLink.Proofs.Loopback.Port

namespace DmaLink

/-- Setting other bits leaves the decode error as it is. -/
theorem Status.clean_or {status bits : UInt32} (hclean : status &&& decodeError = 0)
    (hbits : bits &&& decodeError = 0) : (status ||| bits) &&& decodeError = 0 := by
  have hdistrib : (status ||| bits) &&& decodeError =
      status &&& decodeError ||| bits &&& decodeError :=
    UInt32.toBitVec_inj.1 BitVec.and_or_distrib_right
  rw [hdistrib, hclean, hbits, UInt32.or_zero]

theorem Status.clean_and {status : UInt32} (hclean : status &&& decodeError = 0) (mask : UInt32) :
    status &&& mask &&& decodeError = 0 := by
  rw [UInt32.and_assoc, UInt32.and_comm mask, ← UInt32.and_assoc, hclean, UInt32.zero_and]

namespace Loopback

/-- A range that a transfer of a channel finds in its window. -/
def Reaches (base address : UInt32) (words size : Nat) : Prop :=
  ∃ start, position? address base = some start ∧ start + words ≤ size

/-- What a window covers can be reached in it. -/
theorem reaches_of_covers {g : Geometry} {channel : Channel} {address length : UInt32}
    (hcovers : g.Covers channel address length) :
    Reaches (g.base channel) address (length.toNat / wordBytes) (g.words channel) := by
  have hbase : g.base channel ≤ address := UInt32.le_iff_toNat_le.2 hcovers.base_le
  have hwhole := Nat.mod_eq_zero_of_dvd hcovers.offset_whole
  refine ⟨(address.toNat - (g.base channel).toNat) / wordBytes, ?_, ?_⟩
  · simp only [position?, hbase, hwhole, and_self, if_true]
  · have hinside := hcovers.inside
    have hlength := hcovers.length_whole
    simp only [wordBytes] at hinside hwhole hlength ⊢
    omega

/-- A device without a decode error, with these addresses in its registers, whose armed chunk lies
    in the destination window. -/
structure Decodes (d : Loopback) (g : Geometry) (address : Channel → UInt32) : Prop where
  source_size : d.source.size = g.sourceWords
  destination_size : d.destination.size = g.destinationWords
  address_eq : ∀ channel : Channel, d.register channel.address = address channel
  clean : ∀ channel, d.status channel &&& Status.decodeError = 0
  armed : ∀ arming, d.armed = some arming →
    Reaches destinationBase arming.address arming.words g.destinationWords

variable {d : Loopback} {g : Geometry} {address : Channel → UInt32}

/-- A register other than an address may be set to anything, if a status stays clean. -/
theorem Decodes.setRegister (hdecodes : d.Decodes g address) (channel : Channel) {offset : Nat}
    (value : UInt32) (hoffset : offset ∈ [channel.control, channel.status, channel.length])
    (hvalue : offset = channel.status → value &&& Status.decodeError = 0) :
    (d.setRegister offset value).Decodes g address := by
  have hrange : offset / 4 < 23 := by
    simp only [List.mem_cons, List.not_mem_nil, or_false] at hoffset
    rcases hoffset with rfl | rfl | rfl <;> cases channel <;> decide
  refine ⟨hdecodes.source_size, hdecodes.destination_size, ?_, ?_, hdecodes.armed⟩
  · intro other
    have hne : other.address / 4 ≠ offset / 4 := by
      simp only [List.mem_cons, List.not_mem_nil, or_false] at hoffset
      rcases hoffset with rfl | rfl | rfl <;> cases channel <;> cases other <;> decide
    rw [register_setRegister d hrange, if_neg hne]
    exact hdecodes.address_eq other
  · intro other
    rw [status, register_setRegister d hrange]
    split
    case isTrue hsame =>
      apply hvalue
      simp only [List.mem_cons, List.not_mem_nil, or_false] at hoffset
      rcases hoffset with rfl | rfl | rfl <;> cases channel <;> cases other <;>
        first | rfl | exact absurd hsame (by decide)
    case isFalse => exact hdecodes.clean other

/-- A device follows the addresses that are written. -/
theorem Decodes.setAddress (hdecodes : d.Decodes g address) (channel : Channel) (value : UInt32) :
    (d.setRegister channel.address value).Decodes g
      fun other => if channel.address = other.address then value else address other := by
  have hrange : channel.address / 4 < 23 := by
    cases channel <;> decide
  refine ⟨hdecodes.source_size, hdecodes.destination_size, ?_, ?_, hdecodes.armed⟩
  · intro other
    rw [register_setRegister d hrange, hdecodes.address_eq]
    cases channel <;> cases other <;> rfl
  · intro other
    have hne : other.status / 4 ≠ channel.address / 4 := by
      cases channel <;> cases other <;> decide
    rw [status, register_setRegister d hrange, if_neg hne]
    exact hdecodes.clean other

theorem Decodes.setStatusBits (hdecodes : d.Decodes g address) (channel : Channel) (bits : UInt32)
    (hbits : bits &&& Status.decodeError = 0) : (d.setStatusBits channel bits).Decodes g address :=
  hdecodes.setRegister channel _ (by simp) fun _ => Status.clean_or (hdecodes.clean channel) hbits

theorem Decodes.clearStatusBits (hdecodes : d.Decodes g address) (channel : Channel)
    (bits : UInt32) : (d.clearStatusBits channel bits).Decodes g address :=
  hdecodes.setRegister channel _ (by simp) fun _ => Status.clean_and (hdecodes.clean channel) _

theorem Decodes.finish (hdecodes : d.Decodes g address) (channel : Channel) :
    (d.finish channel).Decodes g address := by
  have hdone := hdecodes.setStatusBits channel Status.transferDone (by decide)
  simp only [Loopback.finish]
  split
  · exact ⟨hdone.source_size, hdone.destination_size, hdone.address_eq, hdone.clean, hdone.armed⟩
  · exact hdone

theorem Decodes.completeChunk (hdecodes : d.Decodes g address) :
    d.completeChunk.Decodes g address := by
  simp only [Loopback.completeChunk]
  split
  · exact hdecodes
  · split
    · exact hdecodes
    · next arming harmed =>
      obtain ⟨start, hposition, hrange⟩ := hdecodes.armed arming harmed
      simp only [hposition]
      split
      · exact hdecodes
      -- Only a range past the end of the window would raise the error.
      · split
        case isTrue hpast =>
          rw [hdecodes.destination_size] at hpast
          omega
        case isFalse =>
          apply Decodes.finish
          refine ⟨hdecodes.source_size, ?_, hdecodes.address_eq, hdecodes.clean, ?_⟩
          · simp only [Window.size, Memory.size_put]
            exact hdecodes.destination_size
          · intro arming harming
            cases harming

theorem Decodes.setStalled (hdecodes : d.Decodes g address) (stalled : Bool) :
    (d.setStalled stalled).Decodes g address := by
  have hset : ({ d with stalled } : Loopback).Decodes g address :=
    ⟨hdecodes.source_size, hdecodes.destination_size, hdecodes.address_eq, hdecodes.clean,
      hdecodes.armed⟩
  cases stalled with
  | true => exact hset
  | false => exact hset.completeChunk

theorem Decodes.takeBurst (hdecodes : d.Decodes g address) (burst : List UInt64) :
    (d.takeBurst burst).Decodes g address := by
  unfold Loopback.takeBurst
  split <;> exact ⟨hdecodes.source_size, hdecodes.destination_size, hdecodes.address_eq,
    hdecodes.clean, hdecodes.armed⟩

theorem Decodes.sendBurst (hdecodes : d.Decodes g address) {bytes : Nat}
    (hreaches : Reaches sourceBase (address .mm2s) (bytes / wordBytes) g.sourceWords) :
    (d.sendBurst bytes).Decodes g address := by
  obtain ⟨start, hposition, hrange⟩ := hreaches
  unfold Loopback.sendBurst
  split
  · exact hdecodes
  · rw [hdecodes.address_eq .mm2s, hposition]
    simp only
    split
    case isTrue hpast =>
      rw [hdecodes.source_size] at hpast
      omega
    case isFalse => exact ((hdecodes.takeBurst _).finish .mm2s).completeChunk

theorem Decodes.arm (hdecodes : d.Decodes g address) {bytes : Nat}
    (hreaches : Reaches destinationBase (address .s2mm) (bytes / wordBytes) g.destinationWords) :
    (d.arm bytes).Decodes g address := by
  unfold Loopback.arm
  split
  · apply Decodes.completeChunk
    refine ⟨hdecodes.source_size, hdecodes.destination_size, hdecodes.address_eq,
      hdecodes.clean, ?_⟩
    intro arming harming
    obtain rfl := Option.some.inj harming
    rw [hdecodes.address_eq]
    exact hreaches
  · exact hdecodes

theorem Decodes.powerOn (hdecodes : d.Decodes g address) (channel : Channel) :
    (d.powerOn channel).Decodes g address := by
  have hset : ((d.setRegister channel.control Control.halt).setRegister channel.status
      Status.halted).Decodes g address :=
    (hdecodes.setRegister channel _ (by simp) fun _ => by decide).setRegister channel _ (by simp)
      fun _ => by decide
  cases channel with
  | mm2s => exact hset
  | s2mm =>
    refine ⟨hset.source_size, hset.destination_size, hset.address_eq, hset.clean, ?_⟩
    intro arming harming
    exact nomatch harming

/-- No control word shows a decode error. -/
theorem Decodes.control (hdecodes : d.Decodes g address) (channel : Channel) (value : UInt32) :
    (d.control channel value).Decodes g address := by
  have hset : (d.setRegister channel.control value).Decodes g address :=
    hdecodes.setRegister channel value (by simp) fun h => absurd h (by cases channel <;> decide)
  unfold Loopback.control
  split
  · exact hdecodes.powerOn channel
  · simp only
    split
    · have hrun := hset.clearStatusBits channel Status.halted
      cases channel with
      | mm2s => exact hrun
      | s2mm => exact hrun.completeChunk
    · exact hset.setStatusBits channel _ (by decide)

/-- A write to a register of a channel that, if it is a length, launches a range in the window. -/
theorem Decodes.write (hdecodes : d.Decodes g address) {channel : Channel} {offset : Nat}
    {value : UInt32} (howned : channel.owns offset = true)
    (hmm2s : offset = Channel.mm2s.length →
      Reaches sourceBase (address .mm2s) (value.toNat / wordBytes) g.sourceWords)
    (hs2mm : offset = Channel.s2mm.length →
      Reaches destinationBase (address .s2mm) (value.toNat / wordBytes) g.destinationWords) :
    (d.write offset value).Decodes g
      fun other => if offset = other.address then value else address other := by
  have hlogged :
      ({ d with writes := d.writes.push ⟨offset, value⟩ } : Loopback).Decodes g address :=
    ⟨hdecodes.source_size, hdecodes.destination_size, hdecodes.address_eq, hdecodes.clean,
      hdecodes.armed⟩
  have hkept (hother : ∀ other : Channel, offset ≠ other.address) :
      (fun other : Channel => if offset = other.address then value else address other) = address :=
    funext fun other => if_neg (hother other)
  simp only [Channel.owns, List.mem_cons, List.not_mem_nil, or_false, decide_eq_true_eq] at howned
  rcases howned with rfl | rfl | rfl | rfl
  · rw [hkept (by intro other; cases channel <;> cases other <;> decide)]
    cases channel <;> exact hlogged.control _ value
  · rw [hkept (by intro other; cases channel <;> cases other <;> decide)]
    cases channel <;> exact hlogged.clearStatusBits _ _
  · cases channel <;> exact hlogged.setAddress _ value
  · rw [hkept (by intro other; cases channel <;> cases other <;> decide)]
    have hlength : channel.length ∈ [channel.control, channel.status, channel.length] := by simp
    have hset := hlogged.setRegister channel value hlength
      fun h => absurd h (by cases channel <;> decide)
    cases channel with
    | mm2s => exact hset.sendBurst (hmm2s rfl)
    | s2mm => exact hset.arm (hs2mm rfl)

/-- An access that is no register write. -/
theorem Decodes.answer_of_writes_eq_nil (hdecodes : d.Decodes g address) {access : Link.Access}
    (hwrites : access.writes = []) : (d.answer access).2.Decodes g address := by
  obtain ⟨hsource, hdestination, haddress, hclean, harmed⟩ := hdecodes
  cases access with
  | readRegister offset => exact ⟨hsource, hdestination, haddress, hclean, harmed⟩
  | writeRegister offset value => exact nomatch hwrites
  | window channel access =>
    cases channel with
    | mm2s =>
      exact ⟨(size_answer access d.source).trans hsource, hdestination, haddress, hclean, harmed⟩
    | s2mm =>
      exact ⟨hsource, (size_answer access d.destination).trans hdestination, haddress, hclean,
        harmed⟩
  | pollDone channel limit => exact ⟨hsource, hdestination, haddress, hclean, harmed⟩
  | awaitInterrupt channel limit => exact ⟨hsource, hdestination, haddress, hclean, harmed⟩
  | takeInterrupt channel =>
    simp only [Loopback.answer]
    split <;> exact ⟨hsource, hdestination, haddress, hclean, harmed⟩
  | rearm channel =>
    simp only [Loopback.answer]
    split <;> exact ⟨hsource, hdestination, haddress, hclean, harmed⟩

/-- A device that has come through these register writes without a decode error. Its address
    registers hold what was written last. -/
def Tracks (d : Loopback) (g : Geometry) (history : List RegisterWrite) : Prop :=
  ∃ address, d.Decodes g address ∧ ∀ (channel : Channel) value,
    (history.filter fun write => channel.owns write.offset).getLast? =
      some ⟨channel.address, value⟩ → address channel = value

/-- A device follows orderly writes, whatever they are. -/
theorem Tracks.write {history : List RegisterWrite} (htracks : d.Tracks g history)
    (hsource : g.sourceBase = sourceBase) (hdestination : g.destinationBase = destinationBase)
    {offset : Nat} {value : UInt32} (horderly : g.Orderly (history ++ [⟨offset, value⟩])) :
    (d.write offset value).Tracks g (history ++ [⟨offset, value⟩]) := by
  obtain ⟨address, hdecodes, hlast⟩ := htracks
  obtain ⟨channel, howned⟩ := horderly.owned ⟨offset, value⟩ (by simp)
  have hreaches (launching : Channel) (hlength : offset = launching.length) :
      Reaches (g.base launching) (address launching) (value.toNat / wordBytes)
        (g.words launching) := by
    subst hlength
    obtain ⟨written, hwritten, hcovers⟩ := horderly.preceded history launching value [] rfl
    rw [hlast launching written hwritten]
    exact reaches_of_covers hcovers
  refine ⟨_, hdecodes.write howned ?_ ?_, ?_⟩
  · rw [← hsource]
    exact hreaches .mm2s
  · rw [← hdestination]
    exact hreaches .s2mm
  · intro other written hwritten
    rw [List.filter_append, List.getLast?_append] at hwritten
    cases hown : other.owns offset with
    | true =>
      simp only [List.filter_cons, hown, if_true, List.filter_nil, List.getLast?_singleton,
        Option.some_or, Option.some.injEq, RegisterWrite.mk.injEq] at hwritten
      rw [if_pos hwritten.1, hwritten.2]
    | false =>
      have hne : offset ≠ other.address := by
        intro haddress
        rw [haddress] at hown
        cases other <;> exact nomatch hown
      simp only [List.filter_cons, hown, Bool.false_eq_true, if_false, List.filter_nil,
        List.getLast?_nil, Option.none_or] at hwritten
      rw [if_neg hne]
      exact hlast other written hwritten

theorem Tracks.clean {history : List RegisterWrite} (htracks : d.Tracks g history)
    (channel : Channel) : d.status channel &&& Status.decodeError = 0 := by
  obtain ⟨address, hdecodes, -⟩ := htracks
  exact hdecodes.clean channel

/-- An access adds its register writes to the history. -/
theorem Tracks.answer {history : List RegisterWrite} (htracks : d.Tracks g history)
    (hsource : g.sourceBase = sourceBase) (hdestination : g.destinationBase = destinationBase)
    {access : Link.Access} (horderly : g.Orderly (history ++ access.writes)) :
    (d.answer access).2.Tracks g (history ++ access.writes) := by
  cases hwrites : access.writes with
  | nil =>
    obtain ⟨address, hdecodes, hlast⟩ := htracks
    rw [List.append_nil]
    exact ⟨address, hdecodes.answer_of_writes_eq_nil hwrites, hlast⟩
  | cons write rest =>
    cases access with
    | writeRegister offset value =>
      rw [← hwrites]
      exact htracks.write hsource hdestination horderly
    | _ => exact nomatch hwrites

theorem Tracks.setStalled {history : List RegisterWrite} (htracks : d.Tracks g history)
    (stalled : Bool) : (d.setStalled stalled).Tracks g history := by
  obtain ⟨address, hdecodes, hlast⟩ := htracks
  exact ⟨address, hdecodes.setStalled stalled, hlast⟩

theorem Tracks.toggle {history : List RegisterWrite} (htracks : d.Tracks g history)
    (toggles : List Bool) : (toggles.foldl Loopback.setStalled d).Tracks g history := by
  induction toggles generalizing d with
  | nil => exact htracks
  | cons stalled rest ih => exact ih (htracks.setStalled stalled)

/-- A device follows its writes from power-on. -/
theorem tracks_create (sourceWords destinationWords burstWords : Nat)
    (lines : Option Interrupt.Lines) :
    (create sourceWords destinationWords lines).Tracks
      ⟨sourceWords, sourceBase, destinationWords, destinationBase, burstWords⟩ [] := by
  refine ⟨fun _ => 0, ⟨?_, ?_, ?_, ?_, ?_⟩, ?_⟩
  · exact Array.size_replicate
  · exact Array.size_replicate
  · intro channel
    cases channel <;> rfl
  · intro channel
    have hstatus : (create sourceWords destinationWords lines).status channel = Status.halted := by
      cases channel <;> rfl
    rw [hstatus]
    decide
  · intro arming harming
    exact nomatch harming
  · intro channel value hlast
    exact nomatch hlast

end Loopback

end DmaLink
