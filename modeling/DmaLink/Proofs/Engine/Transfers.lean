import DmaLink.Proofs.Engine.Courses
import DmaLink.Proofs.Engine.Geometry
import DmaLink.Proofs.Engine.Pieces

namespace DmaLink

/-- Whether a register is one of a channel. -/
def Channel.owns (channel : Channel) (offset : Nat) : Bool :=
  offset ∈ [channel.control, channel.status, channel.address, channel.length]

theorem Channel.length_ne_address (channel other : Channel) : channel.length ≠ other.address := by
  cases channel <;> cases other <;> decide

theorem Channel.eq_of_length_eq {channel other : Channel} (h : channel.length = other.length) :
    channel = other := by
  cases channel <;> cases other <;> first | rfl | exact absurd h (by decide)

/-- The registers of a channel but the one that launches a transfer. -/
def Channel.setup (channel : Channel) : List Nat :=
  [channel.control, channel.status, channel.address]

theorem Channel.length_not_mem_setup (channel other : Channel) : channel.length ∉ other.setup := by
  cases channel <;> cases other <;> decide

theorem Channel.owns_of_mem_setup {channel : Channel} {offset : Nat}
    (hoffset : offset ∈ channel.setup) : channel.owns offset = true := by
  simp only [setup, List.mem_cons, List.not_mem_nil, or_false] at hoffset
  simp only [owns, List.mem_cons, List.not_mem_nil, or_false, decide_eq_true_eq]
  omega

/-- The lengths written to either channel, in bytes. -/
def launched (writes : List RegisterWrite) : List (Channel × Nat) :=
  writes.filterMap fun write =>
    if write.offset = Channel.mm2s.length then some (.mm2s, write.value.toNat)
    else if write.offset = Channel.s2mm.length then some (.s2mm, write.value.toNat)
    else none

theorem Layout.toNat_ofNat_of_le {bytes : Nat} (hshort : bytes ≤ maxBurstBytes) :
    (UInt32.ofNat bytes).toNat = bytes := by
  apply UInt32.toNat_ofNat_of_lt'
  exact Nat.lt_of_le_of_lt hshort (by decide)

namespace Geometry

def base (g : Geometry) : Channel → UInt32
  | .mm2s => g.sourceBase
  | .s2mm => g.destinationBase

def words (g : Geometry) : Channel → Nat
  | .mm2s => g.sourceWords
  | .s2mm => g.destinationWords

/-- An address and a length, as the registers hold them, that name whole words inside the window of
    a channel, and no more of them than a transfer may have. -/
structure Covers (g : Geometry) (channel : Channel) (address length : UInt32) : Prop where
  positive : 0 < length.toNat
  length_whole : wordBytes ∣ length.toNat
  length_le : length.toNat ≤ Layout.maxBurstBytes
  base_le : (g.base channel).toNat ≤ address.toNat
  offset_whole : wordBytes ∣ address.toNat - (g.base channel).toNat
  inside : address.toNat - (g.base channel).toNat + length.toNat ≤ wordBytes * g.words channel

/-- Register writes of which each length comes right after an address on its channel, and the two
    name a range inside the window of the channel. -/
structure Orderly (g : Geometry) (writes : List RegisterWrite) : Prop where
  owned : ∀ write ∈ writes, ∃ channel : Channel, channel.owns write.offset = true
  preceded : ∀ before channel length after,
    writes = before ++ ⟨Channel.length channel, length⟩ :: after →
      ∃ address, (before.filter fun write => channel.owns write.offset).getLast? =
        some ⟨channel.address, address⟩ ∧ g.Covers channel address length

/-- Orderly register writes that launch these transfers and no others. -/
structure Makes (g : Geometry) (transfers : List (Channel × Nat)) (writes : List RegisterWrite) :
    Prop where
  orderly : g.Orderly writes
  launched_eq : launched writes = transfers

variable {g : Geometry}

theorem covers_of_words {channel : Channel} {address : UInt32} {words : Nat} (offset : Nat)
    (haddress : address.toNat = (g.base channel).toNat + offset * wordBytes)
    (hpositive : 0 < words) (hshort : words * wordBytes ≤ Layout.maxBurstBytes)
    (hinside : offset + words ≤ g.words channel) :
    g.Covers channel address (UInt32.ofNat (words * wordBytes)) := by
  have hlength := Layout.toNat_ofNat_of_le hshort
  have hoffset : address.toNat - (g.base channel).toNat = offset * wordBytes := by
    rw [haddress, Nat.add_sub_cancel_left]
  refine ⟨?_, ?_, ?_, ?_, ?_, ?_⟩
  · rw [hlength]
    exact Nat.mul_pos hpositive (by decide)
  · rw [hlength]
    exact Nat.dvd_mul_left _ _
  · rw [hlength]
    exact hshort
  · rw [haddress]
    exact Nat.le_add_right _ _
  · rw [hoffset]
    exact Nat.dvd_mul_left _ _
  · rw [hoffset, hlength, ← Nat.add_mul, Nat.mul_comm]
    exact Nat.mul_le_mul_left _ hinside

theorem Orderly.append {first second : List RegisterWrite} (hfirst : g.Orderly first)
    (hsecond : g.Orderly second) : g.Orderly (first ++ second) := by
  refine ⟨?_, ?_⟩
  · intro write hwrite
    rcases List.mem_append.1 hwrite with hmem | hmem
    · exact hfirst.owned write hmem
    · exact hsecond.owned write hmem
  · intro before channel length after hsplit
    -- At the seam the later writes would begin with a length, which nothing comes before.
    rcases List.append_eq_append_iff.1 hsplit with ⟨rest, rfl, hrest⟩ | ⟨rest, hrest, hafter⟩
    · obtain ⟨address, hlast, hcovers⟩ := hsecond.preceded rest channel length after hrest
      refine ⟨address, ?_, hcovers⟩
      rw [List.filter_append, List.getLast?_append, hlast, Option.some_or]
    · rcases List.cons_eq_append_iff.1 hafter with ⟨rfl, rfl⟩ | ⟨more, rfl, -⟩
      · obtain ⟨address, hlast, -⟩ := hsecond.preceded [] channel length after rfl
        exact nomatch hlast
      · exact hfirst.preceded before channel length more hrest

theorem Orderly.of_append {first second : List RegisterWrite}
    (horderly : g.Orderly (first ++ second)) : g.Orderly first := by
  refine ⟨?_, ?_⟩
  · intro write hwrite
    exact horderly.owned write (List.mem_append_left _ hwrite)
  · intro before channel length after hsplit
    apply horderly.preceded before channel length (after ++ second)
    rw [hsplit, List.append_assoc, List.cons_append]

theorem Makes.append {transfers later : List (Channel × Nat)} {first second : List RegisterWrite}
    (hfirst : g.Makes transfers first) (hsecond : g.Makes later second) :
    g.Makes (transfers ++ later) (first ++ second) where
  orderly := hfirst.orderly.append hsecond.orderly
  launched_eq := by
    rw [launched, List.filterMap_append]
    rw [← launched, ← launched, hfirst.launched_eq, hsecond.launched_eq]

theorem Makes.append_nil {transfers : List (Channel × Nat)} {writes : List RegisterWrite}
    (hmakes : g.Makes transfers writes) : g.Makes transfers (writes ++ []) := by
  rw [List.append_nil]
  exact hmakes

/-- Writes that leave the lengths alone launch nothing. -/
theorem makes_nil {writes : List RegisterWrite}
    (hwrites : ∀ write ∈ writes, ∃ channel : Channel, write.offset ∈ channel.setup) :
    g.Makes [] writes := by
  refine ⟨⟨?_, ?_⟩, ?_⟩
  · intro write hwrite
    obtain ⟨channel, hoffset⟩ := hwrites write hwrite
    exact ⟨channel, Channel.owns_of_mem_setup hoffset⟩
  · rintro before channel length after rfl
    obtain ⟨other, hoffset⟩ := hwrites ⟨channel.length, length⟩ (by simp)
    exact absurd hoffset (channel.length_not_mem_setup other)
  · apply List.filterMap_eq_nil_iff.2
    intro write hwrite
    obtain ⟨other, hoffset⟩ := hwrites write hwrite
    have hne (channel : Channel) : write.offset ≠ channel.length := by
      intro h
      rw [h] at hoffset
      exact absurd hoffset (channel.length_not_mem_setup other)
    rw [if_neg (hne .mm2s), if_neg (hne .s2mm)]

theorem makes_empty : g.Makes [] [] := makes_nil fun _ hwrite => nomatch hwrite

/-- A launch makes the one transfer that its address and length are of. -/
theorem makes_launch {channel : Channel} {address : UInt32} {words : Nat}
    (hcovers : g.Covers channel address (UInt32.ofNat (words * wordBytes)))
    (hshort : words * wordBytes ≤ Layout.maxBurstBytes) :
    g.Makes [(channel, words * wordBytes)]
      [⟨channel.address, address⟩, ⟨channel.length, UInt32.ofNat (words * wordBytes)⟩] := by
  have hlength := Layout.toNat_ofNat_of_le hshort
  refine ⟨⟨?_, ?_⟩, ?_⟩
  · intro write hwrite
    refine ⟨channel, ?_⟩
    simp only [List.mem_cons, List.not_mem_nil, or_false] at hwrite
    rcases hwrite with rfl | rfl <;> cases channel <;> rfl
  · intro before other length after hsplit
    rcases before with _ | ⟨first, _ | ⟨second, rest⟩⟩
    · have hoffset := congrArg RegisterWrite.offset (List.cons.inj hsplit).1
      exact absurd hoffset.symm (other.length_ne_address channel)
    · simp only [List.cons_append, List.nil_append, List.cons.injEq,
        RegisterWrite.mk.injEq] at hsplit
      obtain ⟨rfl, ⟨hoffset, rfl⟩, -⟩ := hsplit
      obtain rfl := Channel.eq_of_length_eq hoffset
      refine ⟨address, ?_, hcovers⟩
      cases channel <;> rfl
    · have hlengths := congrArg List.length hsplit
      simp at hlengths
  · cases channel <;>
      simp only [launched, Channel.address, Channel.length, List.filterMap_cons,
        List.filterMap_nil, hlength] <;> rfl

end Geometry

end DmaLink
