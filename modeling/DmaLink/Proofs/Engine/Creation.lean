import DmaLink.Engine
import Mathlib.Algebra.Group.Nat.Defs

namespace DmaLink

/-- The geometries that an engine is created for: two bursts with their tag words and two default
    chunks lie in their windows and below the end of 32-bit addressing, and a burst is not empty and
    not too long. -/
structure Geometry.Viable (g : Geometry) : Prop where
  burst_pos : 1 ≤ g.burstWords
  burst_le : 8 * (g.burstWords + 1) ≤ 2 ^ 23
  source_halves : 2 * (g.burstWords + 1) ≤ g.sourceWords
  source_end : g.sourceBase.toNat + 16 * (g.burstWords + 1) ≤ 2 ^ 32
  destination_halves : 64 ≤ g.destinationWords
  destination_end : g.destinationBase.toNat + 512 ≤ 2 ^ 32

/-- The engine that is created for a geometry. -/
def Geometry.engine (g : Geometry) (mode : SyncMode) : Engine where
  mode := mode
  source := ⟨g.sourceWords, g.sourceBase, g.burstWords + 1⟩
  destination := ⟨g.destinationWords, g.destinationBase, 32⟩
  limit := Engine.limitOf defaultTimeout
  readLength := Layout.defaultReadBytes
  burstWords := g.burstWords

/-- What the fault that a geometry is refused with says of it. -/
def ConfigurationFault.Describes (g : Geometry) : ConfigurationFault → Prop
  | .emptyBurst => g.burstWords = 0
  | .burstTooLong words => words = g.burstWords ∧ 2 ^ 23 < 8 * (words + 1)
  | .halvesExceedWindow half window =>
    half = g.burstWords + 1 ∧ window = g.sourceWords ∧ window < 2 * half ∨
      half = 32 ∧ window = g.destinationWords ∧ window < 2 * half
  | .beyondAddressing base =>
    base = g.sourceBase ∧ 2 ^ 32 < base.toNat + 16 * (g.burstWords + 1) ∨
      base = g.destinationBase ∧ 2 ^ 32 < base.toNat + 512
  | _ => False

/-- What a configuration fault describes is no viable geometry. -/
theorem ConfigurationFault.Describes.not_viable {g : Geometry} {cause : ConfigurationFault}
    (hdescribes : cause.Describes g) : ¬g.Viable := by
  rintro ⟨hpositive, hshort, hsource, hsourceEnd, hdestination, hdestinationEnd⟩
  cases cause with
  | emptyBurst =>
    have hempty : g.burstWords = 0 := hdescribes
    omega
  | burstTooLong words =>
    obtain ⟨rfl, hlong⟩ := hdescribes
    omega
  | halvesExceedWindow half window =>
    rcases hdescribes with ⟨rfl, rfl, hfew⟩ | ⟨rfl, rfl, hfew⟩ <;> omega
  | beyondAddressing base =>
    rcases hdescribes with ⟨rfl, hpast⟩ | ⟨rfl, hpast⟩ <;> omega
  | _ => exact hdescribes

/-- Halves fit a window below the end of 32-bit addressing, or one of the two is named that they
    run past. -/
theorem Split.fit_spec (s : Split) {halfWords : Nat} (hpositive : 0 < halfWords)
    (hsmall : 2 * halfWords < Size.limit) :
    (2 * halfWords ≤ s.windowWords ∧ s.base.toNat + 16 * halfWords ≤ 2 ^ 32 ∧
        s.fit halfWords = .ok { s with halfWords }) ∨
      (s.windowWords < 2 * halfWords ∧ s.fit halfWords =
        .error (.configuration (.halvesExceedWindow halfWords s.windowWords))) ∨
      2 ^ 32 < s.base.toNat + 16 * halfWords ∧
        s.fit halfWords = .error (.configuration (.beyondAddressing s.base)) := by
  have hdoubled : Size.doubled halfWords = 2 * halfWords := Nat.min_eq_left (by omega)
  have hbytes : 2 * halfWords * wordBytes = 16 * halfWords := by
    simp only [wordBytes]
    omega
  unfold fit
  rw [if_neg (Nat.ne_of_gt hpositive), hdoubled, hbytes]
  by_cases hwindow : s.windowWords < 2 * halfWords
  · exact .inr (.inl ⟨hwindow, if_pos hwindow⟩)
  rw [if_neg hwindow]
  by_cases hend : Layout.addressLimit < s.base.toNat + 16 * halfWords
  · exact .inr (.inr ⟨hend, if_pos hend⟩)
  · exact .inl ⟨Nat.le_of_not_lt hwindow, Nat.le_of_not_lt hend, if_neg hend⟩

namespace Engine

variable {mode : SyncMode} {g : Geometry}

theorem create_of_sum_too_large (hlarge : 2 ^ 64 ≤ g.burstWords + 1) :
    create mode g = .error (.trap .sumTooLarge) := by
  have hadd : Size.add g.burstWords 1 = .error .sumTooLarge := if_neg (Nat.not_lt.2 hlarge)
  simp only [create, hadd]
  rw [if_neg (by omega)]
  rfl

/-- Words whose bytes do not fit in 64 bits abandon what asks for the bytes. -/
theorem create_of_product_too_large (hlarge : 2 ^ 61 ≤ g.burstWords + 1)
    (hsum : g.burstWords + 1 < 2 ^ 64) : create mode g = .error (.trap .productTooLarge) := by
  have hadd : Size.add g.burstWords 1 = .ok (g.burstWords + 1) := if_pos hsum
  have hmul : Size.mul (g.burstWords + 1) wordBytes = .error .productTooLarge := by
    apply if_neg
    simp only [wordBytes, Size.limit]
    omega
  simp only [create, hadd]
  rw [if_neg (by omega)]
  change (Size.mul (g.burstWords + 1) wordBytes).mapError Fault.trap >>= _ = _
  rw [hmul]
  rfl

/-- A burst whose bytes fit in 64 bits is refused for its length or left to the two windows. -/
theorem create_eq (hpositive : 1 ≤ g.burstWords) (hproduct : g.burstWords + 1 < 2 ^ 61) :
    create mode g =
      if 2 ^ 23 < 8 * (g.burstWords + 1) then
        .error (.error (.configuration (.burstTooLong g.burstWords)))
      else do
        let source ← (g.source.fit (g.burstWords + 1)).mapError Fault.error
        let destination ← (g.destination.fit 32).mapError Fault.error
        return { g.engine mode with source, destination } := by
  have hadd : Size.add g.burstWords 1 = .ok (g.burstWords + 1) :=
    Size.add_eq_ok_iff.2 ⟨Nat.lt_trans hproduct (by decide), rfl⟩
  have hmul : Size.mul (g.burstWords + 1) wordBytes = .ok (8 * (g.burstWords + 1)) := by
    rw [Size.mul_eq_ok_iff, Nat.mul_comm]
    refine ⟨?_, rfl⟩
    simp only [wordBytes, Size.limit]
    omega
  simp only [create, hadd]
  rw [if_neg (by omega)]
  change (Size.mul (g.burstWords + 1) wordBytes).mapError Fault.trap >>= _ = _
  rw [hmul]
  rfl

/-- An engine is created for a viable geometry, or the geometry is refused for something that is so
    of it. -/
theorem create_spec_of_short (mode : SyncMode) (hpositive : 1 ≤ g.burstWords)
    (hshort : 8 * (g.burstWords + 1) ≤ 2 ^ 23) :
    (g.Viable ∧ create mode g = .ok (g.engine mode)) ∨
      ∃ cause, create mode g = .error (.error (.configuration cause)) ∧ cause.Describes g := by
  rw [create_eq hpositive (by omega), if_neg (Nat.not_lt.2 hshort)]
  have hsmall : 2 * (g.burstWords + 1) < Size.limit := by
    simp only [Size.limit]
    omega
  obtain ⟨hsource, hsourceEnd, hfit⟩ | ⟨hfew, hfit⟩ | ⟨hpast, hfit⟩ :=
    g.source.fit_spec (Nat.succ_pos g.burstWords) hsmall
  · rw [hfit]
    obtain ⟨hdestination, hdestinationEnd, hfit'⟩ | ⟨hfew, hfit'⟩ | ⟨hpast, hfit'⟩ :=
      g.destination.fit_spec (by decide : 0 < 32) (by decide)
    · rw [hfit']
      exact .inl ⟨⟨hpositive, hshort, hsource, hsourceEnd, hdestination, hdestinationEnd⟩, rfl⟩
    · rw [hfit']
      exact .inr ⟨_, rfl, .inr ⟨rfl, rfl, hfew⟩⟩
    · rw [hfit']
      exact .inr ⟨_, rfl, .inr ⟨rfl, hpast⟩⟩
  · rw [hfit]
    exact .inr ⟨_, rfl, .inl ⟨rfl, rfl, hfew⟩⟩
  · rw [hfit]
    exact .inr ⟨_, rfl, .inl ⟨rfl, hpast⟩⟩

/-- With a burst length whose bytes can be counted, an engine is created from a viable geometry, and
    from any other one of its faults is told. -/
theorem create_spec (mode : SyncMode) (hproduct : g.burstWords + 1 < 2 ^ 61) :
    (g.Viable ∧ create mode g = .ok (g.engine mode)) ∨
      ∃ cause, create mode g = .error (.error (.configuration cause)) ∧ cause.Describes g := by
  rcases Nat.eq_zero_or_pos g.burstWords with hempty | hpositive
  · exact .inr ⟨.emptyBurst, if_pos hempty, hempty⟩
  · rcases Nat.lt_or_ge (2 ^ 23) (8 * (g.burstWords + 1)) with hlong | hshort
    · exact .inr ⟨_, (create_eq hpositive hproduct).trans (if_pos hlong), rfl, hlong⟩
    · exact create_spec_of_short mode hpositive hshort

/-- A viable geometry gives an engine. -/
theorem create_of_viable (mode : SyncMode) (hviable : g.Viable) :
    create mode g = .ok (g.engine mode) := by
  have hshort := hviable.burst_le
  obtain ⟨-, hcreate⟩ | ⟨cause, -, hdescribes⟩ := create_spec (g := g) mode (by omega)
  · exact hcreate
  · exact absurd hviable hdescribes.not_viable

/-- An engine comes from a viable geometry alone. -/
theorem viable_of_create_eq_ok {e : Engine} (hcreate : create mode g = .ok e) :
    g.Viable ∧ e = g.engine mode := by
  rcases Nat.lt_or_ge (g.burstWords + 1) (2 ^ 61) with hproduct | hlarge
  · obtain ⟨hviable, hcreated⟩ | ⟨cause, herror, -⟩ := create_spec mode hproduct
    · exact ⟨hviable, Except.ok.inj (hcreate.symm.trans hcreated)⟩
    · rw [hcreate] at herror
      cases herror
  · rcases Nat.lt_or_ge (g.burstWords + 1) (2 ^ 64) with hsum | hlarger
    · rw [create_of_product_too_large hlarge hsum] at hcreate
      cases hcreate
    · rw [create_of_sum_too_large hlarger] at hcreate
      cases hcreate

/-- An engine is created exactly for the viable geometries. Any other is refused for something that
    is so of it if the bytes of a burst fit in 64 bits; if they do not, or the words of a burst with
    its tag do not, creating is abandoned. -/
theorem create_decides (mode : SyncMode) (g : Geometry) :
    (∀ e, create mode g = .ok e ↔ g.Viable ∧ e = g.engine mode) ∧
      (g.burstWords + 1 < 2 ^ 61 → ¬g.Viable →
        ∃ cause, create mode g = .error (.error (.configuration cause)) ∧ cause.Describes g) ∧
      (2 ^ 61 ≤ g.burstWords + 1 → g.burstWords + 1 < 2 ^ 64 →
        create mode g = .error (.trap .productTooLarge)) ∧
      (2 ^ 64 ≤ g.burstWords + 1 → create mode g = .error (.trap .sumTooLarge)) := by
  refine ⟨fun e => ?_, fun hproduct hrefused => ?_, create_of_product_too_large,
    create_of_sum_too_large⟩
  · constructor
    · exact viable_of_create_eq_ok
    · rintro ⟨hviable, rfl⟩
      exact create_of_viable mode hviable
  · exact (create_spec mode hproduct).resolve_left fun hcreated => hrefused hcreated.1

/-- Two halves of three words and of 32 fit windows of 6 and of 64 words, and do not fit one of
    five. The largest bursts take more bytes, and with their tag word more words, than 64 bits
    count. -/
theorem create_decides_bursts :
    create .poll ⟨6, 0, 64, 0, 2⟩ = .ok (Geometry.engine ⟨6, 0, 64, 0, 2⟩ .poll) ∧
      (∃ cause, create .poll ⟨5, 0, 64, 0, 2⟩ = .error (.error (.configuration cause)) ∧
        cause.Describes ⟨5, 0, 64, 0, 2⟩) ∧
      create .poll ⟨1024, 0, 1024, 0, 2305843009213693951⟩ = .error (.trap .productTooLarge) ∧
      create .poll ⟨1024, 0, 1024, 0, 18446744073709551615⟩ = .error (.trap .sumTooLarge) := by
  refine ⟨((create_decides .poll _).1 _).2 ⟨?_, rfl⟩, (create_decides .poll _).2.1 (by decide) ?_,
    (create_decides .poll _).2.2.1 (by decide) (by decide),
    (create_decides .poll _).2.2.2 (by decide)⟩
  · exact ⟨by decide, by decide, by decide, by decide, by decide, by decide⟩
  · intro hviable
    exact absurd hviable.source_halves (by decide)

end Engine

end DmaLink
