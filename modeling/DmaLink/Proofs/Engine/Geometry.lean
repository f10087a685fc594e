import DmaLink.Loopback
import DmaLink.Proofs.Engine.Creation
import DmaLink.Proofs.Except

namespace DmaLink

namespace Memory

variable {α : Type}

theorem put_append (memory : Array α) (start : Nat) (values more : List α) :
    put memory start (values ++ more) =
      put (put memory start values) (start + values.length) more := by
  induction values generalizing memory start with
  | nil => rfl
  | cons value rest ih =>
    rw [List.cons_append, put, put, ih, List.length_cons, Nat.add_assoc, Nat.add_comm 1]

/-- What was put into memory is read back from there. -/
theorem extract_put {memory : Array α} {start length : Nat} {values : List α}
    (hlength : values.length = length) (hrange : start + length ≤ memory.size) :
    ((put memory start values).extract start (start + length)).toList = values := by
  subst hlength
  apply List.ext_getElem?
  intro i
  rw [Array.getElem?_toList, Array.getElem?_extract, getElem?_put, size_put]
  by_cases hi : i < values.length
  · rw [if_pos (by omega), if_pos (by omega), Nat.add_sub_cancel_left]
  · rw [if_neg (by omega), List.getElem?_eq_none (by omega)]

end Memory

namespace Split

/-- A split whose halves lie in a window of `size` words at `base`, below the end of 32-bit
    addressing. -/
structure Fits (s : Split) (base : UInt32) (size : Nat) : Prop where
  base_eq : s.base = base
  positive : 0 < s.halfWords
  halves : 2 * s.halfWords ≤ size
  addressing : base.toNat + 2 * s.halfWords * wordBytes ≤ Layout.addressLimit

/-- A split is made exactly if both halves lie in the window and within 32-bit addressing. -/
theorem fit_eq_ok_iff {s s' : Split} {halfWords : Nat} :
    s.fit halfWords = .ok s' ↔
      0 < halfWords ∧ 2 * halfWords ≤ s.windowWords ∧
        s.base.toNat + 2 * halfWords * wordBytes ≤ Layout.addressLimit ∧
          s' = { s with halfWords } := by
  have hdoubled : Size.doubled halfWords = min (2 * halfWords) (Size.limit - 1) := rfl
  simp only [fit, hdoubled, Size.limit, wordBytes, Layout.addressLimit]
  grind

variable {s : Split} {base : UInt32} {size : Nat}

/-- A half of a split that fits lies in its window. -/
theorem Fits.offset_le (hfits : s.Fits base size) (half : Half) :
    s.offset half + s.halfWords ≤ size := by
  have := hfits.halves
  cases half <;> simp only [offset] <;> omega

theorem Fits.bytes_lt (hfits : s.Fits base size) : s.halfWords * wordBytes < UInt32.size := by
  have := hfits.addressing
  have := hfits.positive
  simp only [wordBytes, Layout.addressLimit, UInt32.size] at *
  omega

/-- The address of a half is the base and its offset in bytes; nothing wraps around. -/
theorem Fits.toNat_address (hfits : s.Fits base size) (half : Half) :
    (s.address half).toNat = base.toNat + s.offset half * wordBytes := by
  have hoffset : s.offset half ≤ s.halfWords := by
    cases half <;> simp [offset]
  have := hfits.addressing
  have := hfits.positive
  simp only [wordBytes, Layout.addressLimit] at *
  rw [address, UInt32.toNat_add, UInt32.toNat_ofNat', hfits.base_eq, wordBytes]
  omega

/-- The address of a half is found at the offset of the half. -/
theorem Fits.position?_address (hfits : s.Fits base size) (half : Half) :
    Loopback.position? (s.address half) base = some (s.offset half) := by
  have haddress := hfits.toNat_address half
  have hle : base ≤ s.address half := by
    rw [UInt32.le_iff_toNat_le]
    omega
  simp only [Loopback.position?, haddress, Nat.add_sub_cancel_left, hle, Nat.mul_mod_left,
    wordBytes, and_self, if_true]
  rw [Nat.mul_div_cancel _ (by decide)]

end Split

namespace Engine

/-- An engine whose splits lie in the windows of a simulated device of these sizes. -/
structure Suits (e : Engine) (sourceWords destinationWords : Nat) : Prop where
  source : e.source.Fits Loopback.sourceBase sourceWords
  burst : e.source.halfWords = e.burstWords + 1
  positive : 0 < e.burstWords
  destination : e.destination.Fits Loopback.destinationBase destinationWords

/-- An engine that is created has its mode, its burst length and two splits that fit. -/
theorem create_eq_ok {mode : SyncMode} {geometry : Geometry} {e : Engine}
    (hcreate : create mode geometry = .ok e) :
    e.mode = mode ∧ e.burstWords = geometry.burstWords ∧ 0 < geometry.burstWords ∧
      geometry.source.fit (geometry.burstWords + 1) = .ok e.source ∧
      geometry.destination.fit (Layout.defaultReadBytes / wordBytes) = .ok e.destination := by
  obtain ⟨hviable, rfl⟩ := viable_of_create_eq_ok hcreate
  have hsourceEnd := hviable.source_end
  refine ⟨rfl, rfl, hviable.burst_pos, ?_, ?_⟩
  · refine Split.fit_eq_ok_iff.2 ⟨Nat.succ_pos _, hviable.source_halves, ?_, rfl⟩
    simp only [Geometry.source, Split.whole, wordBytes, Layout.addressLimit]
    omega
  · exact Split.fit_eq_ok_iff.2
      ⟨by decide, hviable.destination_halves, hviable.destination_end, rfl⟩

/-- A read length that is accepted is whole words, and splits the destination window. -/
theorem configure_eq_ok {e e' : Engine} {readLength : Nat}
    (hconfigure : e.configure readLength = .ok e') :
    0 < readLength ∧ readLength % wordBytes = 0 ∧
      e.destination.fit (readLength / wordBytes) = .ok e'.destination ∧
      e' = { e with destination := e'.destination, readLength } := by
  simp only [configure] at hconfigure
  split at hconfigure
  case isTrue => cases hconfigure
  case isFalse hbounds =>
    split at hconfigure
    case isTrue => cases hconfigure
    case isFalse heven =>
      obtain ⟨destination, hfit, hconfigure⟩ := bind_eq_ok_iff.1 hconfigure
      cases hconfigure
      simp only [Layout.minReadBytes] at hbounds
      exact ⟨by omega, Decidable.not_not.1 heven, hfit, rfl⟩

/-- An engine that was created for a simulated device and has accepted a read length. -/
theorem suits_of_configure {mode : SyncMode} {d : Loopback} {burstWords readLength : Nat}
    {timeout : Duration} {e e' : Engine} (hcreate : create mode (d.geometry burstWords) = .ok e)
    (hconfigure : (e.setTimeout timeout).configure readLength = .ok e') :
    e'.Suits d.source.size d.destination.size ∧ e'.mode = mode ∧ e'.burstWords = burstWords ∧
      e'.destination.halfWords = readLength / wordBytes := by
  obtain ⟨hmode, hburst, hpositive, hsource, hdestination⟩ := create_eq_ok hcreate
  obtain ⟨hsourceWords, hsourceHalves, hsourceEnd, hsource⟩ := Split.fit_eq_ok_iff.1 hsource
  obtain ⟨-, -, -, hdestination⟩ := Split.fit_eq_ok_iff.1 hdestination
  obtain ⟨-, -, hfit, he'⟩ := configure_eq_ok hconfigure
  have hfit' : e.destination.fit (readLength / wordBytes) = .ok e'.destination := hfit
  rw [hdestination] at hfit'
  obtain ⟨hwords, hhalves, hend, hhalf⟩ := Split.fit_eq_ok_iff.1 hfit'
  have hsource' : e'.source = e.source := by rw [he']; rfl
  have hburst' : e'.burstWords = burstWords := by rw [he']; exact hburst
  have hmode' : e'.mode = mode := by rw [he']; exact hmode
  refine ⟨⟨?_, ?_, ?_, ?_⟩, hmode', hburst', ?_⟩
  · rw [hsource', hsource]
    exact ⟨rfl, hsourceWords, hsourceHalves, hsourceEnd⟩
  · rw [hsource', hsource, hburst']
    rfl
  · rw [hburst']
    exact hpositive
  · rw [hhalf]
    exact ⟨rfl, hwords, hhalves, hend⟩
  · rw [hhalf]

theorem geometry_create (sourceWords destinationWords burstWords : Nat)
    (lines : Option Interrupt.Lines) :
    (Loopback.create sourceWords destinationWords lines).geometry burstWords =
      ⟨sourceWords, Loopback.sourceBase, destinationWords, Loopback.destinationBase,
        burstWords⟩ := by
  simp [Loopback.geometry, Loopback.create, Loopback.powerOn, Loopback.setRegister, Window.size,
    Window.zeroed]

/-- Two halves of a burst of 2 words and of a chunk of 128 fill windows of 6 and 256 words. -/
theorem exists_create_configure (mode : SyncMode) (lines : Option Interrupt.Lines)
    (timeout : Duration) :
    ∃ e e', create mode ((Loopback.create 6 256 lines).geometry 2) = .ok e ∧
      (e.setTimeout timeout).configure 1024 = .ok e' := by
  rw [geometry_create]
  refine ⟨⟨mode, ⟨6, Loopback.sourceBase, 3⟩, ⟨256, Loopback.destinationBase, 32⟩,
      limitOf defaultTimeout, 256, 2⟩,
    ⟨mode, ⟨6, Loopback.sourceBase, 3⟩, ⟨256, Loopback.destinationBase, 128⟩,
      limitOf timeout, 1024, 2⟩, ?_, ?_⟩
  · rfl
  · have hfit : (⟨256, Loopback.destinationBase, 32⟩ : Split).fit 128 =
        .ok ⟨256, Loopback.destinationBase, 128⟩ :=
      Split.fit_eq_ok_iff.2 ⟨by decide, by decide, by decide, rfl⟩
    simp [configure, setTimeout, Layout.minReadBytes, Layout.maxReadBytes, wordBytes, hfit,
      Functor.map, Except.map]

end Engine

end DmaLink
