import DmaLink.Proofs.Engine.Inside
import Mathlib.Algebra.Group.Nat.Defs

namespace DmaLink

/-- A transfer as it is programmed: what the address register of its channel holds when its length
    is written. -/
structure Transfer where
  channel : Channel
  address : UInt32
  length : UInt32
deriving DecidableEq, Repr

namespace Transfer

/-- A transfer that ends within 32-bit physical addressing. -/
def Addressed (t : Transfer) : Prop := t.address.toNat + t.length.toNat ≤ 2 ^ 32

instance (t : Transfer) : Decidable t.Addressed :=
  inferInstanceAs (Decidable (t.address.toNat + t.length.toNat ≤ 2 ^ 32))

end Transfer

/-- The transfer that a register write starts, if it does, when the address registers hold
    these. -/
def started (addresses : Channel → UInt32) (write : RegisterWrite) : Option Transfer :=
  if write.offset = Channel.mm2s.length then some ⟨.mm2s, addresses .mm2s, write.value⟩
  else if write.offset = Channel.s2mm.length then some ⟨.s2mm, addresses .s2mm, write.value⟩
  else none

/-- What the address registers hold after a register write. -/
def held (addresses : Channel → UInt32) (write : RegisterWrite) : Channel → UInt32 :=
  fun channel => if write.offset = channel.address then write.value else addresses channel

/-- The transfers that register writes program, when the address registers hold these at first. -/
def transfers (addresses : Channel → UInt32) : List RegisterWrite → List Transfer
  | [] => []
  | write :: rest => (started addresses write).toList ++ transfers (held addresses write) rest

/-- The transfers of a row of writes are those of its parts, the later ones with the addresses that
    the earlier part leaves. -/
theorem transfers_append (addresses : Channel → UInt32) (first second : List RegisterWrite) :
    transfers addresses (first ++ second) =
      transfers addresses first ++ transfers (first.foldl held addresses) second := by
  induction first generalizing addresses with
  | nil => rfl
  | cons write rest ih =>
    rw [List.cons_append, transfers, transfers, ih, List.append_assoc, List.foldl_cons]

/-- The transfers of register writes are the lengths that they launch. -/
theorem map_transfers (addresses : Channel → UInt32) (writes : List RegisterWrite) :
    (transfers addresses writes).map (fun t => (t.channel, t.length.toNat)) = launched writes := by
  induction writes generalizing addresses with
  | nil => rfl
  | cons write rest ih =>
    rw [transfers, List.map_append, ih]
    unfold started launched
    rw [List.filterMap_cons]
    split
    · rfl
    · split <;> rfl

/-- Register writes that program exactly these transfers, whatever the address registers held
    before. -/
def Programs (programmed : List Transfer) (writes : List RegisterWrite) : Prop :=
  ∀ addresses, transfers addresses writes = programmed

/-- Writes that program their transfers can be put one behind the other. -/
theorem Programs.append {programmed later : List Transfer} {first second : List RegisterWrite}
    (hfirst : Programs programmed first) (hsecond : Programs later second) :
    Programs (programmed ++ later) (first ++ second) := by
  intro addresses
  rw [transfers_append, hfirst, hsecond]

theorem programs_nil : Programs [] [] := fun _ => rfl

/-- Register writes that launch nothing program nothing. -/
theorem Geometry.Makes.programs {g : Geometry} {writes : List RegisterWrite}
    (hmakes : g.Makes [] writes) : Programs [] writes := by
  intro addresses
  have hmap := map_transfers addresses writes
  rw [hmakes.launched_eq] at hmap
  exact List.map_eq_nil_iff.1 hmap

/-- A launch programs one transfer, whatever the addresses were before. -/
theorem programs_launch (channel : Channel) (address length : UInt32) :
    Programs [⟨channel, address, length⟩]
      [⟨channel.address, address⟩, ⟨channel.length, length⟩] := by
  intro addresses
  cases channel <;> rfl

/-- Register writes whose transfers all end within 32-bit physical addressing, whatever the address
    registers held before. -/
def Addressed (writes : List RegisterWrite) : Prop :=
  ∀ addresses, ∀ t ∈ transfers addresses writes, t.Addressed

/-- Writes that address all their transfers can be put one behind the other. -/
theorem Addressed.append {first second : List RegisterWrite} (hfirst : Addressed first)
    (hsecond : Addressed second) : Addressed (first ++ second) := by
  intro addresses t ht
  rw [transfers_append] at ht
  rcases List.mem_append.1 ht with hmem | hmem
  · exact hfirst _ t hmem
  · exact hsecond _ t hmem

/-- Writes that program one addressed transfer address all their transfers. -/
theorem Programs.addressed {t : Transfer} {writes : List RegisterWrite}
    (hprograms : Programs [t] writes) (haddressed : t.Addressed) : Addressed writes := by
  intro addresses t' ht
  rw [hprograms addresses] at ht
  rwa [List.mem_singleton.1 ht]

theorem Programs.addressed_of_nil {writes : List RegisterWrite} (hprograms : Programs [] writes) :
    Addressed writes := by
  intro addresses t ht
  rw [hprograms addresses] at ht
  exact absurd ht List.not_mem_nil

theorem Programs.append_nil {programmed : List Transfer} {first second : List RegisterWrite}
    (hfirst : Programs programmed first) (hsecond : Programs [] second) :
    Programs programmed (first ++ second) := by
  simpa only [List.append_nil] using hfirst.append hsecond

/-- A transfer that starts at a half and is no longer than it ends within 32-bit addressing. -/
theorem Split.Fits.addressed {s : Split} {base : UInt32} {size : Nat} (hfits : s.Fits base size)
    (channel : Channel) (half : Half) {words : Nat} (hwords : words ≤ s.halfWords)
    (hshort : words * wordBytes ≤ Layout.maxBurstBytes) :
    Transfer.Addressed ⟨channel, s.address half, UInt32.ofNat (words * wordBytes)⟩ := by
  have haddress := hfits.toNat_address half
  have hlength := Layout.toNat_ofNat_of_le hshort
  have hend := hfits.addressing
  have hoffset : s.offset half ≤ s.halfWords := by
    cases half <;> simp [offset]
  simp only [Transfer.Addressed, haddress, hlength]
  simp only [wordBytes, Layout.addressLimit] at *
  omega

namespace Engine

variable {g : Geometry} {e : Engine}

section Launches

variable {size : Channel → Nat}

theorem ensures_launch_programs (channel : Channel) (address : UInt32) (bytes : Nat) :
    (launch channel address bytes).Ensures size fun writes _ =>
      Programs [⟨channel, address, UInt32.ofNat bytes⟩] writes := by
  intro _ _ _ _
  exact programs_launch channel address (UInt32.ofNat bytes)

/-- A wait programs nothing. -/
theorem ensures_await_programs (mode : SyncMode) (channel : Channel) (limit : Nat) :
    (Completion.await mode channel limit).Ensures size fun writes _ => Programs [] writes := by
  -- A wait launches nothing, so no geometry is asked for.
  apply (ensures_await (g := ⟨0, 0, 0, 0, 0⟩) mode channel limit).mono
  rintro writes _ ⟨hmakes, -⟩
  exact hmakes.programs

theorem ensures_launch_await_programs (channel : Channel) (address : UInt32) (bytes : Nat)
    (mode : SyncMode) (limit : Nat) :
    (do
      launch channel address bytes
      Completion.await mode channel limit).Ensures size fun writes _ =>
        Programs [⟨channel, address, UInt32.ofNat bytes⟩] writes := by
  apply Proc.Ensures.bind
  apply (ensures_launch_programs channel address bytes).mono
  intro writes _ hlaunched
  apply (ensures_await_programs mode channel limit).mono
  intro writes' _ hwaited
  exact hlaunched.append_nil hwaited

/-- Words that are sent verbatim are programmed from the start of the source window. -/
theorem ensures_sendWords_programs {words : List UInt64} (hfits : words.length ≤ size .mm2s) :
    (e.sendWords words).Ensures size fun writes _ =>
      Programs [⟨.mm2s, e.source.base, UInt32.ofNat (words.length * wordBytes)⟩] writes := by
  apply ensures_store
  · rw [Nat.zero_add]
    exact hfits
  apply Proc.Ensures.bind
  apply (ensures_launch_programs .mm2s e.source.base (words.length * wordBytes)).mono
  intro writes _ hlaunched
  apply Proc.Ensures.bind
  apply (ensures_await_programs e.mode .mm2s e.limit).mono
  rintro writes' (cause | _) hwaited <;>
    exact hlaunched.append_nil (hwaited.append_nil programs_nil)

theorem ensures_takeChunk_programs (half : Half) :
    (e.takeChunk half).Ensures size fun writes _ => Programs [] writes := by
  apply (ensures_takeChunk (g := ⟨0, 0, 0, 0, 0⟩) e half).mono
  intro writes _ hmakes
  exact hmakes.programs

end Launches

section Halves

variable {size : Channel → Nat}

/-- A burst that fits its half is addressed. -/
theorem Accepted.ensures_sendBurst_addressed (haccepted : e.Accepted g) (half : Half)
    {words : List UInt64} (hfits : words.length + 1 ≤ e.source.halfWords) (mode : OperatingMode) :
    (e.sendBurst half words mode).Ensures g.words fun writes _ => Addressed writes := by
  have hshort : (words.length + 1) * wordBytes ≤ Layout.maxBurstBytes :=
    Nat.le_trans (Nat.mul_le_mul_right _ hfits) haccepted.burst_le
  apply Proc.Ensures.bind
  apply (ensures_stage haccepted.source half hfits mode.tag).mono
  rintro _ _ ⟨rfl, rfl⟩
  apply (ensures_launch_await_programs .mm2s _ _ e.mode e.limit).mono
  intro writes _ hprograms
  exact hprograms.addressed (haccepted.source.addressed .mm2s half hfits hshort)

/-- All bursts of a row are addressed, wherever the sending stops. -/
theorem Accepted.ensures_sendBursts_addressed (haccepted : e.Accepted g) {half : Half}
    {ws : List (List UInt64)} (hfits : ∀ words ∈ ws, words.length + 1 ≤ e.source.halfWords) :
    (e.sendBursts half ws).Ensures g.words fun writes _ => Addressed writes := by
  induction ws generalizing half with
  | nil => exact programs_nil.addressed_of_nil
  | cons words rest ih =>
    apply Proc.Ensures.bind
    apply (haccepted.ensures_sendBurst_addressed half (hfits words (by simp)) _).mono
    rintro writes (cause | _) haddressed
    · exact haddressed.append programs_nil.addressed_of_nil
    · apply (ih fun words hwords => hfits words (by simp [hwords])).mono
      intro writes' _ haddressed'
      exact haddressed.append haddressed'

/-- A split payload is addressed, whatever its length. -/
theorem Accepted.ensures_sendSplit_addressed (haccepted : e.Accepted g) (payload : List UInt64) :
    (e.sendSplit payload).Ensures g.words fun writes _ => Addressed writes := by
  unfold sendSplit
  split
  · exact programs_nil.addressed_of_nil
  · apply haccepted.ensures_sendBursts_addressed
    intro words hwords
    rw [haccepted.burst]
    exact Nat.succ_le_succ (length_le_of_mem_pieces haccepted.positive hwords)

/-- A chunk that is armed is addressed. -/
theorem Accepted.ensures_arm_addressed (haccepted : e.Accepted g) (half : Half) :
    (e.arm half).Ensures size fun writes _ => Addressed writes := by
  apply (ensures_launch_programs .s2mm (e.destination.address half) e.chunkBytes).mono
  intro writes _ hprograms
  exact hprograms.addressed
    (haccepted.destination.addressed .s2mm half (Nat.le_refl _) haccepted.chunk_le)

theorem Accepted.ensures_receiveChunks_addressed (haccepted : e.Accepted g) (buffer : List UInt64)
    {bound : Nat} {half : Half} {before : List (List UInt64)} :
    (e.receiveChunks buffer bound half before).Ensures size fun writes _ => Addressed writes := by
  induction bound generalizing half before with
  | zero => exact programs_nil.addressed_of_nil
  | succ bound ih =>
    apply Proc.Ensures.bind
    apply (ensures_takeChunk_programs half).mono
    intro writes result hprograms
    cases result with
    | error cause => exact (hprograms.append_nil programs_nil).addressed_of_nil
    | ok chunk =>
      by_cases hlast : Word.endsLayer chunk.1
      · simp only [hlast, if_true]
        exact (hprograms.append_nil programs_nil).addressed_of_nil
      · simp only [hlast, if_false, Bool.false_eq_true]
        apply Proc.Ensures.bind
        apply (haccepted.ensures_arm_addressed half.other).mono
        intro armed _ harmed
        apply ih.mono
        intro later _ hlater
        exact hprograms.addressed_of_nil.append (harmed.append hlater)

/-- All chunks of a reception are addressed, wherever it ends. -/
theorem Accepted.ensures_receive_addressed (haccepted : e.Accepted g) (bound : Nat)
    (buffer : List UInt64) :
    (e.receive bound buffer).Ensures size fun writes _ => Addressed writes := by
  apply Proc.Ensures.bind
  apply (haccepted.ensures_arm_addressed .a).mono
  intro armed _ harmed
  apply (haccepted.ensures_receiveChunks_addressed buffer).mono
  intro later _ hlater
  exact harmed.append hlater

end Halves

/-- The tag word of a start is sent from the start of the source window. -/
theorem Accepted.ensures_start_addressed (haccepted : e.Accepted g) :
    e.start.Ensures g.words fun writes _ => Addressed writes := by
  have hroom : [OperatingMode.partway.tag].length ≤ g.words .mm2s := by
    have hhalves := haccepted.source.halves
    have hpositive := haccepted.source.positive
    change 1 ≤ g.sourceWords
    omega
  have htag : Transfer.Addressed ⟨.mm2s, e.source.base, UInt32.ofNat (1 * wordBytes)⟩ := by
    have haddressed := haccepted.source.addressed .mm2s .a haccepted.source.positive (by decide)
    simpa [Split.address, Split.offset] using haddressed
  have hopened : Programs [] [⟨Channel.mm2s.address, e.source.base⟩,
      ⟨Channel.mm2s.control, e.mode.runWord⟩] := fun _ => rfl
  have hclosed : Programs [] [⟨Channel.s2mm.control, e.mode.runWord⟩] := fun _ => rfl
  apply Proc.Ensures.perform_bind
  intro _ _
  apply Proc.Ensures.perform_bind
  intro _ _
  apply Proc.Ensures.bind
  apply (ensures_sendWords_programs hroom).mono
  rintro writes (cause | _) hprograms
  · exact (hopened.append (hprograms.append_nil programs_nil)).addressed htag
  · intro _ _
    exact (hopened.append (hprograms.append_nil hclosed)).addressed htag

end Engine

/-- A buffer that is sent as one burst: one that makes a burst and that the source window holds. -/
def Geometry.Holds (g : Geometry) (buffer : List UInt64) : Prop :=
  ¬Engine.Unsendable buffer ∧ buffer.length ≤ g.sourceWords

instance (g : Geometry) (buffer : List UInt64) : Decidable (g.Holds buffer) :=
  inferInstanceAs (Decidable (¬Engine.Unsendable buffer ∧ buffer.length ≤ g.sourceWords))

/-- The burst that a buffer is sent as. -/
def Geometry.burst (g : Geometry) (buffer : List UInt64) : Transfer :=
  ⟨.mm2s, g.sourceBase, UInt32.ofNat (buffer.length * wordBytes)⟩

/-- A single burst is addressed exactly if it ends within 32-bit addressing. -/
theorem Geometry.addressed_burst_iff {g : Geometry} {buffer : List UInt64}
    (hholds : g.Holds buffer) :
    (g.burst buffer).Addressed ↔ g.sourceBase.toNat + 8 * buffer.length ≤ 2 ^ 32 := by
  obtain ⟨-, hshort⟩ := Engine.length_le_of_not_unsendable hholds.1
  rw [Transfer.Addressed, burst, Layout.toNat_ofNat_of_le hshort, Nat.mul_comm, wordBytes]

namespace Engine

variable {g : Geometry} {e : Engine}

/-- A buffer that is held is sent as its burst. -/
theorem Accepted.ensures_perform_send_programs (haccepted : e.Accepted g) (bound : Nat)
    {buffer : List UInt64} (hholds : g.Holds buffer) :
    (e.perform bound (.send buffer)).2.Ensures g.words fun writes _ =>
      Programs [g.burst buffer] writes := by
  simp only [Engine.perform, send_eq, if_neg hholds.1]
  apply Proc.Ensures.bind
  apply (ensures_sendWords_programs hholds.2).mono
  rw [haccepted.source.base_eq]
  rintro writes (cause | bytes) hprograms <;> exact hprograms.append_nil programs_nil

/-- A buffer that is not held is refused, and nothing is programmed. -/
theorem ensures_perform_send_programs_of_not_holds (bound : Nat) {buffer : List UInt64}
    (hrefused : ¬g.Holds buffer) :
    (e.perform bound (.send buffer)).2.Ensures g.words fun writes _ => Programs [] writes := by
  simp only [Engine.perform, send_eq]
  split
  case isTrue => exact programs_nil
  case isFalse hsendable =>
    have hpast : g.sourceWords < buffer.length := Nat.lt_of_not_le fun hfits =>
      hrefused ⟨hsendable, hfits⟩
    apply Proc.Ensures.bind
    apply (ensures_sendWords_past hpast).mono
    rintro writes result ⟨rfl, rfl⟩
    exact programs_nil

/-- No transfer of an operation but a burst of its own runs past 32-bit addressing. -/
theorem Accepted.ensures_perform_addressed (haccepted : e.Accepted g) (bound : Nat)
    {operation : Operation} (hother : ∀ buffer, operation ≠ .send buffer) :
    (e.perform bound operation).2.Ensures g.words fun writes _ => Addressed writes := by
  cases operation with
  | initialise readLength =>
    simp only [Engine.perform]
    split
    · exact programs_nil.addressed_of_nil
    · apply Proc.Ensures.map
      exact (haccepted.configure ‹_›).ensures_start_addressed
  | send buffer => exact absurd rfl (hother buffer)
  | sendSplit payload =>
    apply Proc.Ensures.map
    exact haccepted.ensures_sendSplit_addressed payload
  | receive buffer =>
    apply Proc.Ensures.map
    exact haccepted.ensures_receive_addressed bound buffer
  | _ =>
    apply (haccepted.ensures_perform bound _).mono
    rintro writes _ ⟨made, rfl, hmakes⟩
    exact hmakes.programs.addressed_of_nil

end Engine

namespace Session

variable {σ : Type} [Device σ] {g : Geometry} {size : Channel → σ → Nat} {s : Session σ}

theorem Housed.programs_send (hhoused : s.Housed g size) (hlawful : Device.Lawful size)
    {buffer : List UInt64} (hholds : g.Holds buffer) :
    Programs [g.burst buffer] (s.writes (.send buffer)) := by
  have hensures := hhoused.accepted.ensures_perform_send_programs (Device.chunkBound s.link) hholds
  rw [← hhoused.size_eq] at hensures
  exact hensures.run hlawful

/-- A transfer of an operation ends within 32-bit addressing, or it is a burst of its own. -/
theorem Housed.addressed_or (hhoused : s.Housed g size) (hlawful : Device.Lawful size)
    (operation : Engine.Operation) (addresses : Channel → UInt32) :
    ∀ t ∈ transfers addresses (s.writes operation),
      t.Addressed ∨ ∃ buffer, operation = .send buffer ∧ g.Holds buffer ∧ t = g.burst buffer := by
  intro t ht
  by_cases hsend : ∃ buffer, operation = .send buffer
  · obtain ⟨buffer, rfl⟩ := hsend
    by_cases hholds : g.Holds buffer
    · rw [hhoused.programs_send hlawful hholds] at ht
      exact .inr ⟨buffer, rfl, hholds, List.mem_singleton.1 ht⟩
    · have hensures := Engine.ensures_perform_send_programs_of_not_holds (e := s.engine)
        (Device.chunkBound s.link) hholds
      rw [← hhoused.size_eq] at hensures
      rw [writes, hensures.run hlawful] at ht
      exact absurd ht List.not_mem_nil
  · have hensures := hhoused.accepted.ensures_perform_addressed (Device.chunkBound s.link)
      (not_exists.1 hsend)
    rw [← hhoused.size_eq] at hensures
    exact .inl (hensures.run hlawful addresses t ht)

/-- Every transfer of a run is addressed, or it is that of a single burst which the window holds. -/
theorem Housed.addressed_or_all (hhoused : s.Housed g size) (hlawful : Device.Lawful size)
    (operations : List Engine.Operation) (addresses : Channel → UInt32) :
    ∀ t ∈ transfers addresses (s.writesAll operations),
      t.Addressed ∨ ∃ buffer, .send buffer ∈ operations ∧ g.Holds buffer ∧ t = g.burst buffer := by
  induction operations generalizing s addresses with
  | nil => exact fun t ht => absurd ht List.not_mem_nil
  | cons operation rest ih =>
    intro t ht
    rw [writesAll, transfers_append] at ht
    rcases List.mem_append.1 ht with hnow | hlater
    · refine (hhoused.addressed_or hlawful operation addresses t hnow).imp_right ?_
      rintro ⟨buffer, rfl, hburst⟩
      exact ⟨buffer, List.mem_cons_self, hburst⟩
    · refine (ih (hhoused.perform hlawful operation) _ t hlater).imp_right ?_
      rintro ⟨buffer, hmem, hburst⟩
      exact ⟨buffer, List.mem_cons_of_mem _ hmem, hburst⟩

/-- A single burst that the window holds is among the transfers of any run that sends it. -/
theorem Housed.burst_mem_transfers (hhoused : s.Housed g size) (hlawful : Device.Lawful size)
    {operations : List Engine.Operation} (addresses : Channel → UInt32) {buffer : List UInt64}
    (hmem : .send buffer ∈ operations) (hholds : g.Holds buffer) :
    g.burst buffer ∈ transfers addresses (s.writesAll operations) := by
  induction operations generalizing s addresses with
  | nil => exact absurd hmem List.not_mem_nil
  | cons operation rest ih =>
    rw [writesAll, transfers_append]
    rcases List.mem_cons.1 hmem with rfl | hlater
    · rw [hhoused.programs_send hlawful hholds]
      exact List.mem_append_left _ List.mem_cons_self
    · exact List.mem_append_right _ (ih (hhoused.perform hlawful operation) _ hlater)

/-- Whatever is asked of an accepted engine, and however its device behaves, a transfer runs past
    32-bit physical addressing only if it is a burst of its own that the source window holds. So
    none does exactly if each of these bursts ends within it from the start of the window. -/
theorem transfers_addressed {mode : SyncMode} {g : Geometry} {e : Engine}
    (hcreate : Engine.create mode g = .ok e) {σ : Type} [Device σ] {size : Channel → σ → Nat}
    (link : σ) (hlawful : Device.Lawful size)
    (hsize : ∀ channel, size channel link = g.words channel)
    (operations : List Engine.Operation) (addresses : Channel → UInt32) :
    let programmed := transfers addresses (writesAll ⟨e, link⟩ operations)
    (∀ t ∈ programmed, t.Addressed ∨
        ∃ buffer, .send buffer ∈ operations ∧ g.Holds buffer ∧ t = g.burst buffer) ∧
      ((∀ t ∈ programmed, t.Addressed) ↔ ∀ buffer, .send buffer ∈ operations → g.Holds buffer →
        g.sourceBase.toNat + 8 * buffer.length ≤ 2 ^ 32) := by
  intro programmed
  have hhoused : Housed ⟨e, link⟩ g size := ⟨Engine.accepted_create hcreate, funext hsize⟩
  have hbursts := hhoused.addressed_or_all hlawful operations addresses
  refine ⟨hbursts, fun haddressed buffer hmem hholds => ?_, fun hends t ht => ?_⟩
  · rw [← Geometry.addressed_burst_iff hholds]
    exact haddressed _ (hhoused.burst_mem_transfers hlawful addresses hmem hholds)
  · rcases hbursts t ht with haddressed | ⟨buffer, hmem, hholds, rfl⟩
    · exact haddressed
    · exact (Geometry.addressed_burst_iff hholds).2 (hends buffer hmem hholds)

open Loopback

/-- A source window of nine words whose first eight are the last that 32-bit addressing reaches. -/
def atTheTop : Geometry := ⟨9, 4294967232, 256, destinationBase, 2⟩

/-- Nine words run past 32-bit addressing if they are sent as one burst, and do not if they are
    split. -/
theorem transfers_addressed_atTheTop :
    ∃ e, Engine.create .poll atTheTop = .ok e ∧
      let s : Session Stalling := ⟨e, (Loopback.create 9 256 none).setStalled false, []⟩
      transfers (fun _ => 0) (s.writesAll [.send [1, 2, 3, 4, 5, 6, 7, 8, 9]]) =
          [⟨.mm2s, 4294967232, 72⟩] ∧
        (¬∀ t ∈ transfers (fun _ => 0) (s.writesAll [.send [1, 2, 3, 4, 5, 6, 7, 8, 9]]),
          t.Addressed) ∧
        ∀ t ∈ transfers (fun _ => 0) (s.writesAll [.sendSplit [1, 2, 3, 4, 5, 6, 7, 8, 9]]),
          t.Addressed := by
  have hcreate : Engine.create .poll atTheTop = .ok ⟨.poll, ⟨9, 4294967232, 3⟩,
      ⟨256, destinationBase, 32⟩, Engine.limitOf defaultTimeout, 256, 2⟩ := rfl
  have hsize (channel : Channel) :
      ((Loopback.create 9 256 none).setStalled false).windowSize channel =
        atTheTop.words channel :=
    (windowSize_setStalled channel _ false).trans (windowSize_create atTheTop none channel)
  have haddressed (operations : List Engine.Operation) :=
    (transfers_addressed hcreate ⟨(Loopback.create 9 256 none).setStalled false, []⟩
      lawful_stalling hsize operations fun _ => 0).2
  refine ⟨_, hcreate, ?_, ?_, ?_⟩
  · decide +kernel
  · rw [haddressed]
    intro hends
    exact absurd (hends _ List.mem_cons_self (by decide)) (by decide)
  · rw [haddressed]
    intro buffer hmem
    simp at hmem

end Session

end DmaLink
