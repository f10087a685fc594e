import DmaLink.Proofs.Engine.Transfers

namespace DmaLink

/-- The errors that a wait ends in. -/
def LinkError.OfWait : LinkError → Prop
  | .channelTimeout .. => True
  | .io _ => True
  | _ => False

/-- A result that is right or the error of a wait. -/
def WaitEnds {α : Type} (result : Except LinkError α) : Prop :=
  ∀ cause, result = .error cause → cause.OfWait

theorem waitEnds_ok {α : Type} (value : α) : WaitEnds (.ok value : Except LinkError α) := by
  intro cause hcause
  exact nomatch hcause

theorem WaitEnds.error {α β : Type} {cause : LinkError}
    (hends : WaitEnds (.error cause : Except LinkError α)) :
    WaitEnds (.error cause : Except LinkError β) := by
  intro cause' hcause
  obtain rfl := Except.error.inj hcause
  exact hends cause rfl

namespace Engine

/-- An engine whose splits lie in the windows of a geometry, its bursts and chunks within the limits
    of a transfer. -/
structure Accepted (e : Engine) (g : Geometry) : Prop where
  source : e.source.Fits g.sourceBase g.sourceWords
  destination : e.destination.Fits g.destinationBase g.destinationWords
  destinationWords : e.destination.windowWords = g.destinationWords
  burst : e.source.halfWords = e.burstWords + 1
  positive : 0 < e.burstWords
  burst_le : e.source.halfWords * wordBytes ≤ Layout.maxBurstBytes
  chunk : e.chunkBytes = e.readLength
  chunk_le : e.chunkBytes ≤ Layout.maxBurstBytes

variable {g : Geometry} {e : Engine}

theorem accepted_create {mode : SyncMode} (hcreate : create mode g = .ok e) : e.Accepted g := by
  obtain ⟨hviable, rfl⟩ := viable_of_create_eq_ok hcreate
  have hshort := hviable.burst_le
  have hsourceEnd := hviable.source_end
  refine ⟨⟨rfl, Nat.succ_pos _, hviable.source_halves, ?_⟩,
    ⟨rfl, Nat.succ_pos 31, hviable.destination_halves, hviable.destination_end⟩, rfl, rfl,
    hviable.burst_pos, ?_, rfl, Nat.le_of_ble_eq_true rfl⟩
  · simp only [Geometry.engine, wordBytes, Layout.addressLimit]
    omega
  · simp only [Geometry.engine, wordBytes, Layout.maxBurstBytes]
    omega

/-- Two halves of a burst of 2 words and of a default chunk fit windows of 6 and 256 words. -/
theorem create_small (mode : SyncMode) :
    create mode ⟨6, Loopback.sourceBase, 256, Loopback.destinationBase, 2⟩ =
      .ok ⟨mode, ⟨6, Loopback.sourceBase, 3⟩, ⟨256, Loopback.destinationBase, 32⟩,
        limitOf defaultTimeout, 256, 2⟩ := rfl

end Engine

/-- The read lengths that no engine of a geometry takes. -/
def Geometry.Refuses (g : Geometry) (readLength : Nat) : Prop :=
  readLength < 1024 ∨ 8388608 < readLength ∨ readLength % 8 ≠ 0 ∨
    g.destinationWords < 2 * (readLength / 8) ∨
      4294967296 < g.destinationBase.toNat + 2 * readLength

namespace Engine

variable {g : Geometry} {e : Engine}

/-- A read length is taken, and the halves of the destination then hold one chunk each, or it is
    refused. -/
theorem Accepted.configure_eq (haccepted : e.Accepted g) (readLength : Nat) :
    (¬g.Refuses readLength ∧ e.configure readLength = .ok { e with
        destination := { e.destination with halfWords := readLength / wordBytes }, readLength }) ∨
      g.Refuses readLength ∧ ∃ cause, e.configure readLength = .error (.configuration cause) := by
  unfold configure Geometry.Refuses
  by_cases hrange : readLength < Layout.minReadBytes ∨ Layout.maxReadBytes < readLength
  · rw [if_pos hrange]
    simp only [Layout.minReadBytes, Layout.maxReadBytes] at hrange
    exact .inr ⟨by omega, _, rfl⟩
  rw [if_neg hrange]
  by_cases huneven : readLength % wordBytes ≠ 0
  · rw [if_pos huneven]
    exact .inr ⟨.inr (.inr (.inl huneven)), _, rfl⟩
  rw [if_neg huneven]
  have hwhole : readLength % 8 = 0 := Decidable.not_not.1 huneven
  simp only [Layout.minReadBytes, Layout.maxReadBytes] at hrange
  have hpositive : 0 < readLength / wordBytes := by
    simp only [wordBytes]
    omega
  have hsmall : 2 * (readLength / wordBytes) < Size.limit := by
    simp only [wordBytes, Size.limit]
    omega
  have hbytes : 16 * (readLength / wordBytes) = 2 * readLength := by
    simp only [wordBytes]
    omega
  rw [← haccepted.destinationWords, ← haccepted.destination.base_eq]
  obtain ⟨hhalves, hend, hfit⟩ | ⟨hfew, hfit⟩ | ⟨hpast, hfit⟩ :=
    e.destination.fit_spec hpositive hsmall
  · rw [hfit]
    simp only [wordBytes] at hhalves hend hbytes
    exact .inl ⟨by omega, rfl⟩
  · rw [hfit]
    simp only [wordBytes] at hfew
    exact .inr ⟨by omega, _, rfl⟩
  · rw [hfit]
    simp only [wordBytes] at hpast hbytes
    exact .inr ⟨by omega, _, rfl⟩

/-- An engine stays accepted when its read length is changed. -/
theorem Accepted.configure (haccepted : e.Accepted g) {readLength : Nat} {e' : Engine}
    (hconfigure : e.configure readLength = .ok e') : e'.Accepted g := by
  rcases haccepted.configure_eq readLength with ⟨htaken, hok⟩ | ⟨-, cause, herror⟩
  · rw [hconfigure] at hok
    obtain rfl := Except.ok.inj hok
    simp only [Geometry.Refuses, not_or, Nat.not_lt, Decidable.not_not] at htaken
    obtain ⟨hmin, hmax, hwhole, hhalves, hend⟩ := htaken
    have hbytes : readLength / wordBytes * wordBytes = readLength := by
      simp only [wordBytes]
      omega
    refine ⟨haccepted.source, ⟨haccepted.destination.base_eq, ?_, hhalves, ?_⟩,
      haccepted.destinationWords, haccepted.burst, haccepted.positive, haccepted.burst_le, hbytes,
      ?_⟩
    · simp only [wordBytes]
      omega
    · rw [Nat.mul_assoc, hbytes]
      exact hend
    · exact Nat.le_trans (Nat.le_of_eq hbytes) hmax
  · rw [hconfigure] at herror
    cases herror

/-- An operation changes no more of an engine than its read length, with the split of the
    destination, and its wait limit. -/
theorem exists_perform_eq (e : Engine) (bound : Nat) (operation : Operation) :
    ∃ destination readLength limit,
      (e.perform bound operation).1 = { e with destination, readLength, limit } := by
  cases operation with
  | initialise readLength =>
    simp only [Engine.perform]
    split
    · exact ⟨e.destination, e.readLength, e.limit, rfl⟩
    · next configured hconfigure =>
      exact ⟨configured.destination, readLength, e.limit, (configure_eq_ok hconfigure).2.2.2⟩
  | setTimeout timeout => exact ⟨e.destination, e.readLength, limitOf timeout, rfl⟩
  | _ => exact ⟨e.destination, e.readLength, e.limit, rfl⟩

theorem perform_mode (e : Engine) (bound : Nat) (operation : Operation) :
    (e.perform bound operation).1.mode = e.mode := by
  obtain ⟨destination, readLength, limit, hperform⟩ := e.exists_perform_eq bound operation
  rw [hperform]

theorem perform_burstWords (e : Engine) (bound : Nat) (operation : Operation) :
    (e.perform bound operation).1.burstWords = e.burstWords := by
  obtain ⟨destination, readLength, limit, hperform⟩ := e.exists_perform_eq bound operation
  rw [hperform]

/-- No operation takes an engine out of its geometry. -/
theorem Accepted.perform (haccepted : e.Accepted g) (bound : Nat) (operation : Operation) :
    (e.perform bound operation).1.Accepted g := by
  cases operation with
  | initialise readLength =>
    simp only [Engine.perform]
    split
    · exact haccepted
    · exact haccepted.configure ‹_›
  | setTimeout timeout => exact ⟨haccepted.source, haccepted.destination,
      haccepted.destinationWords, haccepted.burst, haccepted.positive, haccepted.burst_le,
      haccepted.chunk, haccepted.chunk_le⟩
  | _ => exact haccepted

section Waits

variable {size : Channel → Nat}

theorem ensures_acknowledge (channel : Channel) :
    (Completion.acknowledge channel).Ensures size fun writes _ => g.Makes [] writes := by
  intro _ _ _ _
  apply Geometry.makes_nil
  intro write hwrite
  refine ⟨channel, ?_⟩
  simp only [Link.Access.writes, List.cons_append, List.nil_append, List.mem_cons,
    List.not_mem_nil, or_false] at hwrite
  rcases hwrite with rfl | rfl <;> simp [Channel.setup]

/-- A wait makes no transfer, and ends well, with a timeout or with a fault of the transport. -/
theorem ensures_await (mode : SyncMode) (channel : Channel) (limit : Nat) :
    (Completion.await mode channel limit).Ensures size fun writes result =>
      g.Makes [] writes ∧ WaitEnds result := by
  have htimeout : WaitEnds (.error (.channelTimeout channel limit) : Except LinkError Unit) := by
    intro cause hcause
    obtain rfl := Except.error.inj hcause
    trivial
  have hio {cause : LinkError} (hcause : ∃ fault, cause = .io fault) :
      WaitEnds (.error cause : Except LinkError Unit) := by
    obtain ⟨fault, rfl⟩ := hcause
    intro cause hcause
    obtain rfl := Except.error.inj hcause
    trivial
  cases mode with
  | poll =>
    apply Proc.Ensures.perform_bind
    rintro (_ | _) -
    · exact ⟨Geometry.makes_empty, htimeout⟩
    · apply Proc.Ensures.bind
      apply (ensures_acknowledge (g := g) channel).mono
      intro writes _ hmakes
      refine ⟨?_, waitEnds_ok ()⟩
      simpa [Link.Access.writes] using hmakes
  | interrupt =>
    apply Proc.Ensures.perform_bind
    rintro (cause | _ | _) hreadable
    · exact ⟨Geometry.makes_empty, hio (hreadable cause rfl)⟩
    · exact ⟨Geometry.makes_empty, htimeout⟩
    · apply Proc.Ensures.perform_bind
      rintro (cause | count) hcount
      · exact ⟨Geometry.makes_empty, hio (hcount cause rfl)⟩
      · apply Proc.Ensures.bind
        apply (ensures_acknowledge (g := g) channel).mono
        intro writes _ hmakes reply hreply
        refine ⟨?_, fun cause hcause => ?_⟩
        · simpa [Link.Access.writes] using hmakes
        · obtain ⟨fault, rfl⟩ := hreply cause hcause
          trivial

/-- A launch makes the transfer that it covers. -/
theorem ensures_launch {channel : Channel} {address : UInt32} {words : Nat}
    (hcovers : g.Covers channel address (UInt32.ofNat (words * wordBytes)))
    (hshort : words * wordBytes ≤ Layout.maxBurstBytes) :
    (launch channel address (words * wordBytes)).Ensures size fun writes _ =>
      g.Makes [(channel, words * wordBytes)] writes := by
  intro _ _ _ _
  exact Geometry.makes_launch hcovers hshort

end Waits

end Engine

end DmaLink
