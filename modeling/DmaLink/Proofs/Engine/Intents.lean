import DmaLink.Proofs.Engine.Programming

namespace DmaLink.Engine

variable {g : Geometry} {e : Engine}

section Stores

variable {α : Type} {size : Channel → Nat} {channel : Channel} {start : Nat} {words : List UInt64}
  {next : Except LinkError Unit → Proc Link.io α} {post : List RegisterWrite → α → Prop}

theorem ensures_store (hfits : start + words.length ≤ size channel)
    (hnext : (next (.ok ())).Ensures size post) :
    (Proc.onWindow channel (Proc.perform (I := Window.io) (.store start words)) >>= next).Ensures
      size post := by
  intro reply hreply
  have hstored : reply =
      if start + words.length ≤ size channel then (.ok () : Except LinkError Unit)
      else .error (.outOfBounds start words.length (size channel)) := hreply
  rw [if_pos hfits] at hstored
  rw [hstored]
  exact hnext

/-- A store that does not fit its window is refused. -/
theorem ensures_store_past (hpast : size channel < start + words.length)
    (hnext : (next (.error (.outOfBounds start words.length (size channel)))).Ensures size post) :
    (Proc.onWindow channel (Proc.perform (I := Window.io) (.store start words)) >>= next).Ensures
      size post := by
  intro reply hreply
  have hrefused : reply =
      if start + words.length ≤ size channel then (.ok () : Except LinkError Unit)
      else .error (.outOfBounds start words.length (size channel)) := hreply
  rw [if_neg (Nat.not_le.2 hpast)] at hrefused
  rw [hrefused]
  exact hnext

/-- A burst that fits its half is staged there with its tag word. -/
theorem ensures_stage {s : Split} {base : UInt32} (hs : s.Fits base (size channel)) (half : Half)
    (hfits : words.length + 1 ≤ s.halfWords) (tag : UInt64) :
    (Proc.onWindow channel (s.stage half words (some tag))).Ensures size fun writes result =>
      writes = [] ∧ result = .ok (words.length + 1) := by
  have hoffset := hs.offset_le half
  have hbounds : checkBounds 0 (words.length + 1) s.halfWords = .ok () := by
    rw [checkBounds, if_pos (by omega)]
  unfold Split.stage
  simp only [Option.toList, List.length_singleton, hbounds]
  rw [Proc.onWindow_bind]
  apply ensures_store (by omega)
  rw [Proc.onWindow_bind]
  apply ensures_store
  · simp only [List.length_singleton]
    omega
  · exact ⟨rfl, rfl⟩

end Stores

/-- A launch of what lies in a window makes one transfer, and the wait behind it ends well or times
    out. -/
theorem ensures_launch_await {channel : Channel} {address : UInt32} {words : Nat}
    (hcovers : g.Covers channel address (UInt32.ofNat (words * wordBytes)))
    (hshort : words * wordBytes ≤ Layout.maxBurstBytes) (mode : SyncMode) (limit : Nat) :
    (do
      launch channel address (words * wordBytes)
      Completion.await mode channel limit).Ensures g.words fun writes result =>
        g.Makes [(channel, words * wordBytes)] writes ∧ WaitEnds result := by
  apply Proc.Ensures.bind
  apply (ensures_launch hcovers hshort).mono
  intro writes _ hlaunched
  apply (ensures_await mode channel limit).mono
  rintro writes' result ⟨hwaited, hends⟩
  exact ⟨hlaunched.append hwaited, hends⟩

/-- Words sent verbatim are launched once if they fit the window. -/
theorem Accepted.ensures_sendWords (haccepted : e.Accepted g) (words : List UInt64)
    (hwords : words ≠ []) (hshort : words.length * wordBytes ≤ Layout.maxBurstBytes)
    (hfits : words.length ≤ g.sourceWords) :
    (e.sendWords words).Ensures g.words fun writes result =>
      g.Makes [(.mm2s, words.length * wordBytes)] writes ∧ WaitEnds result := by
  have hcovers : g.Covers .mm2s e.source.base (UInt32.ofNat (words.length * wordBytes)) := by
    apply Geometry.covers_of_words 0
    · rw [haccepted.source.base_eq]
      rfl
    · exact List.length_pos_iff.2 hwords
    · exact hshort
    · rw [Nat.zero_add]
      exact hfits
  apply ensures_store
  · rw [Nat.zero_add]
    exact hfits
  apply Proc.Ensures.bind
  apply (ensures_launch hcovers hshort).mono
  intro writes _ hlaunched
  apply Proc.Ensures.bind
  apply (ensures_await e.mode .mm2s e.limit).mono
  rintro writes' (cause | _) ⟨hwaited, hends⟩
  · exact ⟨hlaunched.append hwaited.append_nil, hends.error⟩
  · exact ⟨hlaunched.append hwaited.append_nil, waitEnds_ok _⟩

/-- Words that do not fit the window are refused, and nothing is launched. -/
theorem ensures_sendWords_past {words : List UInt64} (hpast : g.sourceWords < words.length) :
    (e.sendWords words).Ensures g.words fun writes result =>
      writes = [] ∧ result = .error (.outOfBounds 0 words.length g.sourceWords) := by
  apply ensures_store_past
  · rw [Nat.zero_add]
    exact hpast
  · exact ⟨rfl, rfl⟩

/-- The bursts of a payload that is cut into these pieces. -/
def bursts (ws : List (List UInt64)) : List (Channel × Nat) :=
  ws.map fun words => (.mm2s, (words.length + 1) * wordBytes)

/-- A burst that fits its half makes one transfer. -/
theorem Accepted.ensures_sendBurst (haccepted : e.Accepted g) (half : Half) {words : List UInt64}
    (hfits : words.length + 1 ≤ e.source.halfWords) (mode : OperatingMode) :
    (e.sendBurst half words mode).Ensures g.words fun writes result =>
      g.Makes (bursts [words]) writes ∧ WaitEnds result := by
  have hshort : (words.length + 1) * wordBytes ≤ Layout.maxBurstBytes :=
    Nat.le_trans (Nat.mul_le_mul_right _ hfits) haccepted.burst_le
  have hcovers : g.Covers .mm2s (e.source.address half)
      (UInt32.ofNat ((words.length + 1) * wordBytes)) := by
    apply Geometry.covers_of_words (e.source.offset half)
    · exact haccepted.source.toNat_address half
    · exact Nat.succ_pos _
    · exact hshort
    · exact Nat.le_trans (Nat.add_le_add_left hfits _) (haccepted.source.offset_le half)
  apply Proc.Ensures.bind
  apply (ensures_stage haccepted.source half hfits mode.tag).mono
  rintro _ _ ⟨rfl, rfl⟩
  exact ensures_launch_await hcovers hshort e.mode e.limit

/-- Bursts are launched one after the other, until a wait fails. -/
theorem Accepted.ensures_sendBursts (haccepted : e.Accepted g) {half : Half}
    {ws : List (List UInt64)} (hfits : ∀ words ∈ ws, words.length + 1 ≤ e.source.halfWords) :
    (e.sendBursts half ws).Ensures g.words fun writes result =>
      (∃ made, made <+: bursts ws ∧ g.Makes made writes) ∧ WaitEnds result := by
  induction ws generalizing half with
  | nil => exact ⟨⟨[], List.nil_prefix, Geometry.makes_empty⟩, waitEnds_ok ()⟩
  | cons words rest ih =>
    apply Proc.Ensures.bind
    apply (haccepted.ensures_sendBurst half (hfits words (by simp)) _).mono
    rintro writes (cause | _) ⟨hmakes, hends⟩
    · exact ⟨⟨bursts [words], ⟨bursts rest, rfl⟩, hmakes.append_nil⟩, hends.error⟩
    · apply (ih fun words hwords => hfits words (by simp [hwords])).mono
      rintro writes' result ⟨⟨made, hmade, hmakes'⟩, hends'⟩
      exact ⟨⟨bursts [words] ++ made, List.prefix_append_right_inj _ |>.2 hmade,
        hmakes.append hmakes'⟩, hends'⟩

/-- A split payload makes the transfers of its pieces, up to where it stops. -/
theorem Accepted.ensures_sendSplit (haccepted : e.Accepted g) {payload : List UInt64}
    (hpayload : payload ≠ []) :
    (e.sendSplit payload).Ensures g.words fun writes result =>
      (∃ made, made <+: bursts (pieces e.burstWords payload) ∧ g.Makes made writes) ∧
        WaitEnds result := by
  rw [sendSplit, if_neg (by simpa using hpayload)]
  apply haccepted.ensures_sendBursts
  intro words hwords
  rw [haccepted.burst]
  exact Nat.succ_le_succ (length_le_of_mem_pieces haccepted.positive hwords)

section Receptions

variable {size : Channel → Nat}

theorem ensures_last (s : Split) (half : Half) :
    (Proc.onWindow .s2mm (s.last half)).Ensures size fun writes _ => writes = [] := by
  rintro (cause | words) - <;> rfl

theorem ensures_drain (s : Split) (half : Half) :
    (Proc.onWindow .s2mm (s.drain half)).Ensures size fun writes _ => writes = [] := by
  intro reply _
  rfl

/-- Taking a chunk makes no transfer. -/
theorem ensures_takeChunk (e : Engine) (half : Half) :
    (e.takeChunk half).Ensures size fun writes _ => g.Makes [] writes := by
  apply Proc.Ensures.bind
  apply (ensures_await (g := g) e.mode .s2mm e.limit).mono
  rintro writes result ⟨hmakes, -⟩
  cases result with
  | error cause => exact hmakes.append_nil
  | ok _ =>
    apply Proc.Ensures.bind
    apply (ensures_last e.destination half).mono
    rintro _ (cause | last) rfl
    · exact hmakes.append_nil
    · apply Proc.Ensures.bind
      apply (ensures_drain e.destination half).mono
      rintro _ (cause | words) rfl <;> exact hmakes.append_nil

/-- Arming a half makes one transfer of the read length. -/
theorem Accepted.ensures_arm (haccepted : e.Accepted g) (half : Half) :
    (e.arm half).Ensures size fun writes _ => g.Makes [(.s2mm, e.readLength)] writes := by
  rw [← haccepted.chunk]
  apply ensures_launch
  · apply Geometry.covers_of_words (e.destination.offset half)
    · exact haccepted.destination.toNat_address half
    · exact haccepted.destination.positive
    · exact haccepted.chunk_le
    · exact haccepted.destination.offset_le half
  · exact haccepted.chunk_le

/-- A reception arms one chunk after the other, each of the read length. -/
theorem Accepted.ensures_receiveChunks (haccepted : e.Accepted g) (buffer : List UInt64)
    {bound : Nat} {half : Half} {before : List (List UInt64)} :
    (e.receiveChunks buffer bound half before).Ensures size fun writes _ =>
      ∃ count, g.Makes (List.replicate count (.s2mm, e.readLength)) writes := by
  induction bound generalizing half before with
  | zero => exact ⟨0, Geometry.makes_empty⟩
  | succ bound ih =>
    apply Proc.Ensures.bind
    apply (ensures_takeChunk e half).mono
    intro writes result hmakes
    cases result with
    | error cause => exact ⟨0, hmakes.append_nil⟩
    | ok chunk =>
      by_cases hlast : Word.endsLayer chunk.1
      · simp only [hlast, if_true]
        exact ⟨0, hmakes.append_nil⟩
      · simp only [hlast, if_false, Bool.false_eq_true]
        apply Proc.Ensures.bind
        apply (haccepted.ensures_arm half.other).mono
        intro armed _ harmed
        apply ih.mono
        rintro later _ ⟨count, hlater⟩
        exact ⟨count + 1, hmakes.append (harmed.append hlater)⟩

/-- A reception makes transfers of the read length, as many as it arms chunks. -/
theorem Accepted.ensures_receive (haccepted : e.Accepted g) (bound : Nat) (buffer : List UInt64) :
    (e.receive bound buffer).Ensures size fun writes _ =>
      ∃ count, g.Makes (List.replicate count (.s2mm, e.readLength)) writes := by
  apply Proc.Ensures.bind
  apply (haccepted.ensures_arm .a).mono
  intro armed _ harmed
  apply (haccepted.ensures_receiveChunks buffer).mono
  rintro later _ ⟨count, hlater⟩
  exact ⟨count + 1, harmed.append hlater⟩

end Receptions

section Controls

variable {size : Channel → Nat}

/-- A write to a register that only sets a channel up makes no transfer. -/
theorem makes_write (channel : Channel) {offset : Nat} (hoffset : offset ∈ channel.setup)
    (value : UInt32) : g.Makes [] [⟨offset, value⟩] := by
  apply Geometry.makes_nil
  intro write hwrite
  rw [List.mem_singleton.1 hwrite]
  exact ⟨channel, hoffset⟩

theorem ensures_controls (value : UInt32) :
    (do
      Proc.writeRegister Channel.s2mm.control value
      Proc.writeRegister Channel.mm2s.control value).Ensures size fun writes _ =>
        g.Makes [] writes := by
  intro _ _ _ _
  exact (makes_write .s2mm (by decide) value).append
    (makes_write .mm2s (by decide) value)

/-- A start launches one tag word. -/
theorem Accepted.ensures_start (haccepted : e.Accepted g) :
    e.start.Ensures g.words fun writes result =>
      g.Makes [(.mm2s, wordBytes)] writes ∧ WaitEnds result := by
  have hroom : 1 ≤ g.sourceWords := by
    have hhalves := haccepted.source.halves
    have hpositive := haccepted.source.positive
    omega
  have hopened : g.Makes [] [⟨Channel.mm2s.address, e.source.base⟩,
      ⟨Channel.mm2s.control, e.mode.runWord⟩] :=
    (makes_write .mm2s (by decide) _).append
      (makes_write .mm2s (by decide) _)
  apply Proc.Ensures.perform_bind
  intro _ _
  apply Proc.Ensures.perform_bind
  intro _ _
  apply Proc.Ensures.bind
  apply (haccepted.ensures_sendWords [OperatingMode.partway.tag] (List.cons_ne_nil _ _)
    (by decide) hroom).mono
  rintro writes (cause | _) ⟨hmakes, hends⟩
  · exact ⟨hopened.append hmakes.append_nil, hends.error⟩
  · intro _ _
    exact ⟨hopened.append (hmakes.append (makes_write .s2mm (by decide) _)),
      waitEnds_ok ()⟩

end Controls

/-- The lengths that an operation may launch. Sending stops at a wait that fails, and how many
    chunks a reception takes is up to the link. -/
def Intends (e : Engine) : Operation → List (Channel × Nat) → Prop
  | .initialise _, made => made <+: [(.mm2s, wordBytes)]
  | .send buffer, made => made <+: [(.mm2s, buffer.length * wordBytes)]
  | .sendSplit payload, made => made <+: bursts (pieces e.burstWords payload)
  | .receive _, made => ∃ count, made = List.replicate count (.s2mm, e.readLength)
  | _, made => made = []

theorem ensures_report {size : Channel → Nat} (channel : Channel) :
    (report channel).Ensures size fun writes _ => writes = [] := by
  intro status _
  rfl

/-- A buffer that no burst is made of: an empty one, or one that is too long. -/
def Unsendable (buffer : List UInt64) : Prop := buffer = [] ∨ 8388608 < 8 * buffer.length

instance (buffer : List UInt64) : Decidable (Unsendable buffer) :=
  inferInstanceAs (Decidable (buffer = [] ∨ 8388608 < 8 * buffer.length))

/-- A buffer is refused exactly if its bytes are none or too many. -/
theorem unsendable_iff (buffer : List UInt64) :
    Unsendable buffer ↔ Size.bytesOfWords buffer.length = 0 ∨
      Layout.maxBurstBytes < Size.bytesOfWords buffer.length := by
  rw [Unsendable, ← List.length_eq_zero_iff]
  simp only [Size.bytesOfWords, Size.limit, Layout.maxBurstBytes]
  omega

theorem send_eq (e : Engine) (buffer : List UInt64) :
    e.send buffer =
      if Unsendable buffer then
        return .error (.transferSize (Size.bytesOfWords buffer.length) Layout.maxBurstBytes)
      else e.sendWords buffer := by
  by_cases hrefused : Unsendable buffer
  · rw [if_pos hrefused]
    exact if_pos ((unsendable_iff buffer).1 hrefused)
  · rw [if_neg hrefused]
    exact if_neg (mt (unsendable_iff buffer).2 hrefused)

theorem length_le_of_not_unsendable {buffer : List UInt64} (hsendable : ¬Unsendable buffer) :
    buffer ≠ [] ∧ buffer.length * wordBytes ≤ Layout.maxBurstBytes := by
  simp only [Unsendable, not_or, Nat.not_lt] at hsendable
  refine ⟨hsendable.1, ?_⟩
  rw [Nat.mul_comm]
  exact hsendable.2

/-- A single burst makes at most one transfer, of all its bytes. -/
theorem Accepted.ensures_send (haccepted : e.Accepted g) (buffer : List UInt64) :
    (e.send buffer).Ensures g.words fun writes _ =>
      ∃ made, made <+: [(.mm2s, buffer.length * wordBytes)] ∧ g.Makes made writes := by
  rw [send_eq]
  split
  case isTrue => exact ⟨[], List.nil_prefix, Geometry.makes_empty⟩
  case isFalse hsendable =>
    obtain ⟨hwords, hshort⟩ := length_le_of_not_unsendable hsendable
    by_cases hfits : buffer.length ≤ g.sourceWords
    · apply (haccepted.ensures_sendWords _ hwords hshort hfits).mono
      rintro writes result ⟨hmakes, -⟩
      exact ⟨_, List.prefix_rfl, hmakes⟩
    · apply (ensures_sendWords_past (Nat.lt_of_not_le hfits)).mono
      rintro writes result ⟨rfl, -⟩
      exact ⟨[], List.nil_prefix, Geometry.makes_empty⟩

/-- An operation launches what it intends, each transfer inside the window of its channel. -/
theorem Accepted.ensures_perform (haccepted : e.Accepted g) (bound : Nat) (operation : Operation) :
    (e.perform bound operation).2.Ensures g.words fun writes _ =>
      ∃ made, e.Intends operation made ∧ g.Makes made writes := by
  cases operation with
  | initialise readLength =>
    simp only [Engine.perform]
    split
    · exact ⟨[], List.nil_prefix, Geometry.makes_empty⟩
    · apply Proc.Ensures.map
      apply (haccepted.configure ‹_›).ensures_start.mono
      rintro writes result ⟨hmakes, -⟩
      exact ⟨_, List.prefix_rfl, hmakes⟩
  | send buffer =>
    apply Proc.Ensures.bind
    apply (haccepted.ensures_send buffer).mono
    rintro writes (cause | bytes) ⟨made, hmade, hmakes⟩ <;>
      exact ⟨made, hmade, hmakes.append_nil⟩
  | sendSplit payload =>
    apply Proc.Ensures.map
    by_cases hpayload : payload = []
    · subst hpayload
      exact ⟨[], List.nil_prefix, Geometry.makes_empty⟩
    · apply (haccepted.ensures_sendSplit hpayload).mono
      rintro writes result ⟨hmade, -⟩
      exact hmade
  | receive buffer =>
    apply Proc.Ensures.map
    apply (haccepted.ensures_receive bound buffer).mono
    rintro writes reception ⟨count, hmakes⟩
    exact ⟨_, ⟨count, rfl⟩, hmakes⟩
  | shows channel flag =>
    intro status _
    exact ⟨[], rfl, Geometry.makes_empty⟩
  | acknowledge channel =>
    apply Proc.Ensures.map
    apply (ensures_acknowledge channel).mono
    intro writes _ hmakes
    exact ⟨[], rfl, hmakes⟩
  | statuses =>
    intro mm2s _ s2mm _
    exact ⟨[], rfl, Geometry.makes_empty⟩
  | report channel =>
    apply Proc.Ensures.map
    apply (ensures_report channel).mono
    rintro writes text rfl
    exact ⟨[], rfl, Geometry.makes_empty⟩
  | reset =>
    apply Proc.Ensures.map
    apply (ensures_controls Control.reset).mono
    intro writes _ hmakes
    exact ⟨[], rfl, hmakes⟩
  | halt =>
    apply Proc.Ensures.map
    apply (ensures_controls Control.halt).mono
    intro writes _ hmakes
    exact ⟨[], rfl, hmakes⟩
  | setTimeout timeout => exact ⟨[], rfl, Geometry.makes_empty⟩

end DmaLink.Engine
