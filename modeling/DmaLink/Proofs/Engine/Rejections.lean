import DmaLink.Proofs.Engine.Inside

namespace DmaLink

namespace Engine

/-- An answer that is right or fails with the error of a wait. -/
def Answer.OfWait (answer : Answer) : Prop := ∀ cause, answer = .failed cause → cause.OfWait

theorem ofWait_ofResult {result : Except LinkError Unit} (hends : WaitEnds result) :
    (Answer.ofResult result).OfWait := by
  intro cause hcause
  cases result with
  | error cause' =>
    obtain rfl := Answer.failed.inj hcause
    exact hends _ rfl
  | ok _ => exact nomatch hcause

/-- The answer that refuses parameters. -/
def Answer.Misconfigured (answer : Answer) : Prop :=
  ∃ cause, answer = .failed (.configuration cause)

/-- The answer that refuses a payload that does not make a burst. -/
def Answer.Missized (answer : Answer) : Prop :=
  ∃ bytes max, answer = .failed (.transferSize bytes max)

/-- The answer that refuses words that run past the end of a window. -/
def Answer.OutOfBounds (answer : Answer) : Prop :=
  ∃ offset len limit, answer = .failed (.outOfBounds offset len limit)

theorem Answer.OfWait.configured {answer : Answer} (hanswer : answer.OfWait) :
    ¬answer.Misconfigured := by
  rintro ⟨cause, hcause⟩
  exact hanswer _ hcause

theorem Answer.OfWait.sized {answer : Answer} (hanswer : answer.OfWait) : ¬answer.Missized := by
  rintro ⟨bytes, max, hcause⟩
  exact hanswer _ hcause

theorem Answer.OfWait.inBounds {answer : Answer} (hanswer : answer.OfWait) :
    ¬answer.OutOfBounds := by
  rintro ⟨offset, len, limit, hcause⟩
  exact hanswer _ hcause

variable {g : Geometry} {e : Engine}

/-- Where a read length is taken, only the waits of the start can fail. -/
theorem Accepted.ensures_initialise (haccepted : e.Accepted g) {readLength : Nat}
    (htaken : ¬g.Refuses readLength) (bound : Nat) :
    (e.perform bound (.initialise readLength)).2.Ensures g.words fun _ answer => answer.OfWait := by
  rcases haccepted.configure_eq readLength with ⟨-, hconfigure⟩ | ⟨hrefused, -⟩
  · simp only [Engine.perform, hconfigure]
    apply Proc.Ensures.map
    apply (haccepted.configure hconfigure).ensures_start.mono
    rintro writes result ⟨-, hends⟩
    exact ofWait_ofResult hends
  · exact absurd hrefused htaken

/-- Where a single burst is taken, only its wait can fail. -/
theorem Accepted.ensures_perform_send (haccepted : e.Accepted g) {buffer : List UInt64}
    (hsendable : ¬Unsendable buffer) (hfits : buffer.length ≤ g.sourceWords) (bound : Nat) :
    (e.perform bound (.send buffer)).2.Ensures g.words fun _ answer => answer.OfWait := by
  obtain ⟨hwords, hshort⟩ := length_le_of_not_unsendable hsendable
  simp only [Engine.perform, send_eq, if_neg hsendable]
  apply Proc.Ensures.bind
  apply (haccepted.ensures_sendWords _ hwords hshort hfits).mono
  rintro writes (cause | bytes) ⟨-, hends⟩
  · intro cause' hcause
    obtain rfl := Answer.failed.inj hcause
    exact hends _ rfl
  · intro cause hcause
    cases hcause

/-- A buffer that runs past the end of the source window is refused by the window. -/
theorem ensures_perform_send_past {buffer : List UInt64} (hsendable : ¬Unsendable buffer)
    (hpast : g.sourceWords < buffer.length) (bound : Nat) :
    (e.perform bound (.send buffer)).2.Ensures g.words fun writes answer =>
      writes = [] ∧ answer = .failed (.outOfBounds 0 buffer.length g.sourceWords) := by
  simp only [Engine.perform, send_eq, if_neg hsendable]
  apply Proc.Ensures.bind
  apply (ensures_sendWords_past hpast).mono
  rintro writes result ⟨rfl, rfl⟩
  exact ⟨rfl, rfl⟩

/-- Where a payload is not empty, only the waits of its bursts can fail. -/
theorem Accepted.ensures_perform_sendSplit (haccepted : e.Accepted g) {payload : List UInt64}
    (hpayload : payload ≠ []) (bound : Nat) :
    (e.perform bound (.sendSplit payload)).2.Ensures g.words fun _ answer => answer.OfWait := by
  apply Proc.Ensures.map
  apply (haccepted.ensures_sendSplit hpayload).mono
  rintro writes result ⟨-, hends⟩
  exact ofWait_ofResult hends

end Engine

namespace Session

open Engine

variable {σ : Type} [Device σ] {g : Geometry} {size : Channel → σ → Nat} {s : Session σ}

/-- An operation that writes no register and leaves the engine and its device as they are. -/
def Untouched (s : Session σ) (operation : Operation) : Prop :=
  s.writes operation = [] ∧ (s.perform operation).2 = s

/-- What every program ensures on lawful replies holds of the answers of a session. -/
theorem Housed.ofWait (hhoused : s.Housed g size) (hlawful : Device.Lawful size)
    {operation : Operation}
    (hensures : (s.engine.perform (Device.chunkBound s.link) operation).2.Ensures g.words
      fun _ answer => answer.OfWait) : (s.perform operation).1.OfWait := by
  rw [← hhoused.size_eq] at hensures
  exact hensures.run hlawful

/-- The read lengths that are refused are those of the geometry. -/
theorem Housed.initialise (hhoused : s.Housed g size) (hlawful : Device.Lawful size)
    (readLength : Nat) :
    ((s.perform (.initialise readLength)).1.Misconfigured ↔ g.Refuses readLength) ∧
      (g.Refuses readLength → s.Untouched (.initialise readLength)) := by
  by_cases hrefused : g.Refuses readLength
  · rcases hhoused.accepted.configure_eq readLength with ⟨htaken, -⟩ | ⟨-, cause, hconfigure⟩
    · exact absurd hrefused htaken
    · simp only [Untouched, writes, Session.perform, Engine.perform, hconfigure]
      exact ⟨iff_of_true ⟨cause, rfl⟩ hrefused, fun _ => ⟨rfl, rfl⟩⟩
  · have hanswer := hhoused.ofWait hlawful (hhoused.accepted.ensures_initialise hrefused _)
    exact ⟨iff_of_false hanswer.configured hrefused, fun h => absurd h hrefused⟩

/-- A single burst of no bytes or of too many is refused for its size, and nothing happens. -/
theorem perform_send_of_unsendable {buffer : List UInt64} (hunsendable : Unsendable buffer) :
    (∃ bytes max, (s.perform (.send buffer)).1 = .failed (.transferSize bytes max)) ∧
      s.Untouched (.send buffer) := by
  simp only [Untouched, writes, Session.perform, Engine.perform, send_eq, if_pos hunsendable]
  exact ⟨⟨_, _, rfl⟩, rfl, rfl⟩

/-- A single burst that is longer than the window is out of bounds, and nothing happens. -/
theorem Housed.send_of_past (hhoused : s.Housed g size) (hlawful : Device.Lawful size)
    (hguarded : Device.Guarded size) {buffer : List UInt64} (hsendable : ¬Unsendable buffer)
    (hpast : g.sourceWords < buffer.length) :
    (s.perform (.send buffer)).1 = .failed (.outOfBounds 0 buffer.length g.sourceWords) ∧
      s.Untouched (.send buffer) := by
  have hensures := ensures_perform_send_past (e := s.engine) hsendable hpast
    (Device.chunkBound s.link)
  rw [← hhoused.size_eq] at hensures
  obtain ⟨hwrites, hanswer⟩ := hensures.run hlawful
  have hsize : size .mm2s s.link < 0 + buffer.length := by
    rw [congrFun hhoused.size_eq .mm2s, Nat.zero_add]
    exact hpast
  have hreply : (Device.answer (.window .mm2s (.store 0 buffer)) s.link).1 =
      if 0 + buffer.length ≤ size .mm2s s.link then (.ok () : Except LinkError Unit)
      else .error (.outOfBounds 0 buffer.length (size .mm2s s.link)) :=
    hlawful.admits (.window .mm2s (.store 0 buffer)) s.link
  rw [if_neg (Nat.not_le.2 hsize)] at hreply
  have hstore : (Proc.onWindow .mm2s (Proc.perform (I := Window.io) (.store 0 buffer))).run
      Device.answer s.link = (.error (.outOfBounds 0 buffer.length (size .mm2s s.link)), s.link) :=
    Prod.ext hreply (hguarded .mm2s 0 buffer s.link hsize)
  have hsent : (s.engine.sendWords buffer).run Device.answer s.link =
      (.error (.outOfBounds 0 buffer.length (size .mm2s s.link)), s.link) :=
    Proc.run_bind_of_eq hstore
  have hperformed : (s.engine.perform (Device.chunkBound s.link) (.send buffer)).2.run
      Device.answer s.link =
        (.failed (.outOfBounds 0 buffer.length (size .mm2s s.link)), s.link) := by
    simp only [Engine.perform, send_eq, if_neg hsendable]
    exact Proc.run_bind_of_eq hsent
  exact ⟨hanswer, hwrites, congrArg (fun out => Session.mk s.engine out.2) hperformed⟩

/-- A buffer is refused for its size before the window is asked, and by the window if it does not
    fit there. -/
theorem Housed.send (hhoused : s.Housed g size) (hlawful : Device.Lawful size)
    (hguarded : Device.Guarded size) (buffer : List UInt64) :
    ((s.perform (.send buffer)).1.Missized ↔ Unsendable buffer) ∧
      ((s.perform (.send buffer)).1.OutOfBounds ↔
        ¬Unsendable buffer ∧ g.sourceWords < buffer.length) ∧
      (Unsendable buffer ∨ g.sourceWords < buffer.length → s.Untouched (.send buffer)) := by
  by_cases hunsendable : Unsendable buffer
  · obtain ⟨⟨bytes, max, hanswer⟩, huntouched⟩ := perform_send_of_unsendable (s := s) hunsendable
    refine ⟨iff_of_true ⟨bytes, max, hanswer⟩ hunsendable, iff_of_false ?_ ?_, fun _ => huntouched⟩
    · rintro ⟨offset, len, limit, hother⟩
      rw [hanswer] at hother
      exact nomatch hother
    · exact fun h => h.1 hunsendable
  · by_cases hpast : g.sourceWords < buffer.length
    · obtain ⟨hanswer, huntouched⟩ := hhoused.send_of_past hlawful hguarded hunsendable hpast
      refine ⟨iff_of_false ?_ hunsendable, iff_of_true ⟨_, _, _, hanswer⟩ ⟨hunsendable, hpast⟩,
        fun _ => huntouched⟩
      rintro ⟨bytes, max, hother⟩
      rw [hanswer] at hother
      exact nomatch hother
    · have hanswer := hhoused.ofWait hlawful
        (hhoused.accepted.ensures_perform_send hunsendable (Nat.le_of_not_lt hpast) _)
      exact ⟨iff_of_false hanswer.sized hunsendable,
        iff_of_false hanswer.inBounds fun h => hpast h.2,
        fun h => absurd h (not_or.2 ⟨hunsendable, hpast⟩)⟩

/-- A payload is refused if it is empty, and for nothing else. -/
theorem Housed.sendSplit (hhoused : s.Housed g size) (hlawful : Device.Lawful size)
    (payload : List UInt64) :
    ((s.perform (.sendSplit payload)).1.Missized ↔ payload = []) ∧
      ¬(s.perform (.sendSplit payload)).1.OutOfBounds ∧
      ¬(s.perform (.sendSplit payload)).1.Misconfigured ∧
      (payload = [] → s.Untouched (.sendSplit payload)) := by
  by_cases hpayload : payload = []
  · subst hpayload
    have hanswer : (s.perform (.sendSplit [])).1 =
        .failed (.transferSize 0 Layout.maxBurstBytes) := rfl
    rw [hanswer]
    refine ⟨iff_of_true ⟨_, _, rfl⟩ rfl, ?_, ?_, fun _ => ⟨rfl, rfl⟩⟩
    · rintro ⟨offset, len, limit, hother⟩
      exact nomatch hother
    · rintro ⟨cause, hother⟩
      exact nomatch hother
  · have hanswer :=
      hhoused.ofWait hlawful (hhoused.accepted.ensures_perform_sendSplit hpayload _)
    exact ⟨iff_of_false hanswer.sized hpayload, hanswer.inBounds, hanswer.configured,
      fun h => absurd h hpayload⟩

/-- In every state that operations lead to, a read length is refused exactly if the geometry refuses
    it, a buffer exactly if it is empty, too long for a burst or too long for the source window, and
    a payload exactly if it is empty. Whatever is refused leaves everything as it is. -/
theorem rejections {mode : SyncMode} {g : Geometry} {e : Engine} {size : Channel → σ → Nat}
    (hcreate : Engine.create mode g = .ok e) (hlawful : Device.Lawful size)
    (hguarded : Device.Guarded size) (link : σ)
    (hsize : ∀ channel, size channel link = g.words channel) (operations : List Operation) :
    let s := (performAll ⟨e, link⟩ operations).2
    (∀ readLength,
      ((s.perform (.initialise readLength)).1.Misconfigured ↔ g.Refuses readLength) ∧
        (g.Refuses readLength → s.Untouched (.initialise readLength))) ∧
    (∀ buffer,
      ((s.perform (.send buffer)).1.Missized ↔ Unsendable buffer) ∧
        ((s.perform (.send buffer)).1.OutOfBounds ↔
          ¬Unsendable buffer ∧ g.sourceWords < buffer.length) ∧
        (Unsendable buffer ∨ g.sourceWords < buffer.length → s.Untouched (.send buffer))) ∧
    ∀ payload,
      ((s.perform (.sendSplit payload)).1.Missized ↔ payload = []) ∧
        ¬(s.perform (.sendSplit payload)).1.OutOfBounds ∧
        ¬(s.perform (.sendSplit payload)).1.Misconfigured ∧
        (payload = [] → s.Untouched (.sendSplit payload)) := by
  have hcreated : Housed ⟨e, link⟩ g size := ⟨accepted_create hcreate, funext hsize⟩
  have hhoused := hcreated.performAll hlawful operations
  exact ⟨hhoused.initialise hlawful, hhoused.send hlawful hguarded, hhoused.sendSplit hlawful⟩

/-- A small engine refuses a read length, a single burst and an empty payload. -/
theorem rejections_small :
    ∃ e, Engine.create .poll ⟨6, Loopback.sourceBase, 256, Loopback.destinationBase, 2⟩ = .ok e ∧
      let s := (performAll ⟨e, Loopback.create 6 256 none⟩
        [.initialise 1024, .sendSplit [5, 6, 7]]).2
      (s.perform (.initialise 1032)).1.Misconfigured ∧ s.Untouched (.initialise 1032) ∧
        ¬(s.perform (.initialise 1024)).1.Misconfigured ∧
        (s.perform (.send [1, 2, 3, 4, 5, 6, 7])).1.OutOfBounds ∧
        s.Untouched (.send [1, 2, 3, 4, 5, 6, 7]) ∧
        (s.perform (.sendSplit [])).1.Missized ∧ s.Untouched (.sendSplit []) := by
  have hcreate := create_small .poll
  have hsize :=
    Loopback.windowSize_create ⟨6, Loopback.sourceBase, 256, Loopback.destinationBase, 2⟩ none
  obtain ⟨hinitialise, hsend, hsplit⟩ := rejections hcreate Loopback.lawful Loopback.guarded _ hsize
    [.initialise 1024, .sendSplit [5, 6, 7]]
  have hlong :
      Geometry.Refuses ⟨6, Loopback.sourceBase, 256, Loopback.destinationBase, 2⟩ 1032 := by
    unfold Geometry.Refuses
    decide
  have htaken :
      ¬Geometry.Refuses ⟨6, Loopback.sourceBase, 256, Loopback.destinationBase, 2⟩ 1024 := by
    unfold Geometry.Refuses
    decide
  exact ⟨_, hcreate, (hinitialise 1032).1.2 hlong, (hinitialise 1032).2 hlong,
    fun h => htaken ((hinitialise 1024).1.1 h), (hsend _).2.1.2 ⟨by decide, by decide⟩,
    (hsend _).2.2 (.inr (by decide)), (hsplit []).1.2 rfl, (hsplit []).2.2.2 rfl⟩

end Session

end DmaLink
