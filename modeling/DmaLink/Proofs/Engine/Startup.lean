import DmaLink.Proofs.Engine.Bursts
import DmaLink.Proofs.Engine.Chunks
import DmaLink.Proofs.Queue.Traffic

namespace DmaLink

/-- What a program uses is all that its traces show. -/
theorem Proc.Uses.accesses {α σ : Type} [Device σ] {P : Link.Access → Prop} {p : Proc Link.io α}
    (hp : p.Uses P) (link : σ) : ∀ access ∈ Trace.accesses (p.trace link), P access := by
  induction p generalizing link with
  | ret result => exact nofun
  | act access next ih =>
    obtain ⟨_, haccess, hnext⟩ := hp (Device.answer access link).1
    exact List.forall_mem_cons.2 ⟨haccess, ih _ hnext _⟩

namespace Engine

section Receiving

variable (e : Engine)

/-- The accesses that a reception is made of, whatever is replied to them. -/
inductive Receives : Link.Access → Prop where
  | awaits {access : Link.Access} (hawaits : access.Awaits .s2mm) : Receives access
  | arm (half : Half) {access : Link.Access} (harm : access ∈ e.arming half) : Receives access
  | look (half : Half) : Receives (e.looking half)
  | copy (half : Half) : Receives (e.copying half)

theorem uses_arm (half : Half) : (e.arm half).Uses e.Receives :=
  (Proc.uses_perform (.arm half (List.mem_cons_self ..))).bind fun _ =>
    Proc.uses_perform (.arm half (List.mem_cons_of_mem _ (List.mem_singleton_self _)))

theorem uses_takeChunk (half : Half) : (e.takeChunk half).Uses e.Receives := by
  apply ((Completion.uses_await .s2mm e.limit e.mode).mono fun _ => Receives.awaits).bind
  rintro (cause | _)
  · trivial
  intro last
  refine ⟨(), .look half, ?_⟩
  rcases last with cause | last
  · trivial
  intro words
  refine ⟨(), .copy half, ?_⟩
  cases words <;> trivial

theorem uses_receiveChunks (buffer : List UInt64) (bound : Nat) (half : Half)
    (before : List (List UInt64)) :
    (e.receiveChunks buffer bound half before).Uses e.Receives := by
  induction bound generalizing half before with
  | zero => trivial
  | succ bound ih =>
    apply (e.uses_takeChunk half).bind
    rintro (cause | ⟨last, words⟩)
    · trivial
    · refine Proc.Follows.ite (fun _ => trivial) fun _ => ?_
      exact (e.uses_arm half.other).bind fun _ => ih half.other _

/-- A reception uses the receiving channel alone. -/
theorem uses_receive (bound : Nat) (buffer : List UInt64) :
    (e.receive bound buffer).Uses e.Receives :=
  (e.uses_arm .a).bind fun _ => e.uses_receiveChunks buffer bound .a []

end Receiving

namespace Receives

variable {g : Geometry} {e : Engine}

/-- The only length that a reception writes is the read length. -/
theorem toNat_eq_readLength (haccepted : e.Accepted g) {value : UInt32}
    (hreceives : e.Receives (.writeRegister Channel.s2mm.length value)) :
    value.toNat = e.readLength := by
  cases hreceives with
  | awaits hawaits => exact nomatch hawaits
  | arm half harm =>
    rcases List.mem_cons.1 harm with haddress | hlength
    · exact absurd (Link.Access.writeRegister.inj haddress).1 (by decide)
    · obtain ⟨-, rfl⟩ := Link.Access.writeRegister.inj (List.mem_singleton.1 hlength)
      rw [Layout.toNat_ofNat_of_le haccepted.chunk_le, haccepted.chunk]

/-- What a reception loads is a half of the destination window, or the last word of one, if the
    halves hold the read length. -/
theorem load (haccepted : e.Accepted g) {start len : Nat}
    (hreceives : e.Receives (.window .s2mm (.load start len))) :
    8 * len = e.readLength ∧ (start = 0 ∨ 8 * start = e.readLength) ∨
      len = 1 ∧ (8 * (start + 1) = e.readLength ∨ 8 * (start + 1) = 2 * e.readLength) := by
  have hchunk : e.destination.halfWords * 8 = e.readLength := haccepted.chunk
  have hpositive := haccepted.destination.positive
  cases hreceives with
  | awaits hawaits => exact nomatch hawaits
  | arm half harm => exact nomatch List.mem_cons.1 harm
  | look half =>
    refine .inr ⟨rfl, ?_⟩
    cases half <;> simp only [Split.offset] <;> omega
  | copy half =>
    refine .inl ⟨by omega, ?_⟩
    cases half with
    | a => exact .inl rfl
    | b => exact .inr (by simp only [Split.offset]; omega)

end Receives

variable {σ : Type} [Device σ] {source : σ → Window} {e : Engine} {link : σ}

/-- Words that fit the source window are stored at its start, launched and waited for. -/
theorem exists_goes_sendWords (hmode : e.mode = .poll) (hbacks : Device.Backs source)
    (words : List UInt64) (hfits : words.length ≤ (source link).size) :
    ∃ finished trace after launched,
      (e.sendWords words).Goes link trace
        (if finished then .ok (words.length * wordBytes)
          else .error (.channelTimeout .mm2s e.limit)) after ∧
      Trace.Shows trace
        ([.window .mm2s (.store 0 words)] ++
          launching .mm2s e.source.base (words.length * wordBytes) ++
          Completion.polling .mm2s e.limit finished) [finished] [] [(link, launched)] ∧
      (source launched).words = Memory.put (source link).words 0 words := by
  obtain ⟨hreply, hstored⟩ := hbacks.stores 0 words link (by omega)
  let stored := (Device.answer (.window .mm2s (.store 0 words)) link).2
  obtain ⟨running, hlaunch⟩ := exists_goes_launch .mm2s e.source.base (words.length * wordBytes)
    stored
  obtain ⟨finished, trace, after, hwait, hwaited⟩ :=
    Completion.exists_goes_poll .mm2s e.limit running
  have hlaunched : Trace.Shows
      [⟨.window .mm2s (.store 0 words), link⟩,
        ⟨.writeRegister Channel.mm2s.address e.source.base, stored⟩,
        ⟨.writeRegister Channel.mm2s.length (UInt32.ofNat (words.length * wordBytes)),
          addressed .mm2s e.source.base stored⟩]
      ([.window .mm2s (.store 0 words)] ++
        launching .mm2s e.source.base (words.length * wordBytes)) [] []
      [(link, addressed .mm2s e.source.base stored)] := ⟨rfl, rfl, rfl, fun _ => rfl⟩
  unfold sendWords
  rw [hmode]
  refine ⟨finished, _ :: (_ ++ (trace ++ [])), after, addressed .mm2s e.source.base stored,
    Proc.Goes.onWindow_bind hreply (hlaunch.bind (hwait.bind ?_)), ?_, ?_⟩
  · cases finished <;> exact Proc.goes_ret _ _
  · rw [List.append_nil]
    exact hlaunched.append hwaited
  · rw [addressed, hbacks.source_address]
    exact hstored

/-- The accesses of a start before its tag word is stored. -/
def aiming (e : Engine) : List Link.Access :=
  [.writeRegister Channel.mm2s.address e.source.base,
    .writeRegister Channel.mm2s.control e.mode.runWord]

/-- The accesses of a start from its tag word on. -/
def tagging (e : Engine) (finished : Bool) : List Link.Access :=
  [.window .mm2s (.store 0 [OperatingMode.partway.tag])] ++
    launching .mm2s e.source.base (1 * wordBytes) ++ Completion.polling .mm2s e.limit finished ++
    if finished then [.writeRegister Channel.s2mm.control e.mode.runWord] else []

/-- What a start does once it has aimed and run the sending channel. -/
def sendTag (e : Engine) : Proc Link.io (Except LinkError Unit) := do
  match ← e.sendWords [OperatingMode.partway.tag] with
  | .error cause => return .error cause
  | .ok _ =>
    Proc.writeRegister Channel.s2mm.control e.mode.runWord
    return .ok ()

/-- The tag word of a start is sent, and the receiving channel runs if its wait succeeds. -/
theorem exists_goes_sendTag (hmode : e.mode = .poll) (hbacks : Device.Backs source)
    (hroom : 0 < (source link).size) :
    ∃ finished trace after launched,
      e.sendTag.Goes link trace
        (if finished then .ok () else .error (.channelTimeout .mm2s e.limit)) after ∧
      Trace.Shows trace (e.tagging finished) [finished] [] [(link, launched)] ∧
      (source launched).words = Memory.put (source link).words 0 [OperatingMode.partway.tag] := by
  obtain ⟨finished, trace, after, launched, hgoes, hshows, hstored⟩ :=
    exists_goes_sendWords hmode hbacks [OperatingMode.partway.tag] hroom
  cases finished with
  | false =>
    refine ⟨false, _, after, launched, hgoes.bind (Proc.goes_ret _ _), ?_, hstored⟩
    exact hshows.append Trace.shows_nil
  | true =>
    have hcontrol := Proc.goes_writeRegister Channel.s2mm.control e.mode.runWord after
    refine ⟨true, _, _, launched, hgoes.bind (hcontrol.bind (Proc.goes_ret _ _)), ?_, hstored⟩
    exact hshows.append ⟨rfl, rfl, rfl, fun _ => rfl⟩

/-- The registers that a start by polling writes, by whether the wait for its tag word succeeds. -/
def startup (base : UInt32) (finished : Bool) : List (Nat × Nat) :=
  [(0x18, base.toNat), (0x00, 0x0001), (0x18, base.toNat), (0x28, 8)] ++
    if finished then [(0x04, 0x0002), (0x04, 0x1000), (0x30, 0x0001)] else []

/-- The answer to an initialisation by polling that is not refused, by whether the wait for its tag
    word succeeds. -/
def ended (limit : Nat) (finished : Bool) : Answer :=
  if finished then .done else .failed (.channelTimeout .mm2s limit)

/-- A start writes the addresses and the control words in a fixed order. -/
theorem written_starting (hmode : e.mode = .poll) (finished : Bool) :
    (e.aiming ++ e.tagging finished).flatMap Link.Access.written =
      startup e.source.base finished := by
  simp only [aiming, tagging, hmode]
  cases finished <;> rfl

/-- A start that can store its tag word writes its registers and ends as its wait does. -/
theorem exists_goes_start (hmode : e.mode = .poll) (hbacks : Device.Backs source)
    (hroom : 0 < (source link).size) :
    ∃ finished trace after begun launched,
      e.start.Goes link trace
        (if finished then .ok () else .error (.channelTimeout .mm2s e.limit)) after ∧
      Trace.waits trace = [finished] ∧
      Trace.written trace = startup e.source.base finished ∧
      Trace.stagings none trace = [(begun, launched)] ∧
      (source launched).words[0]? = some OperatingMode.partway.tag := by
  let named := (Device.answer (.writeRegister Channel.mm2s.address e.source.base) link).2
  let aimed := (Device.answer (.writeRegister Channel.mm2s.control e.mode.runWord) named).2
  have haddress := Proc.goes_writeRegister Channel.mm2s.address e.source.base link
  have hcontrol := Proc.goes_writeRegister Channel.mm2s.control e.mode.runWord named
  have haimed : Trace.Shows
      ([⟨.writeRegister Channel.mm2s.address e.source.base, link⟩] ++
        [⟨.writeRegister Channel.mm2s.control e.mode.runWord, named⟩])
      e.aiming [] [] [] := ⟨rfl, rfl, rfl, fun _ => rfl⟩
  have hroom' : 0 < (source aimed).size := by
    rwa [hbacks.size_answer, hbacks.size_answer]
  obtain ⟨finished, trace, after, launched, hgoes, hshows, hstored⟩ :=
    exists_goes_sendTag hmode hbacks hroom'
  have hstart : e.start.Goes link _ _ after := haddress.bind
    (f := fun _ => Proc.writeRegister Channel.mm2s.control e.mode.runWord >>= fun _ => e.sendTag)
    (hcontrol.bind hgoes)
  have hall := haimed.append hshows
  rw [List.append_assoc] at hall
  refine ⟨finished, _, after, aimed, launched, hstart, hall.waits_eq, ?_, hall.stagings_eq, ?_⟩
  · rw [hall.written_eq, written_starting hmode]
  · rw [hstored, Memory.getElem?_put]
    exact if_pos ⟨Nat.le_refl 0, Nat.one_pos, hroom'⟩

variable {g : Geometry} {mode : SyncMode}

/-- An initialisation that is not refused starts the engine with the read length that it was given
    and the wait limit that it had. -/
theorem Created.exists_initialise (hcreated : e.Created mode g) {readLength : Nat}
    (htaken : ¬g.Refuses readLength) (bound : Nat) :
    ∃ e', e.perform bound (.initialise readLength) =
        (e', e'.start >>= fun result => .ret (.ofResult result)) ∧
      e'.Created mode g ∧ e'.readLength = readLength ∧ e'.limit = e.limit := by
  -- The engine is changed before its link is touched, whatever then becomes of the start.
  have hkept := hcreated.perform bound (.initialise readLength)
  rcases hcreated.accepted.configure_eq readLength with ⟨-, hconfigure⟩ | ⟨hrefused, -⟩
  · simp only [Engine.perform, hconfigure] at hkept ⊢
    exact ⟨_, rfl, hkept, rfl, rfl⟩
  · exact absurd hrefused htaken

end Engine

namespace Session

open Engine

variable {σ : Type} [Device σ] {source : σ → Window} {g : Geometry} {s : Session σ}

/-- An initialisation that is not refused writes the registers of a start and ends as its wait
    does. -/
theorem exists_startup (hcreated : s.engine.Created .poll g) (hbacks : Device.Backs source)
    (hroom : 0 < (source s.link).size) {readLength : Nat} (htaken : ¬g.Refuses readLength) :
    let trace :=
      (s.engine.perform (Device.chunkBound s.link) (.initialise readLength)).2.trace s.link
    ∃ finished begun launched, Trace.waits trace = [finished] ∧
      Trace.written trace = startup g.sourceBase finished ∧
      Trace.stagings none trace = [(begun, launched)] ∧
      (source launched).words[0]? = some OperatingMode.partway.tag ∧
      (s.perform (.initialise readLength)).1 = ended s.engine.limit finished ∧
      (s.perform (.initialise readLength)).2.engine.readLength = readLength ∧
      (s.perform (.initialise readLength)).2.engine.limit = s.engine.limit := by
  intro trace
  obtain ⟨e, hperform, hcreated', hread, hlimit⟩ :=
    hcreated.exists_initialise htaken (Device.chunkBound s.link)
  obtain ⟨finished, trace', after, begun, launched, hgoes, hwaits, hwritten, hstagings, hstored⟩ :=
    exists_goes_start hcreated'.mode_eq hbacks hroom
  have hmapped := hgoes.map Answer.ofResult
  have htrace : trace = trace' := (congrArg (·.2.trace s.link) hperform).trans hmapped.trace_eq
  have hanswer : s.perform (.initialise readLength) =
      (Answer.ofResult (if finished then .ok () else .error (.channelTimeout .mm2s e.limit)),
        ⟨e, after⟩) := by
    rw [Session.perform, hperform]
    simp only [hmapped.run_eq]
  rw [htrace, hanswer, ← hlimit]
  rw [hcreated'.accepted.source.base_eq] at hwritten
  refine ⟨finished, begun, launched, hwaits, hwritten, hstagings, hstored, ?_, hread, rfl⟩
  cases finished <;> rfl

/-- Initialisations that are not refused each write the registers of a start anew. -/
theorem exists_startups (hcreated : s.engine.Created .poll g) (hbacks : Device.Backs source)
    (hroom : 0 < (source s.link).size) {readLength : Nat} (htaken : ¬g.Refuses readLength)
    (count : Nat) :
    let again := List.replicate count (Operation.initialise readLength)
    ∃ outcomes : List Bool, outcomes.length = count ∧
      (s.writesAll again).map RegisterWrite.number = outcomes.flatMap (startup g.sourceBase) ∧
      (s.performAll again).1 = outcomes.map (ended s.engine.limit) := by
  induction count generalizing s with
  | zero => exact ⟨[], rfl, rfl, rfl⟩
  | succ count ih =>
    obtain ⟨finished, -, -, -, hwritten, -, -, hanswer, -, hlimit⟩ :=
      exists_startup hcreated hbacks hroom htaken
    have hcreated' : (s.perform (.initialise readLength)).2.engine.Created .poll g :=
      hcreated.perform (Device.chunkBound s.link) (.initialise readLength)
    have hroom' : 0 < (source (s.perform (.initialise readLength)).2.link).size := by
      rw [← hbacks.size_run
        (s.engine.perform (Device.chunkBound s.link) (.initialise readLength)).2] at hroom
      exact hroom
    obtain ⟨outcomes, hlength, hwrites, hanswers⟩ := ih hcreated' hroom'
    refine ⟨finished :: outcomes, congrArg (· + 1) hlength, ?_, ?_⟩
    · rw [Proc.written_trace] at hwritten
      rw [List.flatMap_cons, ← hwritten, ← hwrites]
      exact List.map_append
    · rw [List.map_cons, ← hanswer, ← hlimit, ← hanswers]
      rfl

/-- Whatever was asked of an engine, and whatever came of it, its read length is that of the halves
    that the next reception arms and copies. An initialisation by polling that is not refused writes
    the registers of a start, with its tag word at the start of the source window when the length is
    written; it differs from any other only in whether its wait succeeds, and so does every
    repetition. -/
theorem readLength_startup {mode : SyncMode} (hcreate : Engine.create mode g = .ok e) (link : σ)
    (operations : List Operation) :
    let s := (performAll ⟨e, link⟩ operations).2
    let length := s.engine.readLength
    (length = 8 * s.engine.destination.halfWords ∧ ∀ bound buffer,
      let accesses := Trace.accesses ((s.engine.receive bound buffer).trace s.link)
      (accesses.take 2).flatMap Link.Access.written =
        [(0x48, g.destinationBase.toNat), (0x58, length)] ∧
      (∀ value, .writeRegister 0x58 value ∈ accesses → value.toNat = length) ∧
      ∀ start len, .window .s2mm (.load start len) ∈ accesses →
        8 * len = length ∧ (start = 0 ∨ 8 * start = length) ∨
          len = 1 ∧ (8 * (start + 1) = length ∨ 8 * (start + 1) = 2 * length)) ∧
    (mode = .poll → ∀ source : σ → Window, Device.Backs source →
      (source link).size = g.sourceWords → ∀ readLength, ¬g.Refuses readLength →
        let trace :=
          (s.engine.perform (Device.chunkBound s.link) (.initialise readLength)).2.trace s.link
        (∃ finished begun launched, Trace.waits trace = [finished] ∧
          Trace.written trace = startup g.sourceBase finished ∧
          Trace.stagings none trace = [(begun, launched)] ∧
          (source launched).words[0]? = some OperatingMode.partway.tag ∧
          (s.perform (.initialise readLength)).1 = ended s.engine.limit finished ∧
          (s.perform (.initialise readLength)).2.engine.readLength = readLength) ∧
        ∀ count,
          let again := List.replicate count (Operation.initialise readLength)
          ∃ outcomes : List Bool, outcomes.length = count ∧
            (s.writesAll again).map RegisterWrite.number =
              outcomes.flatMap (startup g.sourceBase) ∧
            (s.performAll again).1 = outcomes.map (ended s.engine.limit)) := by
  intro s length
  have hcreated : s.engine.Created mode g :=
    created_performAll (s := ⟨e, link⟩) (created_create hcreate) operations
  have haccepted := hcreated.accepted
  have hlength : s.engine.destination.halfWords * 8 = length := haccepted.chunk
  refine ⟨⟨by omega, fun bound buffer => ?_⟩, ?_⟩
  · intro accesses
    have hreceives := (s.engine.uses_receive bound buffer).accesses s.link
    refine ⟨?_, fun value hvalue => (hreceives _ hvalue).toNat_eq_readLength haccepted,
      fun start len hload => (hreceives _ hload).load haccepted⟩
    have harmed := written_launching haccepted.destination .s2mm .a haccepted.chunk_le
    rw [Nat.mul_comm 8 s.engine.destination.halfWords, hlength] at harmed
    exact harmed
  · rintro rfl source hbacks hsize readLength htaken trace
    have hroom : 0 < (source s.link).size := by
      have hkept : (source s.link).size = g.sourceWords :=
        (hbacks.size_performAll ⟨e, link⟩ operations).trans hsize
      have hpositive := haccepted.source.positive
      have hhalves := haccepted.source.halves
      omega
    obtain ⟨finished, begun, launched, hwaits, hwritten, hstagings, hstored, hanswer, hread, -⟩ :=
      exists_startup hcreated hbacks hroom htaken
    exact ⟨⟨finished, begun, launched, hwaits, hwritten, hstagings, hstored, hanswer, hread⟩,
      exists_startups hcreated hbacks hroom htaken⟩

/-- A start whose tag burst is not finished stops there. -/
theorem readLength_startup_timedOut :
    ∃ e, Engine.create .poll ⟨6, Loopback.sourceBase, 256, Loopback.destinationBase, 2⟩ = .ok e ∧
      let link : Script := ⟨.zeroed 6, .zeroed 256, [0, 0x1002], [], #[]⟩
      let refused := LinkError.configuration (.readLengthOutside 1000)
      let late := LinkError.channelTimeout .mm2s 0
      let again := List.replicate 2 (Operation.initialise 1024)
      let tried := performAll ⟨e, link⟩ [.setTimeout ⟨0⟩, .initialise 1000, .initialise 1024]
      tried.1 = [.done, .failed refused, .failed late] ∧
      tried.2.engine.readLength = 1024 ∧
      tried.2.engine.readLength = 8 * tried.2.engine.destination.halfWords ∧
      (tried.2.performAll again).1 = [.done, .failed late] ∧
      (tried.2.writesAll again).map RegisterWrite.number =
        [(0x18, 0x10000000), (0x00, 0x0001), (0x18, 0x10000000), (0x28, 8), (0x04, 0x0002),
          (0x04, 0x1000), (0x30, 0x0001), (0x18, 0x10000000), (0x00, 0x0001),
          (0x18, 0x10000000), (0x28, 8)] := by
  obtain ⟨e, hcreate, hfacts⟩ : ∃ e, Engine.create .poll ⟨6, Loopback.sourceBase, 256,
      Loopback.destinationBase, 2⟩ = .ok e ∧
      let tried := performAll (⟨e, ⟨.zeroed 6, .zeroed 256, [0, 0x1002], [], #[]⟩⟩ : Session Script)
        [.setTimeout ⟨0⟩, .initialise 1000, .initialise 1024]
      tried.1 = [.done, .failed (.configuration (.readLengthOutside 1000)),
          .failed (.channelTimeout .mm2s 0)] ∧
        tried.2.engine.readLength = 1024 ∧ tried.2.engine.limit = 0 ∧
        (tried.2.performAll (List.replicate 2 (.initialise 1024))).1 =
          [.done, .failed (.channelTimeout .mm2s 0)] :=
    ⟨_, create_small .poll, by decide +kernel⟩
  refine ⟨e, hcreate, ?_⟩
  intro link refused late again tried
  obtain ⟨htried, hread, hlimit, hseen⟩ := hfacts
  obtain ⟨⟨hlength, -⟩, hstarts⟩ :=
    readLength_startup hcreate link [.setTimeout ⟨0⟩, .initialise 1000, .initialise 1024]
  obtain ⟨-, hagain⟩ := hstarts rfl Script.source Script.backs rfl 1024
    (by unfold Geometry.Refuses; decide)
  obtain ⟨outcomes, hcount, hwrites, hanswers⟩ := hagain 2
  have honly : outcomes = [true, false] := by
    rw [hlimit] at hanswers
    have houtcomes := hseen.symm.trans hanswers
    match outcomes, hcount with
    | [first, second], _ =>
      revert houtcomes
      cases first <;> cases second <;> simp [ended]
  rw [honly] at hwrites
  exact ⟨htried, hread, hlength, hseen, hwrites⟩

end Session

end DmaLink
