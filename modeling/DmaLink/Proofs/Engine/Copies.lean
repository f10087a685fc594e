import DmaLink.Proofs.Engine.Backlog
import DmaLink.Proofs.Engine.Startup
import DmaLink.Proofs.Loopback.Lawful

namespace DmaLink

namespace Engine

variable {σ : Type} [Device σ] {e : Engine} {half : Half} {link : σ}

/-- How a reception can end behind the chunks that it took, with what it has loaded since. -/
inductive Ends (σ : Type) [Device σ] (e : Engine) (bytes : Nat) (taken : List Chunk) :
    List (Except LinkError (List UInt64)) → Reception.Ending → Prop where
  | complete {before : List Chunk} {chunk : Chunk} (htaken : taken = before ++ [chunk])
      (hbefore : ∀ other ∈ before, other.Open) (hlast : ¬chunk.Open) :
      Ends σ e bytes taken [] (.complete bytes)
  /-- A wait failed. -/
  | unmet (hopen : ∀ chunk ∈ taken, chunk.Open) (link : σ) {cause : LinkError}
      (hwait : ((Completion.await e.mode .s2mm e.limit).run Device.answer link).1 = .error cause) :
      Ends σ e bytes taken [] (.failed cause)
  /-- A load failed. -/
  | unread (hopen : ∀ chunk ∈ taken, chunk.Open) {missed : List (Except LinkError (List UInt64))}
      {cause : LinkError} (hmissed : .error cause ∈ missed) :
      Ends σ e bytes taken missed (.failed cause)
  | unfinished (hopen : ∀ chunk ∈ taken, chunk.Open) : Ends σ e bytes taken [] .unfinished

/-- An ending behind some chunks is one behind an open chunk ahead of them as well. -/
theorem Ends.cons {bytes : Nat} {taken : List Chunk} {chunk : Chunk}
    {missed : List (Except LinkError (List UInt64))} {ending : Reception.Ending}
    (hopen : chunk.Open) (hends : Ends σ e bytes taken missed ending) :
    Ends σ e bytes (chunk :: taken) missed ending := by
  cases hends with
  | @complete before last htaken hbefore hlast =>
    exact .complete (congrArg (chunk :: ·) htaken) (List.forall_mem_cons.2 ⟨hopen, hbefore⟩) hlast
  | unmet hall link hwait => exact .unmet (List.forall_mem_cons.2 ⟨hopen, hall⟩) link hwait
  | unread hall hmissed => exact .unread (List.forall_mem_cons.2 ⟨hopen, hall⟩) hmissed
  | unfinished hall => exact .unfinished (List.forall_mem_cons.2 ⟨hopen, hall⟩)

/-- A wait loads nothing. -/
theorem loads_await (mode : SyncMode) (limit : Nat) (link : σ) :
    Trace.loads ((Completion.await mode .s2mm limit).trace link) = [] := by
  refine List.filterMap_eq_nil_iff.2 fun step hstep => ?_
  have hawaits := (Completion.uses_await .s2mm limit mode).accesses link step.access
    (List.mem_map_of_mem hstep)
  obtain ⟨access, state⟩ := step
  cases hawaits <;> rfl

/-- The loads of a trace are those of its parts. -/
theorem loads_append (steps steps' : List (Step σ)) :
    Trace.loads (steps ++ steps') = Trace.loads steps ++ Trace.loads steps' :=
  List.filterMap_append

/-- The chunk in an armed half is copied whole, or the attempt at it fails. -/
theorem exists_copies_takeChunk (e : Engine) (half : Half) (link : σ) :
    (∃ (chunk : Chunk) (steps : List (Step σ)) (after : σ),
      (e.takeChunk half).Goes link steps (.ok (chunk.last, chunk.words)) after ∧
      Trace.loads steps = chunk.loads ∧ chunk.words.length = e.destination.halfWords) ∨
    ∃ (cause : LinkError) (steps : List (Step σ)) (after : σ),
      (e.takeChunk half).Goes link steps (.error cause) after ∧
      (Trace.loads steps = [] ∧
          ((Completion.await e.mode .s2mm e.limit).run Device.answer link).1 = .error cause ∨
        .error cause ∈ Trace.loads steps) := by
  have hwait := Proc.goes_self (Completion.await e.mode .s2mm e.limit) link
  have hwaited := loads_await e.mode e.limit link
  generalize (Completion.await e.mode .s2mm e.limit).trace link = waited at hwait hwaited
  let looked := ((Completion.await e.mode .s2mm e.limit).run Device.answer link).2
  unfold takeChunk
  cases hresult : ((Completion.await e.mode .s2mm e.limit).run Device.answer link).1 with
  | error cause =>
    rw [hresult] at hwait
    refine .inr ⟨cause, _, _, hwait.bind (Proc.goes_ret _ _), .inl ⟨?_, rfl⟩⟩
    rw [List.append_nil]
    exact hwaited
  | ok _ =>
    rw [hresult] at hwait
    let start := e.destination.offset half
    let len := e.destination.halfWords
    rcases hlast : (Device.answer (.window .s2mm (.load (start + len - 1) 1)) looked).1 with
      cause | last
    · have hlook := goes_last e.destination half looked hlast
      have hlooked := (shows_load (start + len - 1) 1 looked hlast).loads_eq
      refine .inr ⟨cause, _, _, hwait.bind (hlook.bind (Proc.goes_ret _ _)), .inr ?_⟩
      rw [loads_append, loads_append, hwaited, hlooked]
      exact List.mem_singleton_self _
    · have hlook := goes_last e.destination half looked hlast
      have hlooked := (shows_load (start + len - 1) 1 looked hlast).loads_eq
      let copied := (Device.answer (.window .s2mm (.load (start + len - 1) 1)) looked).2
      rcases hwords : (Device.answer (.window .s2mm (.load start len)) copied).1 with cause | words
      · have hdrain := goes_drain e.destination half copied hwords
        have hdrained := (shows_load start len copied hwords).loads_eq
        refine .inr ⟨cause, _, _,
          hwait.bind (hlook.bind (hdrain.bind (Proc.goes_ret _ _))), .inr ?_⟩
        rw [loads_append, loads_append, loads_append, hwaited, hlooked, hdrained]
        exact List.mem_cons_of_mem _ (List.mem_singleton_self _)
      · have hdrain := goes_drain e.destination half copied hwords
        have hdrained := (shows_load start len copied hwords).loads_eq
        refine .inl ⟨⟨Window.only last, words.toList⟩, _, _,
          hwait.bind (hlook.bind (hdrain.bind (Proc.goes_ret _ _))), ?_, words.length_toList⟩
        rw [loads_append, loads_append, loads_append, hwaited, hlooked, hdrained, Chunk.loads,
          ← toList_eq_only]
        rfl

/-- From a half that is armed on, a reception copies chunks up to the one it ends with. -/
theorem exists_copies_takeFrom (e : Engine) (buffer : List UInt64) (bound : Nat) (half : Half)
    (before : List (List UInt64)) (link : σ) :
    ∃ (taken : List Chunk) (missed : List (Except LinkError (List UInt64)))
      (ending : Reception.Ending) (steps : List (Step σ)) (after : σ),
      let words := before.reverse.flatten ++ taken.flatMap Chunk.words
      (e.takeFrom buffer bound half before).Goes link steps ⟨buffer ++ words, ending⟩ after ∧
      Trace.loads steps = taken.flatMap Chunk.loads ++ missed ∧
      Ends σ e (words.length * wordBytes) taken missed ending ∧
      ∀ chunk ∈ taken, chunk.words.length = e.destination.halfWords := by
  induction bound generalizing half before link with
  | zero =>
    obtain ⟨armed, after, harm, harmed⟩ := exists_goes_arm e half link
    have hgoes : (e.takeFrom buffer 0 half before).Goes link (armed ++ [])
        ⟨buffer ++ before.reverse.flatten, .unfinished⟩ after := harm.bind (Proc.goes_ret _ _)
    rw [List.append_nil] at hgoes
    refine ⟨[], [], .unfinished, armed, after, ?_, harmed.loads_eq, .unfinished nofun, nofun⟩
    simp only [List.flatMap_nil, List.append_nil]
    exact hgoes
  | succ bound ih =>
    obtain ⟨armed, waiting, harm, harmed⟩ := exists_goes_arm e half link
    rcases exists_copies_takeChunk e half waiting with
      ⟨chunk, steps, after, htake, hloads, hlength⟩ | ⟨cause, steps, after, htake, hfailed⟩
    · by_cases hopen : chunk.Open
      · obtain ⟨taken, missed, ending, steps', after', hgoes, hloads', hends, hlengths⟩ :=
          ih half.other (chunk.words :: before) after
        have hwords : (chunk.words :: before).reverse.flatten ++ taken.flatMap Chunk.words =
            before.reverse.flatten ++ (chunk :: taken).flatMap Chunk.words := by
          simp
        rw [hwords] at hgoes hends
        refine ⟨chunk :: taken, missed, ending, armed ++ (steps ++ steps'), after', ?_, ?_,
          hends.cons hopen, List.forall_mem_cons.2 ⟨hlength, hlengths⟩⟩
        · refine harm.bind (htake.bind ?_)
          change (ite (Word.endsLayer chunk.last = true) _ _ : Proc Link.io Reception).Goes _ _ _ _
          rw [if_neg (by rw [hopen]; decide)]
          exact hgoes
        · rw [loads_append, loads_append, harmed.loads_eq, hloads, hloads', List.flatMap_cons,
            List.append_assoc, List.nil_append]
      · have hwords : (chunk.words :: before).reverse.flatten =
            before.reverse.flatten ++ [chunk].flatMap Chunk.words := by
          simp
        refine ⟨[chunk], [], .complete _, armed ++ (steps ++ []), after, ?_, ?_,
          .complete (List.nil_append _).symm nofun hopen, List.forall_mem_singleton.2 hlength⟩
        · refine harm.bind (htake.bind ?_)
          change (ite (Word.endsLayer chunk.last = true) _ _ : Proc Link.io Reception).Goes _ _ _ _
          rw [if_pos (Bool.not_eq_false _ ▸ hopen), hwords]
          exact Proc.goes_ret _ _
        · rw [loads_append, List.append_nil, harmed.loads_eq, hloads]
          exact (List.append_nil _).symm
    · refine ⟨[], Trace.loads steps, .failed cause, armed ++ (steps ++ []), after, ?_, ?_, ?_,
        nofun⟩
      · refine harm.bind (htake.bind ?_)
        simp only [List.flatMap_nil, List.append_nil]
        exact Proc.goes_ret _ _
      · rw [loads_append, List.append_nil, harmed.loads_eq]
        rfl
      · rcases hfailed with ⟨hloads, hwait⟩ | hmissed
        · rw [hloads]
          exact .unmet (List.forall_mem_nil _) waiting hwait
        · exact .unread (List.forall_mem_nil _) hmissed

/-- What a wait reports as a timeout is that of its channel and its limit. -/
theorem ensures_await_timeout {size : Channel → Nat} (mode : SyncMode) (channel : Channel)
    (limit : Nat) :
    (Completion.await mode channel limit).Ensures size fun _ result => ∀ cause,
      result = .error cause → cause.isTimeout = true → cause = .channelTimeout channel limit := by
  have hio {reply : Except LinkError Unit}
      (hreply : ∀ cause, reply = .error cause → ∃ fault, cause = .io fault) :
      ∀ cause, reply = .error cause → cause.isTimeout = true →
        cause = .channelTimeout channel limit := by
    rintro cause hcause htimeout
    obtain ⟨fault, rfl⟩ := hreply cause hcause
    exact nomatch htimeout
  cases mode with
  | poll =>
    rintro (_ | _) -
    · rintro cause ⟨⟩ -
      rfl
    · exact fun _ _ _ _ => nofun
  | interrupt =>
    rintro (cause | _ | _) hreadable
    · exact hio fun _ hcause => hreadable _ (congrArg _ (Except.error.inj hcause))
    · rintro cause ⟨⟩ -
      rfl
    · rintro (cause | count) hcount
      · exact hio fun _ hcause => hcount _ (congrArg _ (Except.error.inj hcause))
      · exact fun _ _ _ _ reply hreply => hio hreply

end Engine

namespace Loopback

open Engine

variable {e : Engine} {d : Loopback}

/-- A simulated device refuses a load only by its place. -/
theorem isTimeout_of_mem_loads {steps : List (Step Loopback)} {cause : LinkError}
    (hmem : .error cause ∈ Trace.loads steps) : cause.isTimeout = false := by
  obtain ⟨⟨access, d⟩, -, hloaded⟩ := List.mem_filterMap.1 hmem
  cases access with
  | window channel access =>
    cases channel with
    | mm2s => exact nomatch hloaded
    | s2mm =>
      cases access with
      | load start len =>
        have hreply : (d.destination.load start len).map Vector.toList = .error cause :=
          Option.some.inj hloaded
        cases hload : d.destination.load start len with
        | error cause' =>
          rw [hload] at hreply
          rw [← Except.error.inj hreply]
          exact isTimeout_of_load_eq_error hload
        | ok words =>
          rw [hload] at hreply
          exact nomatch hreply
      | _ => exact nomatch hloaded
  | _ => exact nomatch hloaded

/-- A reception from a simulated device copies chunks of the read length until one ends the layer,
    or until it times out, or fails for another reason. -/
theorem exists_copies_receive {g : Geometry} (haccepted : e.Accepted g) (d : Loopback) :
    let program := e.receive d.chunkBound []
    let reception := (d.run program).1
    ∃ (taken : List Chunk) (missed : List (Except LinkError (List UInt64))),
      reception.buffer = taken.flatMap Chunk.words ∧
      Trace.loads (program.trace d) = taken.flatMap Chunk.loads ++ missed ∧
      (∀ chunk ∈ taken, chunk.words.length = e.readLength / 8) ∧
      ((∃ before chunk, taken = before ++ [chunk] ∧ (∀ other ∈ before, other.Open) ∧
          ¬chunk.Open ∧ missed = [] ∧ reception.ending = .complete (8 * reception.buffer.length)) ∨
        (∀ chunk ∈ taken, chunk.Open) ∧ ∃ cause, reception.ending = .failed cause ∧
          (cause.isTimeout = true → missed = [] ∧ cause = .channelTimeout .s2mm e.limit)) := by
  intro program reception
  obtain ⟨taken, missed, ending, steps, after, hgoes, hloads, hends, hlengths⟩ :=
    exists_copies_takeFrom e [] d.chunkBound .a [] d
  simp only [List.reverse_nil, List.flatten_nil, List.nil_append] at hgoes hends
  have hreception : reception = ⟨taken.flatMap Chunk.words, ending⟩ :=
    congrArg Prod.fst hgoes.run_eq
  have hlength : e.readLength / 8 = e.destination.halfWords := by
    rw [← haccepted.chunk]
    exact Nat.mul_div_cancel _ (by decide)
  have hchunk : 0 < (UInt32.ofNat e.chunkBytes).toNat / wordBytes := by
    rw [Layout.toNat_ofNat_of_le haccepted.chunk_le, chunkBytes,
      Nat.mul_div_cancel _ (by decide)]
    exact haccepted.destination.positive
  have hfinished : reception.ending ≠ .unfinished := ending_receive_ne_unfinished hchunk []
  refine ⟨taken, missed, by rw [hreception], ?_, fun chunk htaken => ?_, ?_⟩
  · rw [← hloads]
    exact congrArg Trace.loads hgoes.trace_eq
  · rw [hlength]
    exact hlengths chunk htaken
  rw [hreception] at hfinished ⊢
  cases hends with
  | @complete before chunk htaken hbefore hlast =>
    exact .inl ⟨before, chunk, htaken, hbefore, hlast, rfl, by rw [Nat.mul_comm 8]; rfl⟩
  | @unmet hopen link cause hwait =>
    have htimeout := (ensures_await_timeout e.mode .s2mm e.limit).run lawful cause hwait
    exact .inr ⟨hopen, cause, rfl, fun hcause => ⟨rfl, htimeout hcause⟩⟩
  | @unread hopen _ cause hmissed =>
    have hother : cause.isTimeout = false := by
      have hmem : .error cause ∈ Trace.loads steps := hloads ▸ List.mem_append_right _ hmissed
      exact isTimeout_of_mem_loads hmem
    exact .inr ⟨hopen, cause, rfl, fun hcause => by rw [hother] at hcause; exact nomatch hcause⟩
  | unfinished hopen => exact absurd rfl hfinished

end Loopback

end DmaLink
