import DmaLink.Proofs.Queue.Stopped

namespace DmaLink.Queue

variable {ι σ : Type}

/-- A stage of a read that does not start the queue again. -/
def Stage.isReading : Stage → Bool
  | .clear | .asking | .reading _ => true
  | .held purpose _ _ => purpose.isInspect
  | _ => false

/-- How many registers a client may still write before it finds another finished chunk. -/
def Stage.left : Stage → Nat
  | .reading left => left
  | _ => 0

theorem Stage.Within.isReading {stage : Stage} {call : Option Call} (hwithin : stage.Within call)
    (hcall : call.all (·.isPassive) = true) (hcalm : stage.isCalm = true) :
    stage.isReading = true ∧ stage.left ≤ 4 := by
  cases hwithin with
  | reading hleft => exact ⟨rfl, hleft⟩
  | recovering => exact nomatch hcalm
  | clear => exact ⟨rfl, Nat.zero_le _⟩
  | asking => exact ⟨rfl, Nat.zero_le _⟩
  | inspecting => exact ⟨rfl, Nat.zero_le _⟩
  | _ => exact nomatch hcall

/-- Who only reads is calm. -/
theorem Stage.isCalm_of_isReading {stage : Stage} (hreading : stage.isReading = true) :
    stage.isCalm = true := by
  cases stage with
  | held purpose joined progress => cases purpose <;> first | rfl | exact nomatch hreading
  | _ => first | rfl | exact nomatch hreading

namespace Stage.Moves

variable {stage stage' : Stage} {access : Access} {reply : access.Reply}

/-- In a queue that does not run who only reads goes on to do so. -/
theorem isReading {σ : Type} [Device σ] {b : Bench σ}
    (hmove : stage.Moves access (Bench.answer access b).1 stage')
    (hreading : stage.isReading = true)
    (hstopped : b.queue.running = false) : stage'.isReading = true := by
  generalize hreply : (Bench.answer access b).1 = reply at hmove
  cases hmove with
  | ask running => cases running <;> rfl
  | find running =>
    obtain rfl : b.queue.running = running := hreply
    rw [hstopped]
    rfl
  | _ => first | rfl | exact hreading | exact nomatch hreading

/-- A read of a queue that does not run is over at once. -/
theorem eq_clear {σ : Type} [Device σ] {b : Bench σ}
    (hmove : Stage.asking.Moves access (Bench.answer access b).1 stage')
    (hstopped : b.queue.running = false) : stage' = .clear := by
  generalize hreply : (Bench.answer access b).1 = reply at hmove
  cases hmove with
  | ask running =>
    obtain rfl : b.queue.running = running := hreply
    rw [hstopped]
    rfl

/-- Who only reads writes to the receiving channel, and not to its control register. -/
theorem offset_of_isReading {access : Link.Access} {reply : Access.Reply (.link access)}
    (hmove : stage.Moves (.link access) reply stage') (hreading : stage.isReading = true)
    {write : RegisterWrite} (hwrite : write ∈ access.writes) :
    write.offset ∈ [Channel.s2mm.status, Channel.s2mm.address, Channel.s2mm.length] := by
  cases hmove with
  | read hdrains => exact offset_of_drains hdrains hwrite
  | fall joined hlowers hfalls => cases hlowers <;> exact nomatch hreading
  | _ => exact nomatch hreading

/-- A client that does not begin to read writes what it may write, and four registers more for a
    finished chunk that it finds. -/
theorem spends {ι : Type} [DecidableEq ι] (hmove : stage.Moves access reply stage')
    (hreading : stage.isReading = true) (hasks : stage = .asking → stage' = .clear) (client : ι) :
    ((Event.access client access reply).writesBy client).length + stage'.left ≤
      stage.left + 4 * ((Event.access client access reply).isFindBy client).toNat := by
  cases hmove with
  | ask running =>
    rw [hasks rfl]
    exact Nat.zero_le _
  | read hdrains =>
    cases hdrains with
    | look limit finished =>
      cases finished <;> simp [Event.writesBy, Event.isFindBy, left, Link.Access.writes]
    | take count => simp [Event.writesBy, Event.isFindBy, left, Link.Access.writes]
    | write left hoffset value =>
      simp [Event.writesBy, Event.isFindBy, Stage.left, Link.Access.writes]
      omega
    | _ => simp [Event.writesBy, Event.isFindBy, left, Link.Access.writes]
  | fall joined hlowers hfalls => cases hlowers <;> exact nomatch hreading
  | reset channel => exact nomatch hreading
  | launch hlaunches => exact nomatch hreading
  | sample left stops => exact Nat.le_of_eq (Nat.zero_add _)
  | borrow left engine => exact Nat.le_of_eq (Nat.zero_add _)
  | find running => cases running <;> exact Nat.zero_le _
  | close running => exact nomatch hreading
  | _ => exact Nat.zero_le _

end Stage.Moves

namespace System

variable {s s' : System ι σ} {stages stages' : ι → Stage} {duty duty' : Progress} {owner : ι}
  {event : Event ι} {events : List (Event ι)} [DecidableEq ι] [Device σ]

/-- The queue is stopped, and nobody but reads is left. -/
structure Winding (s : System ι σ) (stages : ι → Stage) : Prop where
  stopped : s.Stopped
  reading : ∀ client, (stages client).isReading = true

/-- While a queue winds down it goes on to. -/
theorem Winding.advance (hwinding : s.Winding stages)
    (hadvance : Advance s stages duty event s' stages' duty')
    (hcalls : event.allCalls (·.isPassive) = true) : s'.Winding stages' := by
  refine ⟨hadvance.stopped (fun client => Stage.isCalm_of_isReading (hwinding.reading client))
    hwinding.stopped, ?_⟩
  refine hadvance.forall_stages (p := fun stage => stage.isReading = true) hwinding.reading rfl ?_
    fun client access stage hmove =>
      hmove.isReading (hwinding.reading client) hwinding.stopped.running
  rintro client call rfl
  cases call <;> first | rfl | exact nomatch hcalls

/-- What a client of a stopped queue writes is what is left of the chunk that it takes, and four
    registers for each finished chunk that it finds. -/
theorem Winding.spends (hwinding : s.Winding stages)
    (hadvance : Advance s stages duty event s' stages' duty') (client : ι) :
    (event.writesBy client).length + (stages' client).left ≤
      (stages client).left + 4 * (event.isFindBy client).toNat := by
  have hsilent {other : ι} {stage : Stage} (hwrites : event.writesBy client = [])
      (hstage : stage.left = 0) :
      (event.writesBy client).length + (Function.update stages other stage client).left ≤
        (stages client).left + 4 * (event.isFindBy client).toNat := by
    rw [hwrites]
    by_cases hsame : client = other
    · rw [hsame, Function.update_self, hstage]
      exact Nat.zero_le _
    · rw [Function.update_of_ne hsame, List.length_nil]
      omega
  have hstays (hwrites : event.writesBy client = []) :
      (event.writesBy client).length + (stages client).left ≤
        (stages client).left + 4 * (event.isFindBy client).toNat := by
    rw [hwrites, List.length_nil]
    omega
  cases hadvance with
  | call call hclear => exact hsilent rfl (by cases call <;> rfl)
  | @access other access stage bound program hready hmove =>
    by_cases hsame : client = other
    · subst hsame
      rw [Function.update_self]
      refine hmove.spends (hwinding.reading client) (fun hasks => ?_) client
      rw [hasks] at hmove
      exact hmove.eq_clear hwinding.stopped.running
    · rw [Function.update_of_ne hsame]
      apply hstays
      cases access with
      | link access => exact if_neg (Ne.symm hsame)
      | _ => rfl
  | finish hout => exact hsilent rfl rfl
  | _ => exact hstays rfl

/-- While a queue winds down no worker is at work. -/
theorem Winding.not_work (hwinding : s.Winding stages)
    (hadvance : Advance s stages duty event s' stages' duty') (access : Access)
    (reply : access.Reply) : event ≠ .work access reply := by
  rintro rfl
  cases hadvance with
  | work program hworker hmove => exact hworker hwinding.stopped.worker

/-- While a queue winds down only readers write. -/
theorem Winding.offset (hwinding : s.Winding stages)
    (hadvance : Advance s stages duty event s' stages' duty') {write : RegisterWrite}
    (hwrite : write ∈ event.writes) :
    write.offset ∈ [Channel.s2mm.status, Channel.s2mm.address, Channel.s2mm.length] := by
  cases hadvance with
  | @access client access stage bound program hready hmove =>
    cases access with
    | link access => exact hmove.offset_of_isReading (hwinding.reading client) hwrite
    | _ => exact nomatch hwrite
  | work program hworker hmove => exact absurd hwinding.stopped.worker hworker
  | _ => exact nomatch hwrite

/-- A queue that winds down does so along any run. -/
theorem Winding.run (hwinding : s.Winding stages) (hstaged : s.Staged stages duty)
    (hrun : Run s events s') (hcalls : ∀ event ∈ events, event.allCalls (·.isPassive) = true) :
    ∃ stages' duty', s'.Staged stages' duty' ∧ s'.Winding stages' ∧
      (∀ event ∈ events, (∀ access reply, event ≠ .work access reply) ∧
        ∀ write ∈ event.writes,
          write.offset ∈ [Channel.s2mm.status, Channel.s2mm.address, Channel.s2mm.length]) ∧
      ∀ client, (events.flatMap (Event.writesBy client)).length + (stages' client).left ≤
        (stages client).left + 4 * events.countP (Event.isFindBy client) := by
  induction hrun with
  | start =>
    exact ⟨stages, duty, hstaged, hwinding, fun _ hnone => (List.not_mem_nil hnone).elim,
      fun client => Nat.le_of_eq (Nat.zero_add _)⟩
  | @step events s' s'' event hrun hstep ih =>
    obtain ⟨stages', duty', hstaged', hwinding', hwrites, hspends⟩ :=
      ih fun event hevent => hcalls event (List.mem_append_left _ hevent)
    obtain ⟨stages'', duty'', hadvance, hstaged''⟩ := hstaged'.step hstep
    have hcall := hcalls event (List.mem_append_right _ (List.mem_singleton_self _))
    refine ⟨stages'', duty'', hstaged'', hwinding'.advance hadvance hcall, fun other hother => ?_,
      fun client => ?_⟩
    · rcases List.mem_append.1 hother with hbefore | hlast
      · exact hwrites other hbefore
      · rw [List.mem_singleton.1 hlast]
        exact ⟨hwinding'.not_work hadvance, fun _ => hwinding'.offset hadvance⟩
    · have hsofar := hspends client
      have hlast := hwinding'.spends hadvance client
      have hcount : [event].countP (Event.isFindBy client) = (event.isFindBy client).toNat := by
        cases hfind : event.isFindBy client <;> simp [hfind]
      rw [List.flatMap_append, List.length_append, List.flatMap_singleton, List.countP_append,
        hcount]
      omega

/-- A client has nothing to write before it finds a finished chunk: it is in no call, or about to
    look for one. -/
def Looks (s : System ι σ) (client : ι) : Prop :=
  s.clients client = none ∨ ∃ access next, s.clients client = some (.act (.link access) next) ∧
    ∃ limit, access = .pollDone .s2mm limit ∨ access = .awaitInterrupt .s2mm limit

omit [DecidableEq ι] in
/-- A client that only looks has no write left to make. -/
theorem Staged.left_of_looks (hstaged : s.Staged stages duty) {client : ι}
    (hlooks : s.Looks client) : (stages client).left = 0 := by
  rcases hlooks with hidle | ⟨access, next, hnext, limit, haccess⟩
  · rw [hstaged.clear_of_none hidle]
    rfl
  · have hclient := hstaged.clients client
    rw [hnext] at hclient
    obtain ⟨stage, hmove, -⟩ := hclient (Bench.answer (.link access) s.bench).1
    generalize stages client = before at hmove
    generalize (Bench.answer (.link access) s.bench).1 = reply at hmove
    rcases haccess with rfl | rfl
    · cases hmove with
      | read hdrains =>
        cases hdrains
        rfl
      | _ => rfl
    · cases hmove with
      | read hdrains =>
        cases hdrains
        rfl
      | _ => rfl

/-- A stop returns once the worker is over, and does not wait for those who read. From then on the
    worker does nothing, and registers are written by reads alone, to acknowledge a chunk and to arm
    the next: four for each finished chunk that a read finds, and the rest of what it had begun to
    write when the stop returned. So nothing is written any more for a client that was in no call or
    about to look for a finished chunk, as long as it finds none. -/
theorem writes_after_stop {engine : Engine} {link : σ} {line : ResetLine.Probe}
    {before during after : List (Event ι)}
    (hrun : Run (create engine link line)
      (before ++ .call owner .stop :: (during ++ [.finish owner])) s)
    (hafter : Run s after s')
    (hbefore : ∀ client, (underWay client before).all (·.isPassive) = true)
    (hcalls : ∀ event ∈ during ++ after, event.allCalls (·.isPassive) = true) :
    (∀ event ∈ after, (∀ access reply, event ≠ .work access reply) ∧
      ∀ write ∈ event.writes,
        write.offset ∈ [Channel.s2mm.status, Channel.s2mm.address, Channel.s2mm.length]) ∧
    ∀ client, ∃ left ≤ 4, (s.Looks client → left = 0) ∧
      (after.flatMap (Event.writesBy client)).length ≤
        left + 4 * after.countP (Event.isFindBy client) := by
  have hcalls' (event : Event ι) (hevent : event ∈ during) :=
    Event.allCalls_mono (fun _ => Call.not_isRevival) (hcalls event (List.mem_append_left _ hevent))
  obtain ⟨s₁, hrun₁, hrun⟩ := hrun.exists_of_append
  obtain ⟨s₂, hcall, hrun⟩ := hrun.exists_of_cons
  obtain ⟨s₃, hrun₃, hrun⟩ := hrun.exists_of_append
  obtain ⟨s₄, hfinish, hnil⟩ := hrun.exists_of_cons
  obtain rfl := hnil.eq_of_nil
  obtain ⟨stages₁, duty₁, hbooked⟩ := hrun₁.booked
  obtain ⟨stages₂, duty₂, hbooked₂, hwaiting⟩ := hbooked.waiting
    (fun client => all_underWay_mono (fun _ => Call.not_isRevival) (hbefore client)) hcall
  obtain ⟨stages₃, duty₃, hbooked₃, hstops⟩ := stops_run (.inl hwaiting) hbooked₂ hrun₃ hcalls'
  obtain ⟨stages, duty, hbooked₄, hstopped, hquelled⟩ := hbooked₃.quelled hstops hfinish
  have hreading (client : ι) : (stages client).isReading = true ∧ (stages client).left ≤ 4 := by
    refine (hbooked₄.within client).isReading ?_ (hquelled.calm client)
    by_cases hsame : client = owner
    · rw [underWay_snoc, hsame, Event.callOf, if_pos rfl]
      rfl
    · rw [List.append_assoc, List.append_assoc]
      refine all_underWay (hbefore client) fun call hcall => ?_
      simp only [List.cons_append, List.nil_append, List.mem_cons, List.mem_append,
        List.not_mem_nil, Event.call.injEq, hsame, false_and, or_false, reduceCtorEq,
        false_or] at hcall
      exact hcalls _ (List.mem_append_left _ hcall)
  obtain ⟨stages', duty', -, -, hwrites, hspends⟩ :=
    Winding.run ⟨hstopped, fun client => (hreading client).1⟩ hbooked₄.staged hafter
      fun event hevent => hcalls event (List.mem_append_right _ hevent)
  refine ⟨hwrites, fun client => ⟨(stages client).left, (hreading client).2,
    hbooked₄.staged.left_of_looks, ?_⟩⟩
  exact Nat.le_trans (Nat.le_add_right _ _) (hspends client)

/-- A read has seen the queue running when another client stops it, and arms a chunk afterwards. -/
theorem writes_after_stop_arming :
    ∃ before during after s s',
      Run small (before ++ .call false .stop :: (during ++ [.finish false])) s ∧ Run s after s' ∧
      underWay true before = some (.read 1 1 []) ∧
      (after.flatMap (Event.writesBy true)).map RegisterWrite.offset =
        [Channel.s2mm.address, Channel.s2mm.length] ∧
      (∀ event ∈ after, (∀ access reply, event ≠ .work access reply) ∧
        ∀ write ∈ event.writes,
          write.offset ∈ [Channel.s2mm.status, Channel.s2mm.address, Channel.s2mm.length]) ∧
      ∀ client, ∃ left ≤ 4, (s.Looks client → left = 0) ∧
        (after.flatMap (Event.writesBy client)).length ≤
          left + 4 * after.countP (Event.isFindBy client) := by
  have hplayed : (small.playStop false
      (bringUp ++ .call true (.read 1 1 []) :: List.replicate 3 (.client true 0))
      (List.replicate 6 (.client false 0) ++ [.worker, .worker, .client false 0, .client false 0])
      (List.replicate 3 (.client true 0))).map (fun out =>
        (underWay false out.before, underWay true out.before,
          (out.during ++ out.after).all (Event.allCalls (·.isPassive)),
          (out.after.flatMap (Event.writesBy true)).map RegisterWrite.offset)) =
      some (none, some (.read 1 1 []), true, [Channel.s2mm.address, Channel.s2mm.length]) := by
    decide +kernel
  obtain ⟨out, hplay, hout⟩ := Option.map_eq_some_iff.1 hplayed
  simp only [Prod.mk.injEq] at hout
  obtain ⟨hfalse, htrue, hcalls, hwrites⟩ := hout
  obtain ⟨hrun, hlater⟩ := run_of_playStop hplay
  refine ⟨out.before, out.during, out.after, out.returned, out.last, hrun, hlater, htrue, hwrites,
    writes_after_stop hrun hlater (fun client => ?_) (List.all_eq_true.1 hcalls)⟩
  cases client
  · rw [hfalse]
    rfl
  · rw [htrue]
    rfl

end System

end DmaLink.Queue
