import DmaLink.Proofs.Engine.Intents

namespace DmaLink

/-- What so many of a row of `count` leave that go through, one behind the other, and, unless these
    are all, what the next leaves that does not. -/
def inTurn {α : Type} (finished count : Nat) (through stopped : Nat → List α) : List α :=
  (List.range finished).flatMap through ++ if finished = count then [] else stopped finished

theorem inTurn_succ {α : Type} (finished count : Nat) (through stopped : Nat → List α) :
    inTurn (finished + 1) (count + 1) through stopped =
      through 0 ++
        inTurn finished count (fun i => through (i + 1)) fun i => stopped (i + 1) := by
  simp only [inTurn, List.range_succ_eq_map, List.flatMap_cons, List.flatMap_map,
    List.append_assoc, Nat.add_right_cancel_iff, Nat.succ_eq_add_one]

/-- What is read off a row taken in turn is read off each entry in turn. -/
theorem flatMap_inTurn {α β : Type} (finished count : Nat) (through stopped : Nat → List α)
    (f : α → List β) :
    (inTurn finished count through stopped).flatMap f =
      inTurn finished count (fun i => (through i).flatMap f) fun i => (stopped i).flatMap f := by
  rw [inTurn, List.flatMap_append, List.flatMap_assoc, inTurn]
  congr 1
  split <;> rfl

/-- An access of a link and the state that it is made in. -/
structure Step (σ : Type) where
  access : Link.Access
  link : σ

/-- The register that is written, and the number that it is given. -/
def RegisterWrite.number (write : RegisterWrite) : Nat × Nat := (write.offset, write.value.toNat)

/-- The registers that an access writes, with the number that each is given. -/
def Link.Access.written (access : Link.Access) : List (Nat × Nat) :=
  access.writes.map RegisterWrite.number

variable {α β σ : Type}

section Steps

variable [Device σ]

/-- What a wait for the status of a channel came to, if the step is one. -/
def Step.waited? : Step σ → Option Bool
  | ⟨.pollDone channel limit, link⟩ => some (Device.answer (.pollDone channel limit) link).1
  | _ => none

/-- What a load from the destination window gave, if the step is one. -/
def Step.loaded? : Step σ → Option (Except LinkError (List UInt64))
  | ⟨.window .s2mm (.load start len), link⟩ =>
    let reply : Except LinkError (Vector UInt64 len) :=
      (Device.answer (.window .s2mm (.load start len)) link).1
    some (reply.map Vector.toList)
  | _ => none

end Steps

namespace Trace

/-- The accesses that were made, in order. -/
def accesses (trace : List (Step σ)) : List Link.Access := trace.map Step.access

/-- What the waits for a status came to, in order. -/
def waits [Device σ] (trace : List (Step σ)) : List Bool := trace.filterMap Step.waited?

/-- What was loaded from the destination window, in order. -/
def loads [Device σ] (trace : List (Step σ)) : List (Except LinkError (List UInt64)) :=
  trace.filterMap Step.loaded?

/-- The registers that were written, in order, with the number that each was given. -/
def written (trace : List (Step σ)) : List (Nat × Nat) :=
  (accesses trace).flatMap Link.Access.written

/-- For each length written to the sending channel, the state in which the source window was first
    stored to since the length before it, and the state in which the length was written. `begun` is
    the first of the two if it has come already. -/
def stagings (begun : Option σ) : List (Step σ) → List (σ × σ)
  | [] => []
  | ⟨.window .mm2s (.store _ _), link⟩ :: rest => stagings (begun.or (some link)) rest
  | ⟨.writeRegister offset _, link⟩ :: rest =>
    if offset = Channel.mm2s.length then (begun.getD link, link) :: stagings none rest
    else stagings begun rest
  | _ :: rest => stagings begun rest

/-- What is to be seen in a trace in whose end no burst is being staged. -/
structure Shows [Device σ] (trace : List (Step σ)) (made : List Link.Access) (waited : List Bool)
    (loaded : List (Except LinkError (List UInt64))) (staged : List (σ × σ)) : Prop where
  accesses_eq : accesses trace = made
  waits_eq : waits trace = waited
  loads_eq : loads trace = loaded
  stagings_append : ∀ rest, stagings none (trace ++ rest) = staged ++ stagings none rest

variable [Device σ] {trace trace' : List (Step σ)} {made made' : List Link.Access}
  {waited waited' : List Bool} {loaded loaded' : List (Except LinkError (List UInt64))}
  {staged staged' : List (σ × σ)}

theorem shows_nil : Shows ([] : List (Step σ)) [] [] [] [] := ⟨rfl, rfl, rfl, fun _ => rfl⟩

theorem Shows.append (hfirst : Shows trace made waited loaded staged)
    (hsecond : Shows trace' made' waited' loaded' staged') :
    Shows (trace ++ trace') (made ++ made') (waited ++ waited') (loaded ++ loaded')
      (staged ++ staged') where
  accesses_eq := by
    rw [← hfirst.accesses_eq, ← hsecond.accesses_eq]
    exact List.map_append
  waits_eq := by
    rw [← hfirst.waits_eq, ← hsecond.waits_eq]
    exact List.filterMap_append
  loads_eq := by
    rw [← hfirst.loads_eq, ← hsecond.loads_eq]
    exact List.filterMap_append
  stagings_append rest := by
    rw [List.append_assoc, hfirst.stagings_append, hsecond.stagings_append, List.append_assoc]

theorem Shows.stagings_eq (hshows : Shows trace made waited loaded staged) :
    stagings none trace = staged := by
  have hall := hshows.stagings_append []
  rwa [List.append_nil, stagings, List.append_nil] at hall

theorem Shows.written_eq (hshows : Shows trace made waited loaded staged) :
    written trace = made.flatMap Link.Access.written := by
  rw [written, hshows.accesses_eq]

end Trace

namespace Proc

variable [Device σ]

/-- The accesses of a program when it is run on a device, in order. -/
def trace : Proc Link.io α → σ → List (Step σ)
  | .ret _, _ => []
  | .act access next, link =>
    ⟨access, link⟩ :: trace (next (Device.answer access link).1) (Device.answer access link).2

/-- The registers that a trace shows as written are those that the program writes. -/
theorem written_trace (p : Proc Link.io α) (link : σ) :
    Trace.written (p.trace link) = (p.writes link).map RegisterWrite.number := by
  induction p generalizing link with
  | ret result => rfl
  | act access next ih =>
    rw [writes, List.map_append]
    exact congrArg (Link.Access.written access ++ ·) (ih _ _)

/-- A program that leaves this trace on a device, and ends with this result in this state. -/
structure Goes (p : Proc Link.io α) (link : σ) (trace : List (Step σ)) (result : α) (after : σ) :
    Prop where
  trace_eq : p.trace link = trace
  run_eq : p.run Device.answer link = (result, after)

variable {p : Proc Link.io α} {f : α → Proc Link.io β} {link after after' : σ}
  {first second : List (Step σ)} {result : α} {result' : β}

theorem goes_ret (result : α) (link : σ) : (ret result : Proc Link.io α).Goes link [] result link :=
  ⟨rfl, rfl⟩

theorem goes_writeRegister (offset : Nat) (value : UInt32) (link : σ) :
    (writeRegister offset value).Goes link [⟨.writeRegister offset value, link⟩] ()
      (Device.answer (.writeRegister offset value) link).2 := ⟨rfl, rfl⟩

/-- A program that goes on after another leaves its trace behind that of the other. -/
theorem Goes.bind (hp : p.Goes link first result after)
    (hf : (f result).Goes after second result' after') :
    (p >>= f).Goes link (first ++ second) result' after' := by
  obtain ⟨rfl, hrun⟩ := hp
  refine ⟨?_, (run_bind_of_eq hrun).trans hf.run_eq⟩
  rw [← hf.trace_eq]
  clear hf
  induction p generalizing link with
  | ret value =>
    obtain ⟨rfl, rfl⟩ := Prod.mk.inj hrun
    rfl
  | act access next ih => exact congrArg (⟨access, link⟩ :: ·) (ih _ hrun)

theorem goes_self (p : Proc Link.io α) (link : σ) :
    p.Goes link (p.trace link) (p.run Device.answer link).1 (p.run Device.answer link).2 :=
  ⟨rfl, rfl⟩

/-- A program that goes on after another goes as the two do. -/
theorem Goes.exists_of_bind {all : List (Step σ)} (hall : (p >>= f).Goes link all result' after') :
    ∃ first between result second, p.Goes link first result between ∧
      (f result).Goes between second result' after' ∧ all = first ++ second := by
  have hp := goes_self p link
  have hf := goes_self (f (p.run Device.answer link).1) (p.run Device.answer link).2
  obtain ⟨htrace, hrun⟩ := hp.bind hf
  obtain ⟨hresult, hafter⟩ := Prod.mk.inj (hrun.symm.trans hall.run_eq)
  rw [hresult, hafter] at hf
  exact ⟨_, _, _, _, hp, hf, hall.trace_eq.symm.trans htrace⟩

/-- A program whose result is changed goes through the same trace. -/
theorem Goes.map (hp : p.Goes link first result after) (g : α → β) :
    (p >>= fun result => ret (g result)).Goes link first (g result) after := by
  have hbound := hp.bind (f := fun result => ret (g result)) (goes_ret (g result) after)
  rwa [List.append_nil] at hbound

/-- A program that begins with an access goes on as it does after the reply. -/
theorem Goes.perform_bind {access : Link.Access} {next : access.Reply → Proc Link.io β}
    {reply : access.Reply} (hreply : (Device.answer access link).1 = reply)
    (hnext : (next reply).Goes (Device.answer access link).2 second result' after') :
    (perform (I := Link.io) access >>= next).Goes link (⟨access, link⟩ :: second) result'
      after' := by
  subst hreply
  exact ⟨congrArg (List.cons (Step.mk access link)) hnext.trace_eq, hnext.run_eq⟩

theorem Goes.onWindow_bind {channel : Channel} {access : Window.Access}
    {next : access.Reply → Proc Link.io β} {reply : access.Reply}
    (hreply : (Device.answer (.window channel access) link).1 = reply)
    (hnext : (next reply).Goes (Device.answer (.window channel access) link).2 second result'
      after') :
    (onWindow channel (perform (I := Window.io) access) >>= next).Goes link
      (⟨.window channel access, link⟩ :: second) result' after' :=
  Goes.perform_bind hreply hnext

end Proc

namespace Completion

/-- The accesses that acknowledge a burst. -/
def acknowledging (channel : Channel) : List Link.Access :=
  [.writeRegister channel.status Status.idle,
    .writeRegister channel.status Status.completionInterrupt]

/-- The accesses of a wait by polling. -/
def polling (channel : Channel) (limit : Nat) (finished : Bool) : List Link.Access :=
  .pollDone channel limit :: if finished then acknowledging channel else []

/-- A wait writes its channel's status register twice if the burst is finished: the idle bit, and
    then the completion interrupt. -/
theorem written_polling (channel : Channel) (limit : Nat) (finished : Bool) :
    (polling channel limit finished).flatMap Link.Access.written =
      if finished then [(channel.status, 0x0002), (channel.status, 0x1000)] else [] := by
  cases finished <;> rfl

/-- A wait by polling looks once, and acknowledges the burst if it is finished. -/
theorem exists_goes_poll [Device σ] (channel : Channel) (limit : Nat) (link : σ) :
    ∃ finished trace after,
      (poll channel limit).Goes link trace
        (if finished then .ok () else .error (.channelTimeout channel limit)) after ∧
        Trace.Shows trace (polling channel limit finished) [finished] [] [] := by
  have hstatus : channel.status ≠ Channel.mm2s.length := by
    cases channel <;> decide
  cases hfinished : (Device.answer (.pollDone channel limit) link).1 with
  | false =>
    refine ⟨false, [⟨.pollDone channel limit, link⟩], _,
      Proc.Goes.perform_bind hfinished (Proc.goes_ret _ _), rfl, ?_, rfl, fun _ => rfl⟩
    exact congrArg (fun reply : Bool => [reply]) hfinished
  | true =>
    refine ⟨true, _, _, Proc.Goes.perform_bind hfinished ⟨rfl, rfl⟩, rfl, ?_, rfl, ?_⟩
    · exact congrArg (fun reply : Bool => [reply]) hfinished
    · intro rest
      exact (if_neg hstatus).trans (if_neg hstatus)

end Completion

/-- The half that is in turn after so many others. -/
def Half.after (half : Half) : Nat → Half
  | 0 => half
  | count + 1 => half.other.after count

/-- The halves alternate, whichever comes first. -/
theorem Split.offset_after (s : Split) (count : Nat) :
    s.offset (Half.a.after count) = count % 2 * s.halfWords ∧
      s.offset (Half.b.after count) = (count + 1) % 2 * s.halfWords := by
  induction count with
  | zero => simp [Half.after, offset]
  | succ count ih =>
    refine ⟨ih.2, ?_⟩
    rw [Nat.add_assoc, Nat.add_mod_right]
    exact ih.1

namespace Engine

/-- The accesses that launch a transfer. -/
def launching (channel : Channel) (address : UInt32) (bytes : Nat) : List Link.Access :=
  [.writeRegister channel.address address, .writeRegister channel.length (UInt32.ofNat bytes)]

/-- A transfer of words from the start of a half is launched by their address and their length in
    bytes. -/
theorem written_launching {s : Split} {base : UInt32} {size : Nat} (hfits : s.Fits base size)
    (channel : Channel) (half : Half) {words : Nat}
    (hshort : words * wordBytes ≤ Layout.maxBurstBytes) :
    (launching channel (s.address half) (words * wordBytes)).flatMap Link.Access.written =
      [(channel.address, base.toNat + 8 * s.offset half), (channel.length, 8 * words)] := by
  have hwritten : (launching channel (s.address half) (words * wordBytes)).flatMap
      Link.Access.written = [(channel.address, (s.address half).toNat),
        (channel.length, (UInt32.ofNat (words * wordBytes)).toNat)] := rfl
  rw [hwritten, hfits.toNat_address, Layout.toNat_ofNat_of_le hshort, wordBytes, Nat.mul_comm 8,
    Nat.mul_comm 8]

/-- The state of a link in which a length is written to it, right after the address. -/
def addressed [Device σ] (channel : Channel) (address : UInt32) (link : σ) : σ :=
  (Device.answer (.writeRegister channel.address address) link).2

/-- A launch is two writes, the address first. -/
theorem exists_goes_launch [Device σ] (channel : Channel) (address : UInt32) (bytes : Nat)
    (link : σ) :
    ∃ after, (launch channel address bytes).Goes link
      [⟨.writeRegister channel.address address, link⟩,
        ⟨.writeRegister channel.length (UInt32.ofNat bytes), addressed channel address link⟩]
      () after := ⟨_, rfl, rfl⟩

/-- An engine that was created in a mode for a geometry, whatever was asked of it since. -/
structure Created (e : Engine) (mode : SyncMode) (g : Geometry) : Prop where
  accepted : e.Accepted g
  mode_eq : e.mode = mode
  burst_eq : e.burstWords = g.burstWords

variable {e : Engine} {mode : SyncMode} {g : Geometry}

theorem created_create (hcreate : create mode g = .ok e) : e.Created mode g where
  accepted := accepted_create hcreate
  mode_eq := (create_eq_ok hcreate).1
  burst_eq := (create_eq_ok hcreate).2.1

/-- An operation leaves an engine as it was created, but for its read length and limit. -/
theorem Created.perform (hcreated : e.Created mode g) (bound : Nat) (operation : Operation) :
    (e.perform bound operation).1.Created mode g where
  accepted := hcreated.accepted.perform bound operation
  mode_eq := (e.perform_mode bound operation).trans hcreated.mode_eq
  burst_eq := (e.perform_burstWords bound operation).trans hcreated.burst_eq

end Engine

variable [Device σ]

/-- What every access keeps is so after a run. -/
theorem Proc.run_of_answer {motive : σ → Prop}
    (hanswer : ∀ access link, motive link → motive (Device.answer access link).2)
    (p : Proc Link.io α) {link : σ} (hlink : motive link) :
    motive (p.run Device.answer link).2 := by
  induction p generalizing link with
  | ret result => exact hlink
  | act access next ih => exact ih _ (hanswer access link hlink)

/-- What every operation keeps is so after a row of operations. -/
theorem Session.performAll_of_perform {motive : Session σ → Prop}
    (hperform : ∀ s operation, motive s → motive (s.perform operation).2) {s : Session σ}
    (hs : motive s) (operations : List Engine.Operation) :
    motive (s.performAll operations).2 := by
  induction operations generalizing s with
  | nil => exact hs
  | cons operation rest ih => exact ih (hperform s operation hs)

/-- Whatever is done in a session, its engine is still the one that was created. -/
theorem Session.created_performAll {s : Session σ} {mode : SyncMode} {g : Geometry}
    (hcreated : s.engine.Created mode g) (operations : List Engine.Operation) :
    (s.performAll operations).2.engine.Created mode g :=
  performAll_of_perform (motive := fun s => s.engine.Created mode g)
    (fun _ operation h => h.perform _ operation) hcreated operations

end DmaLink
