import DmaLink.Proofs.Queue.Phases

namespace DmaLink.Queue

variable {ι σ : Type} [DecidableEq ι] [Device σ]

namespace Phase

/-- Whether the client holds the lock. -/
def holds : Phase → Bool
  | .holding _ | .owing => true
  | _ => false

/-- Whether the client holds the lock and has waited for the worker to be over. -/
def joined : Phase → Bool
  | .holding joined => joined
  | .owing => true
  | _ => false

/-- Whether the client has a buffer that is counted and does not wait. -/
def owes : Phase → Bool
  | .counted _ | .owing => true
  | _ => false

/-- The buffer that the client is to put in, if there is one. -/
def offered : Phase → List (List UInt64)
  | .offering buffer => [buffer]
  | .counted buffer => [buffer]
  | _ => []

end Phase

/-- The phases with another one for a client. -/
def setPhase (phases : ι → Phase) (client : ι) (phase : Phase) : ι → Phase :=
  fun other => if other = client then phase else phases other

theorem setPhase_self (phases : ι → Phase) (client : ι) (phase : Phase) :
    setPhase phases client phase client = phase := if_pos rfl

theorem setPhase_of_ne {phases : ι → Phase} {client other : ι} {phase : Phase}
    (hother : other ≠ client) : setPhase phases client phase other = phases other := if_neg hother

theorem setPhase_eq_self (phases : ι → Phase) (client : ι) :
    setPhase phases client (phases client) = phases := by
  funext other
  unfold setPhase
  split
  · next hsame => rw [hsame]
  · rfl

section Lock

/-- At most one client holds the lock, and no worker goes on next to one that has waited for it. -/
structure Locking (phases : ι → Phase) (locked : Bool) (worker : Option (Proc io Unit)) : Prop where
  locked : ∀ client, (phases client).holds = true → locked = true
  single : ∀ client other, (phases client).holds = true → (phases other).holds = true →
    client = other
  joined : ∀ client, (phases client).joined = true → worker = none

variable {phases : ι → Phase} {locked : Bool} {worker : Option (Proc io Unit)} {client : ι}
  {phase : Phase}

/-- Who has joined the worker holds the lock. -/
theorem Phase.holds_of_joined (hjoined : phase.joined = true) : phase.holds = true := by
  cases phase <;> first | rfl | exact nomatch hjoined

omit [DecidableEq ι] in
/-- At most one client holds the lock. -/
theorem Locking.alone (hlocking : Locking phases locked worker)
    (hholds : (phases client).holds = true) {other : ι} (hother : other ≠ client) :
    (phases other).holds = false := by
  rw [Bool.eq_false_iff]
  exact fun hholds' => hother (hlocking.single other client hholds' hholds)

omit [DecidableEq ι] in
/-- While the lock is open nobody holds it. -/
theorem Locking.not_holds (hlocking : Locking phases locked worker) (hopen : locked = false)
    (other : ι) : (phases other).holds = false := by
  rw [Bool.eq_false_iff]
  intro hholds
  rw [hlocking.locked other hholds] at hopen
  exact nomatch hopen

/-- A client goes on while nobody else holds the lock. -/
theorem Locking.set_of_alone (halone : ∀ other, other ≠ client → (phases other).holds = false)
    (hlocked : phase.holds = true → locked = true) (hjoined : phase.joined = true → worker = none) :
    Locking (setPhase phases client phase) locked worker := by
  have hsame {other : ι} (hholds : (setPhase phases client phase other).holds = true) :
      other = client := by
    refine Decidable.byContradiction fun hother => ?_
    rw [setPhase_of_ne hother, halone other hother] at hholds
    exact nomatch hholds
  refine ⟨fun i hi => ?_, fun i j hi hj => (hsame hi).trans (hsame hj).symm, fun i hi => ?_⟩
  · obtain rfl := hsame hi
    rw [setPhase_self] at hi
    exact hlocked hi
  · obtain rfl := hsame (Phase.holds_of_joined hi)
    rw [setPhase_self] at hi
    exact hjoined hi

/-- A client that does not hold the lock leaves the locking as it is. -/
theorem Locking.set_of_not_holds (hlocking : Locking phases locked worker)
    (hphase : phase.holds = false) : Locking (setPhase phases client phase) locked worker := by
  have hother {other : ι} (hholds : (setPhase phases client phase other).holds = true) :
      (phases other).holds = true ∧ setPhase phases client phase other = phases other := by
    by_cases hsame : other = client
    · rw [hsame, setPhase_self, hphase] at hholds
      exact nomatch hholds
    · rw [setPhase_of_ne hsame] at hholds ⊢
      exact ⟨hholds, rfl⟩
  refine ⟨fun i hi => hlocking.locked i (hother hi).1,
    fun i j hi hj => hlocking.single i j (hother hi).1 (hother hj).1, fun i hi => ?_⟩
  rw [(hother (Phase.holds_of_joined hi)).2] at hi
  exact hlocking.joined i hi

/-- A client goes on and holds what it held. -/
theorem Locking.keep (hlocking : Locking phases locked worker)
    (hholds : phase.holds = (phases client).holds)
    (hjoined : phase.joined = (phases client).joined) :
    Locking (setPhase phases client phase) locked worker := by
  have hsame (other : ι) : (setPhase phases client phase other).holds = (phases other).holds ∧
      (setPhase phases client phase other).joined = (phases other).joined := by
    by_cases hother : other = client
    · rw [hother, setPhase_self]
      exact ⟨hholds, hjoined⟩
    · rw [setPhase_of_ne hother]
      exact ⟨rfl, rfl⟩
  refine ⟨fun i hi => ?_, fun i j hi hj => ?_, fun i hi => ?_⟩
  · exact hlocking.locked i ((hsame i).1 ▸ hi)
  · exact hlocking.single i j ((hsame i).1 ▸ hi) ((hsame j).1 ▸ hj)
  · exact hlocking.joined i ((hsame i).2 ▸ hi)

end Lock

section Count

/-- Counted are the buffers that wait, the one of every client that is midway with one, and what
    the worker still owes. -/
def Counting (phases : ι → Phase) (pending waiting owed : Nat) : Prop :=
  ∃ midway : List ι, midway.Nodup ∧ (∀ client, client ∈ midway ↔ (phases client).owes = true) ∧
    pending = waiting + midway.length + owed

variable {phases : ι → Phase} {pending waiting owed pending' waiting' : Nat} {client : ι}
  {phase : Phase}

omit [DecidableEq ι] in
/-- A buffer that a client has counted is counted beside all that wait. -/
theorem Counting.lt (hcounting : Counting phases pending waiting owed)
    (howes : (phases client).owes = true) : waiting + owed < pending := by
  obtain ⟨midway, -, hmem, hpending⟩ := hcounting
  have hlength := List.length_pos_of_mem ((hmem client).2 howes)
  omega

theorem Counting.keep (hcounting : Counting phases pending waiting owed)
    (howes : phase.owes = (phases client).owes) :
    Counting (setPhase phases client phase) pending waiting owed := by
  obtain ⟨midway, hnodup, hmem, hpending⟩ := hcounting
  refine ⟨midway, hnodup, fun other => ?_, hpending⟩
  by_cases hsame : other = client
  · rw [hsame, setPhase_self, howes, hmem]
  · rw [setPhase_of_ne hsame, hmem]

/-- A client that counts a buffer raises the count by one. -/
theorem Counting.enter (hcounting : Counting phases pending waiting owed)
    (hbefore : (phases client).owes = false) (hafter : phase.owes = true)
    (hmore : pending' + waiting = pending + waiting' + 1) :
    Counting (setPhase phases client phase) pending' waiting' owed := by
  obtain ⟨midway, hnodup, hmem, hpending⟩ := hcounting
  have hout : client ∉ midway := by
    rw [hmem, hbefore]
    exact Bool.false_ne_true
  refine ⟨client :: midway, List.nodup_cons.2 ⟨hout, hnodup⟩, fun other => ?_, ?_⟩
  · by_cases hsame : other = client
    · rw [hsame, setPhase_self, hafter]
      exact iff_of_true (List.mem_cons_self ..) rfl
    · rw [setPhase_of_ne hsame, List.mem_cons, hmem]
      exact or_iff_right hsame
  · rw [List.length_cons]
    omega

theorem Counting.leave (hcounting : Counting phases pending waiting owed)
    (hbefore : (phases client).owes = true) (hafter : phase.owes = false)
    (hless : pending' + waiting + 1 = pending + waiting') :
    Counting (setPhase phases client phase) pending' waiting' owed := by
  obtain ⟨midway, hnodup, hmem, hpending⟩ := hcounting
  have hin : client ∈ midway := (hmem client).2 hbefore
  refine ⟨midway.erase client, hnodup.erase client, fun other => ?_, ?_⟩
  · rw [hnodup.mem_erase_iff]
    by_cases hsame : other = client
    · rw [hsame, setPhase_self, hafter]
      exact iff_of_false (fun h => h.1 rfl) Bool.false_ne_true
    · rw [setPhase_of_ne hsame, hmem]
      exact and_iff_right hsame
  · have hlength := List.length_pos_of_mem hin
    rw [List.length_erase_of_mem hin]
    omega

end Count

section Accesses

variable {b : Bench σ}

/-- The parts of a queue that a plain access leaves alone. -/
theorem Access.Plain.answer {access : Access} (hplain : access.Plain) (b : Bench σ) :
    (Bench.answer access b).2.queue.buffers = b.queue.buffers ∧
      (Bench.answer access b).2.queue.pending = b.queue.pending ∧
        (Bench.answer access b).2.queue.dropped = b.queue.dropped ∧
          (Bench.answer access b).2.queue.locked = b.queue.locked := by
  cases hplain <;> exact ⟨rfl, rfl, rfl, rfl⟩

/-- A take gives the oldest buffer, if there is one, and leaves the rest. -/
theorem answer_take (b : Bench σ) : Bench.answer .take b =
    (b.queue.buffers.head?, { b with queue.buffers := b.queue.buffers.tail }) := by
  obtain ⟨queue, link, line⟩ := b
  obtain ⟨engine, buffers⟩ := queue
  cases buffers <;> rfl

theorem waiting_take (b : Bench σ) :
    (Bench.answer .take b).2.queue.buffers = b.queue.buffers.tail :=
  congrArg (fun out => out.2.queue.buffers) (answer_take b)

theorem pending_take (b : Bench σ) : (Bench.answer .take b).2.queue.pending = b.queue.pending :=
  congrArg (fun out => out.2.queue.pending) (answer_take b)

theorem dropped_take (b : Bench σ) : (Bench.answer .take b).2.queue.dropped = b.queue.dropped :=
  congrArg (fun out => out.2.queue.dropped) (answer_take b)

theorem locked_take (b : Bench σ) : (Bench.answer .take b).2.queue.locked = b.queue.locked :=
  congrArg (fun out => out.2.queue.locked) (answer_take b)

/-- The buffer that is taken is the one that has waited longest. -/
theorem waiting_of_take_eq_some {buffer : List UInt64}
    (htake : (Bench.answer .take b).1 = some buffer) :
    b.queue.buffers = buffer :: (Bench.answer .take b).2.queue.buffers := by
  have hhead : b.queue.buffers.head? = some buffer :=
    (congrArg Prod.fst (answer_take b)).symm.trans htake
  obtain ⟨rest, hrest⟩ := List.head?_eq_some_iff.1 hhead
  rw [waiting_take, hrest]
  rfl

/-- Nothing is taken from a queue in which nothing waits. -/
theorem waiting_of_take_eq_none
    (htake : (Bench.answer .take b).1 = (none : Option (List UInt64))) :
    (Bench.answer .take b).2.queue.buffers = b.queue.buffers := by
  have hhead : b.queue.buffers.head? = none :=
    (congrArg Prod.fst (answer_take b)).symm.trans htake
  rw [waiting_take, List.head?_eq_none_iff.1 hhead]
  rfl

/-- An access that leaves the lock alone and starts no worker. -/
def Access.isSteady : Access → Bool
  | .lock | .unlock | .startWorker => false
  | _ => true

/-- A steady access leaves the lock as it is. -/
theorem locked_answer {access : Access} (hsteady : access.isSteady = true) (b : Bench σ) :
    (Bench.answer access b).2.queue.locked = b.queue.locked := by
  cases access with
  | take => exact locked_take b
  | lock => exact nomatch hsteady
  | unlock => exact nomatch hsteady
  | _ => rfl

omit [DecidableEq ι] [Device σ] in
theorem workerAfter_of_isSteady {s : System ι σ} {access : Access}
    (hsteady : access.isSteady = true) (bound : Nat) : s.workerAfter bound access = s.worker := by
  cases access <;> first | rfl | exact nomatch hsteady

/-- What an access is to the lock and to the worker. -/
inductive Phase.Shifts : Phase → Access → Phase → Prop where
  | keep {phase phase' : Phase} {access : Access} (hsteady : access.isSteady = true)
      (hholds : phase'.holds = phase.holds) (hjoined : phase'.joined = phase.joined) :
      Shifts phase access phase'
  | lock : Shifts .free .lock (.holding false)
  | unlock (joined : Bool) : Shifts (.holding joined) .unlock .free
  | join (joined : Bool) : Shifts (.holding joined) .joinWorker (.holding true)
  | startWorker : Shifts (.holding true) .startWorker (.holding false)

/-- Whatever a client does, the lock is held by who thinks to hold it. -/
theorem Locking.shifts {s : System ι σ} {phases : ι → Phase} {client : ι} {access : Access}
    {phase : Phase} (hlocking : Locking phases s.bench.queue.locked s.worker)
    (hshifts : (phases client).Shifts access phase) (hready : s.waits access = false)
    (bound : Nat) :
    Locking (setPhase phases client phase) (Bench.answer access s.bench).2.queue.locked
      (s.workerAfter bound access) := by
  generalize hphase : phases client = before at hshifts
  have hlocked (hholds : (phases client).holds = true) := hlocking.locked client hholds
  have halone (hholds : (phases client).holds = true) (other : ι) (hother : other ≠ client) :=
    hlocking.alone hholds hother
  rw [hphase] at hlocked halone
  cases hshifts with
  | keep hsteady hholds hjoined =>
    rw [locked_answer hsteady, workerAfter_of_isSteady hsteady]
    exact hlocking.keep (hphase ▸ hholds) (hphase ▸ hjoined)
  | lock =>
    exact .set_of_alone (fun other _ => hlocking.not_holds hready other) (fun _ => rfl)
      fun hnone => nomatch hnone
  | unlock joined =>
    exact .set_of_alone (halone rfl) (fun hnone => nomatch hnone) fun hnone => nomatch hnone
  -- A client waits here until the worker is over, and only the holder of the lock starts another.
  | join joined =>
    have hnone : s.worker = none :=
      Option.isNone_iff_eq_none.1 (Option.isSome_eq_false_iff.1 hready)
    exact .set_of_alone (halone rfl) (fun _ => hlocked rfl) fun _ => hnone
  | startWorker =>
    exact .set_of_alone (halone rfl) (fun _ => hlocked rfl) fun hnone => nomatch hnone

/-- A phase moves on as its access says. -/
theorem Phase.Moves.shifts {phase phase' : Phase} {access : Access} {reply : access.Reply}
    (hmove : phase.Moves access reply phase') : phase.Shifts access phase' := by
  cases hmove with
  | plain hplain _ => exact .keep (by cases hplain <;> rfl) rfl rfl
  | lock => exact .lock
  | unlock joined => exact .unlock joined
  | join joined => exact .join joined
  | startWorker => exact .startWorker
  | _ => exact .keep rfl rfl rfl

theorem Counting.moves {b : Bench σ} {phases : ι → Phase} {client : ι} {access : Access}
    {reply : access.Reply} {phase : Phase} {owed : Nat}
    (hcounting : Counting phases b.queue.pending b.queue.buffers.length owed)
    (hmove : Phase.Moves (phases client) access reply phase)
    (hreply : (Bench.answer access b).1 = reply) :
    Counting (setPhase phases client phase) (Bench.answer access b).2.queue.pending
      (Bench.answer access b).2.queue.buffers.length owed := by
  generalize hphase : phases client = before at hmove
  have hlt (howes : before.owes = true) := hcounting.lt (hphase ▸ howes)
  cases hmove with
  | plain hplain hcalm =>
    obtain ⟨hwaiting, hpending, -, -⟩ := hplain.answer b
    rw [hwaiting, hpending, ← hphase, setPhase_eq_self]
    exact hcounting
  | count buffer =>
    exact hcounting.enter (hphase ▸ rfl) rfl (Nat.add_right_comm _ _ _)
  | put buffer =>
    refine hcounting.leave (hphase ▸ rfl) rfl ?_
    simp only [Bench.answer, List.length_append, List.length_singleton]
    omega
  | lock => exact hcounting.keep (hphase ▸ rfl)
  | unlock joined => exact hcounting.keep (hphase ▸ rfl)
  | join joined => exact hcounting.keep (hphase ▸ rfl)
  | startWorker => exact hcounting.keep (hphase ▸ rfl)
  | takeNone =>
    rw [pending_take, waiting_of_take_eq_none hreply]
    exact hcounting.keep (hphase ▸ rfl)
  | takeSome buffer =>
    refine hcounting.enter (hphase ▸ rfl) rfl ?_
    rw [pending_take, waiting_of_take_eq_some hreply, List.length_cons]
    omega
  | uncount =>
    refine hcounting.leave (hphase ▸ rfl) rfl ?_
    have hpositive := hlt rfl
    simp only [Bench.answer]
    omega

end Accesses

end DmaLink.Queue
