import DmaLink.Proofs.Queue.Balance

namespace DmaLink.Queue

/-- A client in a phase: what is left of its call goes from there to holding nothing. -/
def Phase.Of : Option (Proc io Unit) → Phase → Prop
  | none, phase => phase = .free
  | some program, phase => program.Follows Phase.Moves (fun _ phase => phase = .free) phase

/-- A worker with its hands as they are: what is left of it goes from there to being done. -/
def Hand.Of : Option (Proc io Unit) → Hand → Prop
  | none, hand => hand = .empty
  | some program, hand => program.Follows Hand.Moves (fun _ hand => hand.Idle) hand

variable {ι σ : Type} [DecidableEq ι]

/-- A system whose clients are in these phases, with the ledger of what has happened in it. -/
structure System.Sound (s : System ι σ) (l : Ledger ι) (phases : ι → Phase) : Prop where
  clients : ∀ client, (phases client).Of (s.clients client)
  worker : l.hand.Of s.worker
  locking : Locking phases s.bench.queue.locked s.worker
  counting : Counting phases s.bench.queue.pending s.bench.queue.buffers.length l.hand.owed
  balances : l.Balances s.bench.queue
  order : l.InOrder phases

namespace System

variable {s s' : System ι σ} {l : Ledger ι} {phases : ι → Phase} {client : ι}

/-- The books of a queue just created are sound. -/
theorem sound_create (engine : Engine) (link : σ) (line : ResetLine.Probe) :
    (create (ι := ι) engine link line).Sound {} fun _ => .free := by
  refine ⟨fun _ => rfl, rfl, ⟨?_, ?_, ?_⟩, ⟨[], List.nodup_nil, ?_, rfl⟩, ⟨rfl, rfl, rfl, ?_⟩,
    ⟨fun _ => rfl, ?_⟩⟩
  · exact fun _ hholds => nomatch hholds
  · exact fun _ _ hholds => nomatch hholds
  · exact fun _ hjoined => nomatch hjoined
  · exact fun _ => iff_of_false List.not_mem_nil Bool.false_ne_true
  · exact fun _ hentry => nomatch hentry
  · exact fun _ hentry => nomatch hentry

/-- A client that goes on in another phase leaves the other clients in theirs. -/
theorem Sound.clients_set (hsound : s.Sound l phases) {phase : Phase}
    {program : Option (Proc io Unit)} (hphase : phase.Of program) (other : ι) :
    (setPhase phases client phase other).Of ((s.setClient client program).clients other) := by
  by_cases hsame : other = client
  · have hprogram : (s.setClient client program).clients other = program := if_pos hsame
    rw [hprogram, hsame, setPhase_self]
    exact hphase
  · have hprogram : (s.setClient client program).clients other = s.clients other := if_neg hsame
    rw [hprogram, setPhase_of_ne hsame]
    exact hsound.clients other

/-- A client is in no phase but that of its call. -/
theorem Sound.free_of_none (hsound : s.Sound l phases) (hidle : s.clients client = none) :
    phases client = .free := by
  have hclient := hsound.clients client
  rw [hidle] at hclient
  exact hclient

/-- A client that has waited for the worker finds nothing in its hands. -/
theorem Sound.hand_of_joined (hsound : s.Sound l phases) (hjoined : (phases client).joined = true) :
    l.hand = .empty := by
  have hworker := hsound.worker
  rw [hsound.locking.joined client hjoined] at hworker
  exact hworker

theorem Sound.call (hsound : s.Sound l phases) (call : Call) (hidle : s.clients client = none) :
    (s.setClient client (some call.program)).Sound (l.begin client call)
      (setPhase phases client call.phase) := by
  have hfree := hsound.free_of_none hidle
  have hidle' : call.phase.holds = false ∧ call.phase.owes = false := by
    cases call with
    | enqueue buffer =>
      simp only [Call.phase]
      split <;> exact ⟨rfl, rfl⟩
    | _ => exact ⟨rfl, rfl⟩
  have hledger : (l.begin client call).hand = l.hand ∧
      (l.begin client call).Balances s.bench.queue := by
    obtain ⟨haccepted, hreached, hdropped, hfates⟩ := hsound.balances
    cases call with
    | enqueue buffer =>
      simp only [Ledger.begin]
      split <;> exact ⟨rfl, haccepted, hreached, hdropped, hfates⟩
    | _ => exact ⟨rfl, haccepted, hreached, hdropped, hfates⟩
  refine ⟨hsound.clients_set call.follows, ?_, hsound.locking.set_of_not_holds hidle'.1, ?_,
    hledger.2, hsound.order.begin hfree call⟩
  · rw [hledger.1]
    exact hsound.worker
  · rw [hledger.1]
    apply hsound.counting.keep
    rw [hidle'.2, hfree]
    rfl

theorem Sound.workerAfter (hsound : s.Sound l phases) {access : Access} {reply : access.Reply}
    {phase : Phase} (hmove : Phase.Moves (phases client) access reply phase) (bound : Nat) :
    l.hand.Of (s.workerAfter bound access) := by
  generalize hphase : phases client = before at hmove
  cases hmove with
  | startWorker =>
    have hjoined : (phases client).joined = true := hphase ▸ rfl
    rw [hsound.hand_of_joined hjoined]
    exact follows_worker bound .empty
  | plain hplain _ => cases hplain <;> exact hsound.worker
  | _ => exact hsound.worker

theorem Sound.finish (hsound : s.Sound l phases) (hover : s.clients client = some (.ret ())) :
    (s.setClient client none).Sound l phases := by
  have hfree : (phases client).Of none := by
    have hclient := hsound.clients client
    rw [hover] at hclient
    exact hclient
  refine ⟨fun other => ?_, hsound.worker, hsound.locking, hsound.counting, hsound.balances,
    hsound.order⟩
  rw [← setPhase_eq_self phases client]
  exact hsound.clients_set hfree other

theorem Sound.retire (hsound : s.Sound l phases) (hover : s.worker = some (.ret ())) :
    ({ s with worker := none } : System ι σ).Sound l.retire phases := by
  have hidle : l.hand.Idle := by
    have hworker := hsound.worker
    rw [hover] at hworker
    exact hworker
  obtain ⟨hhand, hbalances⟩ := hsound.balances.retire hidle
  have hcounting := hsound.counting
  rw [hidle.owed] at hcounting
  refine ⟨hsound.clients, hhand, ⟨hsound.locking.locked, hsound.locking.single, fun _ _ => rfl⟩, ?_,
    hbalances, hsound.order.of_eq (l.entries_retire)⟩
  rw [hhand]
  exact hcounting

section Accesses

variable [Device σ]

theorem Sound.access (hsound : s.Sound l phases) {access : Access}
    {next : access.Reply → Proc io Unit} (bound : Nat)
    (hnext : s.clients client = some (.act access next)) (hready : s.waits access = false) :
    ∃ phase, (({ s.answered access with worker := s.workerAfter bound access } :
        System ι σ).setClient client (some (next (Bench.answer access s.bench).1))).Sound
      (l.serve client access (Bench.answer access s.bench).1) (setPhase phases client phase) := by
  have hclient := hsound.clients client
  rw [hnext] at hclient
  obtain ⟨phase, hmove, hrest⟩ := hclient (Bench.answer access s.bench).1
  obtain ⟨hhand, hbalances⟩ := hsound.balances.serve hmove rfl hsound.hand_of_joined
  refine ⟨phase, hsound.clients_set hrest, ?_, hsound.locking.shifts hmove.shifts hready bound, ?_,
    hbalances, hsound.order.serve hmove⟩
  · rw [hhand]
    exact hsound.workerAfter hmove bound
  · rw [hhand]
    exact hsound.counting.moves hmove rfl

theorem Sound.work (hsound : s.Sound l phases) {access : Access}
    {next : access.Reply → Proc io Unit} (hnext : s.worker = some (.act access next)) :
    ({ s.answered access with worker := some (next (Bench.answer access s.bench).1) } :
      System ι σ).Sound (l.work access (Bench.answer access s.bench).1) phases := by
  have hworker := hsound.worker
  rw [hnext] at hworker
  obtain ⟨hand, hmove, hrest⟩ := hworker (Bench.answer access s.bench).1
  obtain ⟨hhand, hbalances⟩ := hsound.balances.work hmove rfl
  refine ⟨hsound.clients, ?_, ⟨?_, hsound.locking.single, fun other hjoined => ?_⟩, ?_, hbalances,
    hsound.order.of_eq (l.entries_work access _)⟩
  · rw [hhand]
    exact hrest
  · intro other hholds
    exact (hmove.locked_answer s.bench).trans (hsound.locking.locked other hholds)
  · have hnone := hsound.locking.joined other hjoined
    rw [hnext] at hnone
    exact nomatch hnone
  · rw [hhand]
    exact hsound.counting.work hmove rfl

/-- Whatever happens next, the books stay sound. -/
theorem Sound.step {event : Event ι} (hsound : s.Sound l phases) (hstep : Step s event s') :
    ∃ phases', s'.Sound (l.record event) phases' := by
  cases hstep with
  | call call hidle => exact ⟨_, hsound.call call hidle⟩
  | access bound hnext hready =>
    obtain ⟨phase, hsound'⟩ := hsound.access bound hnext hready
    exact ⟨_, hsound'⟩
  | finish hover => exact ⟨_, hsound.finish hover⟩
  | work hnext hready => exact ⟨_, hsound.work hnext⟩
  | retire hover => exact ⟨_, hsound.retire hover⟩
  | outside link line =>
    exact ⟨phases, hsound.clients, hsound.worker, hsound.locking, hsound.counting,
      hsound.balances.of_eq rfl rfl, hsound.order⟩

/-- After any run the books are sound. -/
theorem Run.sound {engine : Engine} {link : σ} {line : ResetLine.Probe} {events : List (Event ι)}
    (hrun : Run (create engine link line) events s) :
    ∃ phases, s.Sound (Ledger.ofEvents events) phases := by
  induction hrun with
  | start => exact ⟨_, sound_create engine link line⟩
  | step hrun hstep ih =>
    obtain ⟨phases, hsound⟩ := ih
    rw [Ledger.ofEvents_append]
    exact hsound.step hstep

end Accesses

section Conservation

/-- Only who has counted a buffer takes it off the count. -/
theorem owes_of_uncount {phase phase' : Phase} {reply : Access.uncountPending.Reply}
    (hmove : phase.Moves .uncountPending reply phase') : phase.owes = true := by
  cases hmove with
  | plain hplain => exact nomatch hplain
  | uncount => rfl

/-- A worker is started only after the last one has been joined. -/
theorem joined_of_startWorker {phase phase' : Phase} {reply : Access.startWorker.Reply}
    (hmove : phase.Moves .startWorker reply phase') : phase.joined = true := by
  cases hmove with
  | plain hplain => exact nomatch hplain
  | startWorker => rfl

theorem owed_of_uncount {hand hand' : Hand} {reply : Access.uncountPending.Reply}
    (hmove : hand.Moves .uncountPending reply hand') : hand.owed = 1 := by
  cases hmove
  rfl

theorem not_startWorker {hand hand' : Hand} {reply : Access.startWorker.Reply} :
    ¬hand.Moves .startWorker reply hand' := by
  intro hmove
  cases hmove

/-- Who has counted a buffer puts it into the queue or takes it off the count next. -/
theorem put_or_uncount_of_owes {phase phase' : Phase} {access : Access} {reply : access.Reply}
    (hmove : phase.Moves access reply phase') (howes : phase.owes = true) :
    (∃ buffer, access = .put buffer) ∨ access = .uncountPending := by
  cases hmove with
  | plain _ hcalm => cases hcalm <;> exact nomatch howes
  | put buffer => exact .inl ⟨buffer, rfl⟩
  | uncount => exact .inr rfl
  | _ => exact nomatch howes

theorem uncount_of_owed {hand hand' : Hand} {access : Access} {reply : access.Reply}
    (hmove : hand.Moves access reply hand') (howed : hand.owed ≠ 0) : access = .uncountPending := by
  cases hmove with
  | uncount buffer => rfl
  | _ => exact absurd rfl howed

/-- No count is taken off when there is none. -/
theorem Sound.pending_pos (hsound : s.Sound l phases) (habout : s.About .uncountPending) :
    0 < s.bench.queue.pending := by
  obtain ⟨next, ⟨client, hnext⟩ | hnext⟩ := habout
  · have hclient := hsound.clients client
    rw [hnext] at hclient
    obtain ⟨phase, hmove, -⟩ := hclient ()
    exact Nat.lt_of_le_of_lt (Nat.zero_le _) (hsound.counting.lt (owes_of_uncount hmove))
  · have hworker := hsound.worker
    rw [hnext] at hworker
    obtain ⟨hand, hmove, -⟩ := hworker ()
    obtain ⟨midway, -, -, hpending⟩ := hsound.counting
    rw [owed_of_uncount hmove] at hpending
    omega

/-- A worker is started only when there is none. -/
theorem Sound.worker_of_start (hsound : s.Sound l phases) (habout : s.About .startWorker) :
    s.worker = none := by
  obtain ⟨next, ⟨client, hnext⟩ | hnext⟩ := habout
  · have hclient := hsound.clients client
    rw [hnext] at hclient
    obtain ⟨phase, hmove, -⟩ := hclient ()
    exact hsound.locking.joined client (joined_of_startWorker hmove)
  · have hworker := hsound.worker
    rw [hnext] at hworker
    obtain ⟨hand, hmove, -⟩ := hworker ()
    exact (not_startWorker hmove).elim

/-- What holds of a queue and of the ledger of all that has happened to it. -/
structure Conserved (s : System ι σ) (l : Ledger ι) : Prop where
  /-- At least the buffers that wait are counted, and never less than none. -/
  waiting_le : s.bench.queue.buffers.length ≤ s.bench.queue.pending
  pending_pos : s.About .uncountPending → 0 < s.bench.queue.pending
  pending_of_quiet : s.Quiet → s.bench.queue.pending = s.bench.queue.buffers.length
  /-- The accepted buffers, in that order, are those that are done with, the one in the worker's
      hands and those that wait. -/
  accepted : l.accepted.map Prod.snd =
    l.settled.map Prod.fst ++ l.hand.toList ++ s.bench.queue.buffers
  accepted_ne : ∀ entry ∈ l.accepted, entry.2 ≠ []
  /-- How it ended for a buffer is how the engine went through it. -/
  fates : ∀ entry ∈ l.settled, entry.2.Holds entry.1
  dropped : s.bench.queue.dropped = l.settled.countP fun entry => entry.2.isDropped
  /-- The buffers that the engine was given are, in the order of the accepted ones, those that are
      entered as sent or failed and the one that it is sending. -/
  reached : l.reached =
    (l.settled.filter fun entry => entry.2.isBegun).map Prod.fst ++ l.hand.begun
  /-- The buffers of one client are accepted in the order in which it hands them over. -/
  order : ∀ client, own client l.accepted <+: own client l.handed
  order_of_idle : ∀ client, s.clients client = none → own client l.accepted = own client l.handed
  /-- There is never a second worker. -/
  single : s.About .startWorker → s.worker = none

variable [Device σ]

/-- In a quiet state no client has counted a buffer that is not in the queue. -/
theorem Sound.not_owes (hsound : s.Sound l phases) (hquiet : s.Quiet) (client : ι) :
    (phases client).owes = false := by
  rw [Bool.eq_false_iff]
  intro howes
  have hclient := hsound.clients client
  -- A client that owes is about to put a buffer in or to take one off the count.
  cases hprogram : s.clients client with
  | none =>
    rw [hsound.free_of_none hprogram] at howes
    exact nomatch howes
  | some program =>
    rw [hprogram] at hclient
    cases program with
    | ret _ =>
      rw [show phases client = .free from hclient] at howes
      exact nomatch howes
    | act access next =>
      obtain ⟨phase, hmove, -⟩ := hclient (Bench.answer access s.bench).1
      have habout : s.About access := ⟨next, .inl ⟨client, hprogram⟩⟩
      rcases put_or_uncount_of_owes hmove howes with ⟨buffer, rfl⟩ | rfl
      · exact hquiet.1 buffer habout
      · exact hquiet.2 habout

/-- In a quiet state the worker holds no buffer that is still counted. -/
theorem Sound.owed_eq_zero (hsound : s.Sound l phases) (hquiet : s.Quiet) : l.hand.owed = 0 := by
  refine Decidable.byContradiction fun howed => ?_
  have hworker := hsound.worker
  cases hprogram : s.worker with
  | none =>
    rw [hprogram] at hworker
    rw [show l.hand = .empty from hworker] at howed
    exact howed rfl
  | some program =>
    rw [hprogram] at hworker
    cases program with
    | ret _ => exact howed (Hand.Idle.owed hworker)
    | act access next =>
      obtain ⟨hand, hmove, -⟩ := hworker (Bench.answer access s.bench).1
      obtain rfl := uncount_of_owed hmove howed
      exact hquiet.2 ⟨next, .inr hprogram⟩

/-- While nobody has a buffer on the way, as many are counted as wait. -/
theorem Sound.pending_of_quiet (hsound : s.Sound l phases) (hquiet : s.Quiet) :
    s.bench.queue.pending = s.bench.queue.buffers.length := by
  obtain ⟨midway, -, hmem, hpending⟩ := hsound.counting
  have hnobody : midway = [] := by
    refine List.eq_nil_iff_forall_not_mem.2 fun client hclient => ?_
    have howes := (hmem client).1 hclient
    rw [hsound.not_owes hquiet] at howes
    exact nomatch howes
  rw [hpending, hnobody, hsound.owed_eq_zero hquiet]
  rfl

/-- With sound books every buffer is accounted for. -/
theorem Sound.conserved (hsound : s.Sound l phases) : s.Conserved l := by
  refine ⟨?_, hsound.pending_pos, hsound.pending_of_quiet, hsound.balances.accepted,
    fun _ => hsound.order.accepted_ne, hsound.balances.fates, hsound.balances.dropped,
    hsound.balances.reached, fun client => ?_, fun client hidle => ?_, hsound.worker_of_start⟩
  · obtain ⟨midway, -, -, hpending⟩ := hsound.counting
    omega
  · rw [hsound.order.own_eq]
    exact List.prefix_append _ _
  · rw [hsound.order.own_eq, hsound.free_of_none hidle]
    exact (List.append_nil _).symm

/-- In every state that any interleaving leads to, no buffer is lost, doubled or overtaken, and
    every one is counted. -/
theorem conserved_of_run {engine : Engine} {link : σ} {line : ResetLine.Probe}
    {events : List (Event ι)} (hrun : Run (create engine link line) events s) :
    s.Conserved (Ledger.ofEvents events) := by
  obtain ⟨phases, hsound⟩ := hrun.sound
  exact hsound.conserved

/-- A queue on a device with windows of 6 and 256 words. -/
def small : System Bool Loopback :=
  create ⟨.poll, ⟨6, Loopback.sourceBase, 3⟩, ⟨256, Loopback.destinationBase, 32⟩, 0, 256, 2⟩
    (Loopback.create 6 256 none) {}

/-- A client starts the queue, and then two hand a buffer over at the same time. The one that counts
    its buffer first puts it in last. The worker sends the one and begins with the other. -/
def overlapping : List (Turn Bool) :=
  [.call false (.initialise 1 1024)] ++ List.replicate 24 (.client false 5) ++
    [.call false (.enqueue [5, 6, 7]), .call true (.enqueue [8]), .client false 0, .client true 0,
      .client true 0, .client false 0] ++ List.replicate 20 .worker

/-- Two clients hand buffers over at once, and one buffer is still waiting. -/
theorem conserved_of_run_overlapping :
    ∃ events s, Run small events s ∧ s.Conserved (Ledger.ofEvents events) ∧
      (Ledger.ofEvents events).accepted = [(true, [8]), (false, [5, 6, 7])] ∧
      (Ledger.ofEvents events).settled.map Prod.fst = [[8]] ∧
      (Ledger.ofEvents events).reached = [[8], [5, 6, 7]] := by
  have hplayed : (small.playAll overlapping).map (fun out =>
      let l := Ledger.ofEvents out.1
      (l.accepted, l.settled.map Prod.fst, l.reached)) =
        some ([(true, [8]), (false, [5, 6, 7])], [[8]], [[8], [5, 6, 7]]) := by
    decide +kernel
  obtain ⟨⟨events, s⟩, hplay, hledger⟩ := Option.map_eq_some_iff.1 hplayed
  obtain ⟨haccepted, hsettled, hreached⟩ := Prod.mk.inj hledger |>.imp_right Prod.mk.inj
  have hrun := run_of_playAll hplay
  exact ⟨events, s, hrun, conserved_of_run hrun, haccepted, hsettled, hreached⟩

end Conservation

end System

end DmaLink.Queue
