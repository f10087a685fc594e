import DmaLink.Proofs.Queue.Handing
import DmaLink.Proofs.Queue.Starting

namespace DmaLink.Queue

variable {ι σ : Type} [Device σ]

/-- Whether the worker does something. -/
def Event.isOfWorker : Event ι → Bool
  | .work _ _ | .retire => true
  | _ => false

namespace System

variable [DecidableEq ι] {s s' : System ι σ} {events : List (Event ι)}

/-- A worker goes on alone until it is over. -/
theorem exists_run_worker {program : Proc io Unit} (hworker : s.worker = some program)
    (huses : program.Uses fun access : Access => access.isNeutral = true ∨ access = .take) :
    ∃ events, Run s events { s with bench := (s.bench.run program).2, worker := none } ∧
      (∀ event ∈ events, event.isHanding = true) ∧ puts events = [] := by
  induction program generalizing s with
  | ret _ =>
    exact ⟨[.retire], .cons (.retire hworker) .start, List.forall_mem_singleton.2 rfl, rfl⟩
  | act access next ih =>
    obtain ⟨_, haccess, hrest⟩ := huses (Bench.answer access s.bench).1
    have hready : s.waits access = false := by
      obtain hneutral | rfl := haccess
      · cases access with
        | lock | joinWorker => exact nomatch hneutral
        | _ => rfl
      · rfl
    obtain ⟨events, hrun, hhanding, hputs⟩ := ih _ (s := { s.answered access with
      worker := some (next (Bench.answer access s.bench).1) }) rfl hrest
    exact ⟨_, .cons (.work hworker hready) hrun, List.forall_mem_cons.2 ⟨rfl, hhanding⟩, hputs⟩

/-- A client hands buffers over while nobody else does anything. -/
theorem exists_run_enqueue (client : ι) {buffers : List (List UInt64)}
    (hbuffers : ∀ buffer ∈ buffers, buffer ≠ []) (hclients : ∀ client, s.clients client = none) :
    ∃ events s', Run s events s' ∧ (∀ event ∈ events, event.isHanding = true) ∧
      (∀ client, s'.clients client = none) ∧ s'.worker = s.worker ∧
      s'.bench.queue.buffers = s.bench.queue.buffers ++ buffers ∧
      puts events = buffers.map (client, ·) := by
  induction buffers generalizing s with
  | nil =>
    exact ⟨[], s, .start, List.forall_mem_nil _, hclients, rfl, (List.append_nil _).symm, rfl⟩
  | cons buffer rest ih =>
    obtain ⟨hbuffer, hrest⟩ := List.forall_mem_cons.1 hbuffers
    let putting : Proc io Unit := .act (.put buffer) fun _ => .ret ()
    let called := s.setClient client (some (.act .countPending fun _ => putting))
    let counted := (called.answered .countPending).setClient client (some putting)
    let done := (counted.answered (.put buffer)).setClient client (some (.ret ()))
    have hcall : Step s (.call client (.enqueue buffer)) called := by
      cases buffer with
      | nil => exact absurd rfl hbuffer
      | cons word words => exact .call _ (hclients client)
    have hcounts : called.clients client = some (.act .countPending fun _ => putting) := if_pos rfl
    have hcount : Step called (.access client .countPending ()) counted := .access 0 hcounts rfl
    have hputs : counted.clients client = some (.act (.put buffer) fun _ => .ret ()) := if_pos rfl
    have hput : Step counted (.access client (.put buffer) ()) done := .access 0 hputs rfl
    have hfinish : Step done (.finish client) (done.setClient client none) := .finish (if_pos rfl)
    have hidle (other : ι) : (done.setClient client none).clients other = none := by
      simp only [done, counted, called, setClient, answered]
      split
      · rfl
      · exact hclients other
    obtain ⟨events, s', hrun, hhanding, hidle', hworker, hwaiting, hall⟩ := ih hrest hidle
    refine ⟨_, s', .cons hcall (.cons hcount (.cons hput (.cons hfinish hrun))), ?_, hidle',
      hworker, ?_, congrArg ((client, buffer) :: ·) hall⟩
    · simp only [List.forall_mem_cons]
      exact ⟨rfl, rfl, rfl, rfl, hhanding⟩
    · rw [hwaiting]
      exact List.append_assoc _ [buffer] rest

/-- A queue that is handed buffers settles if its worker has a turn for each. -/
theorem exists_run_settled (hclients : ∀ client, s.clients client = none) {bound : Nat}
    (hworker : s.worker = some (Queue.worker bound)) (client : ι) {buffers : List (List UInt64)}
    (hbuffers : ∀ buffer ∈ buffers, buffer ≠ [])
    (hbound : s.bench.queue.buffers.length + buffers.length ≤ bound) :
    ∃ events s', Run s events s' ∧ (∀ event ∈ events, event.isHanding = true) ∧ s'.Settled ∧
      puts events = buffers.map (client, ·) := by
  obtain ⟨events, between, hrun, hhanding, hidle, hsame, hwaiting, hputs⟩ :=
    exists_run_enqueue client hbuffers hclients
  obtain ⟨events', hrun', hhanding', hputs'⟩ :=
    exists_run_worker (hsame.trans hworker) (uses_worker bound)
  have hturns : between.bench.queue.buffers.length ≤ bound := by
    rw [hwaiting, List.length_append]
    exact hbound
  obtain ⟨made, after, ⟨hafter, -⟩, hsettled⟩ := exists_comes_worker hturns
  rw [hafter] at hrun'
  refine ⟨_, _, hrun.append hrun', List.forall_mem_append.2 ⟨hhanding, hhanding'⟩,
    ⟨hidle, .inl rfl, hsettled⟩, ?_⟩
  rw [← hputs, puts, List.filterMap_append]
  exact (congrArg (puts events ++ ·) hputs').trans (List.append_nil _)

/-- A client that is in no call at two points has had all put in that it has handed over between
    them, in that order. -/
theorem own_puts {engine : Engine} {link : σ} {line : ResetLine.Probe} {before : List (Event ι)}
    (hcreated : Run (create engine link line) before s) {client : ι}
    (hidle : s.clients client = none) (hrun : Run s events s')
    (hidle' : s'.clients client = none) :
    own client (puts events) = own client (handovers events) := by
  have hbefore := (conserved_of_run hcreated).order_of_idle client hidle
  have hafter := (conserved_of_run (hcreated.append hrun)).order_of_idle client hidle'
  obtain ⟨haccepted, hhanded⟩ := Ledger.entries_append before events
  rw [haccepted, hhanded, own_append, own_append, hbefore] at hafter
  exact List.append_cancel_left hafter

/-- As many buffers are counted as wait once nobody is in a call and the worker is in no turn. -/
theorem pending_of_idle {engine : Engine} {link : σ} {line : ResetLine.Probe}
    {before : List (Event ι)} (hcreated : Run (create engine link line) before s)
    (hclients : ∀ client, s.clients client = none)
    (hworker : s.worker = none ∨ ∃ bound, s.worker = some (Queue.worker bound)) :
    s.bench.queue.pending = s.bench.queue.buffers.length :=
  (conserved_of_run hcreated).pending_of_quiet (quiet_of_idle hclients hworker)

/-- To a queue that has halted nothing happens but that buffers are handed over to it and wait. -/
theorem Run.eq_ahead_of_stopped (hrun : Run s events s')
    (hhanding : ∀ event ∈ events, event.isHanding = true)
    (hclients : ∀ client, Hands (s.clients client))
    (hworker : s.worker = none ∨ ∃ bound, s.worker = some (Queue.worker bound))
    (hstopped : s.bench.queue.running = false) :
    events.flatMap Event.signals = [] ∧ s'.bench = s.ahead events ∧
      (s'.worker = none ∨ ∃ bound, s'.worker = some (Queue.worker bound)) := by
  induction events generalizing s with
  | nil =>
    obtain rfl := hrun.eq_of_nil
    exact ⟨rfl, (ahead_nil _).symm, hworker⟩
  | cons event events ih =>
    obtain ⟨between, hstep, hrest⟩ := hrun.exists_of_cons
    obtain ⟨hevent, hevents⟩ := List.forall_mem_cons.1 hhanding
    obtain ⟨hclients', hproceeds⟩ := hstep.proceeds hevent hclients events
    cases hproceeds with
    | client hsame hsignals hahead =>
      have hrunning : between.bench.queue.running = s.bench.queue.running :=
        congrArg (fun b => b.queue.running) hahead
      rw [← hahead, List.flatMap_cons, hsignals]
      exact ih hrest hevents hclients' (hsame ▸ hworker) (hrunning.trans hstopped)
    | retire hover =>
      have hover := ih hrest hevents hclients' (.inl rfl) hstopped
      exact hover
    | @work access next hnext =>
      obtain hnone | ⟨_ | bound, hlooks⟩ := hworker
      · exact nomatch hnone.symm.trans hnext
      · exact nomatch hlooks.symm.trans hnext
      · cases Option.some.inj (hnext.symm.trans hlooks)
        have hover := ih hrest hevents hclients'
          (.inr ⟨0, congrArg some (if_neg (Bool.eq_false_iff.1 hstopped))⟩) hstopped
        exact hover

/-- A worker that has made no access since it was started has begun no turn. -/
theorem Run.worker_idle (hrun : Run s events s')
    (hothers : ∀ event ∈ events, event.isOfWorker = false)
    (hworker : s.worker = none ∨ ∃ bound, s.worker = some (Queue.worker bound)) :
    s'.worker = none ∨ ∃ bound, s'.worker = some (Queue.worker bound) := by
  induction hrun with
  | start => exact hworker
  | step hrun hstep ih =>
    obtain ⟨hearlier, hevent⟩ := List.forall_mem_append.1 hothers
    have hbefore := ih hearlier
    cases hstep with
    | @access client access next bound hnext hready =>
      cases access with
      | startWorker => exact .inr ⟨bound, rfl⟩
      | _ => exact hbefore
    | work => exact nomatch hevent _ (List.mem_singleton_self _)
    | retire => exact nomatch hevent _ (List.mem_singleton_self _)
    | _ => exact hbefore

omit [Device σ] [DecidableEq ι] in
/-- In a settled state every client is free to hand buffers over. -/
theorem Settled.hands (hsettled : s.Settled) (client : ι) : Hands (s.clients client) := by
  rw [hsettled.clients]
  trivial

end System

/-- A start whose requests to the reset line are accepted throws away what waits. It counts none of
    it as dropped. -/
theorem Bench.discards_of_pulsed {b : Bench σ} (hsettled : b.queue.pending = b.queue.buffers.length)
    (readLength : Nat) (hpulsed : ∀ i < ResetLine.pulse.length, ¬b.line.Refuses i) :
    let after := (b.initialise readLength).2.queue
    after.buffers = [] ∧ after.pending = 0 ∧ after.dropped = b.queue.dropped ∧
      after.lastError = b.queue.lastError := by
  intro after
  obtain ⟨made, result, after', ⟨hrun, -⟩, hstarts⟩ := exists_comes_initialise b readLength
  have hafter : after = { after'.queue with locked := false } :=
    congrArg (fun out => out.2.queue) hrun
  obtain ⟨hbuffers, hpending⟩ := hstarts.buffers_of_pulsed hpulsed
  have hnone : b.queue.pending - b.queue.buffers.length = 0 := by omega
  rw [hafter]
  exact ⟨hbuffers, hpending.trans hnone, hstarts.dropped_eq.1, hstarts.dropped_eq.2⟩

namespace System

variable [DecidableEq ι] {s s' : System ι σ}

/-- Of the buffers that a settled queue is handed while it runs, those are sent that come before the
    first whose transfer times out. They are sent in the order in which they were put in, and those
    that fail are counted as dropped. The one that times out is counted as dropped too and halts the
    queue: nothing is written after both channels have been halted, what waits behind it is not
    touched, and what is handed over later only waits with it, until a start that gets past the
    reset line throws away both. If no transfer times out, all are sent and the queue goes on. A
    worker with turns enough always comes that far. -/
theorem halts_at_timeout {engine : Engine} {link : σ} {line : ResetLine.Probe}
    {before : List (Event ι)} (hcreated : Run (create engine link line) before s)
    (hsettled : s.Settled) (hrunning : s.bench.queue.running = true) :
    (∀ bound, s.worker = some (Queue.worker bound) → ∀ (client : ι) (buffers : List (List UInt64)),
      (∀ buffer ∈ buffers, buffer ≠ []) → buffers.length ≤ bound →
      ∃ events s', Run s events s' ∧ (∀ event ∈ events, event.isHanding = true) ∧ s'.Settled ∧
        puts events = buffers.map (client, ·)) ∧
    ∀ events s', Run s events s' → (∀ event ∈ events, event.isHanding = true) → s'.Settled →
      let e := s.bench.queue.engine
      let buffers := (puts events).map Prod.snd
      let made := events.flatMap Event.signals
      let after := s'.bench.queue
      (∀ client, own client (puts events) = own client (handovers events)) ∧
      (∀ sent failing behind, buffers = sent ++ failing :: behind →
        let earlier := outcomes e s.bench.link sent
        let last := outcome e earlier.2 failing
        (∀ result ∈ earlier.1, timedOut result = false) →
        ∀ cause, last.1 = .error cause → cause.isTimeout = true →
          after.running = false ∧ after.buffers = behind ∧ after.pending = behind.length ∧
          after.dropped = s.bench.queue.dropped + earlier.1.countP failed + 1 ∧
          after.lastError = some cause ∧
          s'.bench.link = (Engine.halt.run Device.answer last.2).2 ∧
          made = ((e.sendInTurn sent).writes s.bench.link).map .write ++
            ((e.sendSplit failing).writes earlier.2).map .write ++
            [.write ⟨Channel.s2mm.control, Control.halt⟩,
              .write ⟨Channel.mm2s.control, Control.halt⟩] ∧
          ∀ later s'', Run s' later s'' → (∀ event ∈ later, event.isHanding = true) →
            later.flatMap Event.signals = [] ∧ s''.bench = s'.ahead later ∧
            ((∀ client, s''.clients client = none) →
              s''.bench.queue.pending = behind.length + (puts later).length ∧
              ∀ readLength, (∀ i < 3, ¬s''.bench.line.Refuses i) →
                let started := (s''.bench.initialise readLength).2.queue
                started.buffers = [] ∧ started.pending = 0 ∧ started.dropped = after.dropped ∧
                  started.lastError = some cause)) ∧
      ((∀ result ∈ (outcomes e s.bench.link buffers).1, timedOut result = false) →
        let sent := outcomes e s.bench.link buffers
        after.running = true ∧ after.buffers = [] ∧ after.pending = 0 ∧
          after.dropped = s.bench.queue.dropped + sent.1.countP failed ∧
          s'.bench.link = sent.2 ∧
          made = ((e.sendInTurn buffers).writes s.bench.link).map .write) := by
  have hnone := hsettled.buffers hrunning
  refine ⟨fun bound hworker client buffers hbuffers hbound => ?_, ?_⟩
  · refine exists_run_settled hsettled.clients hworker client hbuffers ?_
    rw [hnone]
    exact Nat.le_trans (Nat.le_of_eq (Nat.zero_add _)) hbound
  intro events s' hrun hhanding hsettled' e buffers made after
  have hcreated' := hcreated.append hrun
  have hturns := turns_of_run hcreated hsettled hrun hhanding hsettled'
  have hpending : after.pending = after.buffers.length :=
    pending_of_idle hcreated' hsettled'.clients hsettled'.worker
  have hahead : (s.ahead events).queue.buffers = buffers :=
    congrArg (· ++ buffers) hnone
  refine ⟨fun client => own_puts hcreated (hsettled.clients client) hrun
    (hsettled'.clients client), ?_, ?_⟩
  · intro sent failing behind hbuffers earlier last hresults cause hcause htimeout
    obtain ⟨hstopped, hbehind, hdropped, herror, hlink, -, hmade⟩ :=
      hturns.halted hrunning hsettled'.buffers (hahead.trans hbuffers) hresults hcause htimeout
    refine ⟨hstopped, hbehind, hpending.trans (congrArg _ hbehind), hdropped, herror, hlink,
      hmade.trans (List.append_assoc ..).symm, fun later s'' hlater hhanding' => ?_⟩
    obtain ⟨hquiet, hwaiting, hworker⟩ :=
      hlater.eq_ahead_of_stopped hhanding' hsettled'.hands hsettled'.worker hstopped
    refine ⟨hquiet, hwaiting, fun hclients => ?_⟩
    have hcounted : s''.bench.queue.pending = s''.bench.queue.buffers.length :=
      pending_of_idle (hcreated'.append hlater) hclients hworker
    refine ⟨?_, fun readLength hpulsed => ?_⟩
    · rw [hcounted, hwaiting]
      have hall : (s'.ahead later).queue.buffers = behind ++ (puts later).map Prod.snd :=
        congrArg (· ++ _) hbehind
      rw [hall, List.length_append, List.length_map]
    · obtain ⟨hempty, hzero, hsame, hsame'⟩ :=
        Bench.discards_of_pulsed hcounted readLength hpulsed
      refine ⟨hempty, hzero, hsame.trans ?_, hsame'.trans ?_⟩
      · rw [hwaiting]
        rfl
      · rw [hwaiting]
        exact herror
  · intro hresults sent
    obtain ⟨hruns, hempty, hdropped, hlink, -, hmade⟩ :=
      hturns.sent hrunning hsettled'.buffers (hahead ▸ hresults)
    rw [hahead] at hdropped hlink hmade
    exact ⟨hruns, hempty, hpending.trans (congrArg _ hempty), hdropped, hlink, hmade⟩

/-- A queue is started on a device whose source window is a word smaller than its engine takes it to
    be, and which is stalled after two buffers. -/
def faltering : System Bool Loopback.Stalling :=
  create ⟨.poll, ⟨6, Loopback.sourceBase, 3⟩, ⟨256, Loopback.destinationBase, 32⟩, 9, 256, 2⟩
    ⟨Loopback.create 5 256 none, List.replicate 21 [] ++ [[true]]⟩ {}

/-- Two clients hand buffers over at the same time and while the worker is at it. -/
def crowding : List (Turn Bool) :=
  [.call false (.enqueue [5]), .call true (.enqueue [6, 7, 8, 9]), .client false 0, .client true 0,
    .client false 0, .client true 0, .worker, .worker, .client true 0, .client false 0,
    .call true (.enqueue [8]), .client true 0, .client true 0, .worker,
    .call false (.enqueue [9]), .client false 0, .client true 0, .client false 0, .worker,
    .client false 0] ++ List.replicate 41 .worker

/-- The first buffer is sent, the second does not fit, the third times out, and the fourth waits. -/
theorem halts_at_timeout_crowded :
    ∃ before events later s s' s'', Run faltering before s ∧ s.bench.queue.running = true ∧
      Run s events s' ∧ (puts events).map Prod.snd = [[5], [6, 7, 8, 9], [8], [9]] ∧
      s'.bench.queue.running = false ∧ s'.bench.queue.buffers = [[9]] ∧
      s'.bench.queue.pending = 1 ∧ s'.bench.queue.dropped = 2 ∧
      s'.bench.queue.lastError = some (.channelTimeout .mm2s 9) ∧ Run s' later s'' ∧
      s''.bench.queue.pending = 2 ∧ (s''.bench.initialise 1024).2.queue.pending = 0 := by
  have hplayed : ((faltering.playAll (.call false (.initialise 1 1024) ::
      List.replicate 24 (.client false 9))).bind fun first =>
        (first.2.playAll crowding).bind fun second =>
          (second.2.playAll (.call true (.enqueue [4]) :: List.replicate 3 (.client true 0))).map
            fun third =>
              let e := first.2.bench.queue.engine
              let earlier := outcomes e first.2.bench.link [[5], [6, 7, 8, 9]]
              (decide ((∀ event ∈ first.1, event.isOfWorker = false) ∧
                  (∀ client, first.2.clients client = none) ∧
                  first.2.bench.queue.running = true ∧ first.2.bench.queue.buffers = [] ∧
                  first.2.bench.queue.dropped = 0),
                decide ((∀ event ∈ second.1, event.isHanding = true) ∧
                  (∀ client, second.2.clients client = none) ∧ second.2.worker = none ∧
                  second.2.bench.queue.running = false ∧
                  (puts second.1).map Prod.snd = [[5], [6, 7, 8, 9], [8], [9]]),
                decide ((∀ result ∈ earlier.1, timedOut result = false) ∧
                  earlier.1.countP failed = 1 ∧
                  (outcome e earlier.2 [8]).1 = .error (.channelTimeout .mm2s 9)),
                decide ((∀ event ∈ third.1, event.isHanding = true) ∧
                  (∀ client, third.2.clients client = none) ∧ (puts third.1).length = 1),
                decide (∀ i : Nat, i < 3 → ¬third.2.bench.line.Refuses i))) =
        some (true, true, true, true, true) := by
    decide +kernel
  obtain ⟨⟨before, s⟩, hbefore, hplayed⟩ := Option.bind_eq_some_iff.1 hplayed
  obtain ⟨⟨events, s'⟩, hevents, hplayed⟩ := Option.bind_eq_some_iff.1 hplayed
  obtain ⟨⟨later, s''⟩, hlater, hplayed⟩ := Option.map_eq_some_iff.1 hplayed
  simp only [Prod.mk.injEq, decide_eq_true_eq] at hplayed
  obtain ⟨⟨hothers, hidle, hrunning, hbuffers, hdropped⟩,
    ⟨hhanding, hidle', hover, hstopped, hputs⟩, ⟨hresults, hfailures, hcause⟩,
    ⟨hhanding', hidle'', hlast⟩, hpulsed⟩ := hplayed
  have hcreated := run_of_playAll hbefore
  have hsettled : s.Settled := ⟨hidle, hcreated.worker_idle hothers (.inl rfl), fun _ => hbuffers⟩
  have hsettled' : s'.Settled :=
    ⟨hidle', .inl hover, fun hruns => nomatch hstopped.symm.trans hruns⟩
  obtain ⟨-, hhalts⟩ := halts_at_timeout hcreated hsettled hrunning
  obtain ⟨-, hhalted, -⟩ := hhalts events s' (run_of_playAll hevents) hhanding hsettled'
  obtain ⟨-, hbehind, hpending, hdropped', herror, -, -, hwaits⟩ :=
    hhalted [[5], [6, 7, 8, 9]] [8] [[9]] hputs hresults _ hcause rfl
  obtain ⟨-, -, hwaiting⟩ := hwaits later s'' (run_of_playAll hlater) hhanding'
  obtain ⟨hpending', hstarts⟩ := hwaiting hidle''
  obtain ⟨-, hdiscarded, -, -⟩ := hstarts 1024 hpulsed
  rw [hdropped, hfailures] at hdropped'
  rw [hlast] at hpending'
  exact ⟨before, events, later, s, s', s'', hcreated, hrunning, run_of_playAll hevents, hputs,
    hstopped, hbehind, hpending, hdropped', herror, run_of_playAll hlater, hpending', hdiscarded⟩

end System

end DmaLink.Queue
