import DmaLink.Proofs.Queue.Conservation
import DmaLink.Proofs.Queue.Histories
import DmaLink.Proofs.Queue.Traffic
import DmaLink.Proofs.Queue.Turns

namespace DmaLink.Queue

open Proc

variable {ι σ : Type}

section Events

/-- An event of clients that do nothing but hand buffers over, and of the worker. -/
def Event.isHanding : Event ι → Bool
  | .call _ (.enqueue _) => true
  | .call _ _ => false
  | .outside => false
  | _ => true

/-- The signals of an event. -/
def Event.signals : Event ι → List Signal
  | .access _ made _ => made.signals
  | .work made _ => made.signals
  | _ => []

/-- The buffer that a client puts in, if the event is one where it does. -/
def Event.put? : Event ι → Option (ι × List UInt64)
  | .access client (.put buffer) _ => some (client, buffer)
  | _ => none

/-- The buffer that a client begins to hand over, if the event is one where it does. -/
def Event.handed? : Event ι → Option (ι × List UInt64)
  | .call client (.enqueue buffer) => if buffer.isEmpty then none else some (client, buffer)
  | _ => none

/-- Whether a client counts a buffer as waiting. -/
def Event.isCount : Event ι → Bool
  | .access _ .countPending _ => true
  | _ => false

/-- The buffers that were put in, in that order. -/
def puts (events : List (Event ι)) : List (ι × List UInt64) := events.filterMap Event.put?

/-- The buffers that clients have begun to hand over, in that order. -/
def handovers (events : List (Event ι)) : List (ι × List UInt64) := events.filterMap Event.handed?

theorem Ledger.accepted_record (l : Ledger ι) (event : Event ι) :
    (l.record event).accepted = l.accepted ++ event.put?.toList := by
  cases event with
  | call client call =>
    cases call with
    | enqueue buffer =>
      simp only [Ledger.record, Ledger.begin]
      split <;> exact (List.append_nil _).symm
    | _ => exact (List.append_nil _).symm
  | access client access reply =>
    simp only [Ledger.record, Ledger.serve]
    split
    · rfl
    · exact (List.append_nil _).symm
    · next hput _ =>
      cases access with
      | put buffer => exact (hput buffer _ rfl HEq.rfl).elim
      | _ => exact (List.append_nil _).symm
  | work access reply => exact (l.entries_work access reply).2.trans (List.append_nil _).symm
  | retire => exact l.entries_retire.2.trans (List.append_nil _).symm
  | _ => exact (List.append_nil _).symm

theorem Ledger.handed_record (l : Ledger ι) (event : Event ι) :
    (l.record event).handed = l.handed ++ event.handed?.toList := by
  cases event with
  | call client call =>
    cases call with
    | enqueue buffer =>
      simp only [Ledger.record, Ledger.begin, Event.handed?]
      split
      · exact (List.append_nil _).symm
      · rfl
    | _ => exact (List.append_nil _).symm
  | access client access reply =>
    simp only [Ledger.record, Ledger.serve]
    split <;> exact (List.append_nil _).symm
  | work access reply => exact (l.entries_work access reply).1.trans (List.append_nil _).symm
  | retire => exact l.entries_retire.1.trans (List.append_nil _).symm
  | _ => exact (List.append_nil _).symm

/-- What happens besides is entered behind what has happened. -/
theorem Ledger.entries_append (before events : List (Event ι)) :
    (Ledger.ofEvents (before ++ events)).accepted =
        (Ledger.ofEvents before).accepted ++ puts events ∧
      (Ledger.ofEvents (before ++ events)).handed =
        (Ledger.ofEvents before).handed ++ handovers events := by
  induction events using List.reverseRecOn with
  | nil =>
    rw [List.append_nil]
    exact ⟨(List.append_nil _).symm, (List.append_nil _).symm⟩
  | append_singleton events event ih =>
    rw [← List.append_assoc, Ledger.ofEvents_append, Ledger.accepted_record, Ledger.handed_record,
      ih.1, ih.2]
    simp only [puts, handovers, List.filterMap_append, List.append_assoc]
    refine ⟨?_, ?_⟩
    · cases hput : event.put? <;> simp [hput]
    · cases hhanded : event.handed? <;> simp [hhanded]

end Events

/-- The bench with more buffers behind those that wait, and more of them counted. -/
def Bench.ahead (b : Bench σ) (buffers : List (List UInt64)) (count : Nat) : Bench σ :=
  { b with
    queue.buffers := b.queue.buffers ++ buffers
    queue.pending := b.queue.pending + count }

/-- An access that neither takes a buffer out nor brings one in, and that waits for nobody. -/
def Access.isNeutral : Access → Bool
  | .take | .put _ | .countPending | .lock | .joinWorker => false
  | _ => true

section Worker

variable [Device σ]

/-- A neutral access does the same whatever else waits. -/
theorem answer_ahead {access : Access} (hneutral : access.isNeutral = true) {b : Bench σ}
    (hpending : access = .uncountPending → 0 < b.queue.pending) (buffers : List (List UInt64))
    (count : Nat) :
    Bench.answer access (b.ahead buffers count) =
      ((Bench.answer access b).1, (Bench.answer access b).2.ahead buffers count) := by
  cases access with
  | uncountPending =>
    have hpositive := hpending rfl
    have hcount : b.queue.pending + count - 1 = b.queue.pending - 1 + count := by omega
    simp only [Bench.answer, Bench.ahead, hcount]
  | take | put _ | countPending | lock | joinWorker => cases hneutral
  | _ => rfl

omit [Device σ] in
theorem ahead_nil (b : Bench σ) : b.ahead [] 0 = b := by
  rw [Bench.ahead, List.append_nil, Nat.add_zero]

/-- A buffer that is counted now instead of later. -/
theorem ahead_count (b : Bench σ) (buffers : List (List UInt64)) (count : Nat) :
    (Bench.answer .countPending b).2.ahead buffers count = b.ahead buffers (count + 1) := by
  have hpending : b.queue.pending + 1 + count = b.queue.pending + (count + 1) := by omega
  simp only [Bench.answer, Bench.ahead, hpending]

/-- A buffer that is put in now instead of later. -/
theorem ahead_put (b : Bench σ) (buffer : List UInt64) (buffers : List (List UInt64))
    (count : Nat) :
    (Bench.answer (.put buffer) b).2.ahead buffers count = b.ahead (buffer :: buffers) count := by
  simp only [Bench.answer, Bench.ahead, List.append_assoc, List.singleton_append]

theorem uses_onLink {α : Type} (p : Proc Link.io α) :
    (onLink p).Uses fun access : Access => access.isNeutral = true := by
  induction p with
  | ret result => trivial
  | act access next ih => exact fun reply => ⟨(), rfl, ih reply⟩

/-- Sending a buffer neither puts nor takes one. -/
theorem uses_transmit (buffer : List UInt64) :
    (transmit buffer).Uses fun access : Access => access.isNeutral = true := by
  intro engine
  refine ⟨(), rfl, (uses_onLink (engine.sendSplit buffer)).bind ?_⟩
  rintro (cause | _)
  · intro _
    refine ⟨(), rfl, fun _ => ⟨(), rfl, ?_⟩⟩
    exact Proc.Follows.ite (fun _ _ => ⟨(), rfl, uses_onLink Engine.halt⟩) fun _ => trivial
  · trivial

/-- What a worker is about, as a bench has it: the signals that it has still to make in its turn,
    and the bench that the turn leaves. -/
inductive Working (b : Bench σ) (program : Option (Proc io Unit)) :
    List Signal → Bench σ → Prop where
  | idle (hover : program = none) : Working b program [] b
  /-- It has seen that the queue runs and is about to take a buffer. -/
  | looking (bound : Nat) (hprogram : program = some (handleBuffer >>= fun _ => worker bound))
      (hrunning : b.queue.running = true) : Working b program [] b
  /-- It has this left to do of a turn. -/
  | amid (bound : Nat) (turn : Proc io Unit)
      (hprogram : program = some (turn >>= fun _ => worker bound))
      (hneutral : turn.Uses fun access : Access => access.isNeutral = true) {owed : List Signal}
      {after : Bench σ} (hcomes : turn.Comes b owed () after) : Working b program owed after

theorem uses_afterTaking (buffer : List UInt64) :
    (afterTaking buffer).Uses fun access : Access => access.isNeutral = true := by
  intro _
  refine ⟨(), rfl, ?_⟩
  rintro (_ | _)
  · exact ⟨(), rfl, fun _ => ⟨(), rfl, trivial⟩⟩
  · exact ⟨(), rfl, uses_transmit buffer⟩

theorem uses_handleBuffer :
    handleBuffer.Uses fun access : Access => access.isNeutral = true ∨ access = .take := by
  refine fun taken => ⟨(), .inr rfl, ?_⟩
  cases taken with
  | none => trivial
  | some buffer => exact (uses_afterTaking buffer).mono fun _ => .inl

theorem uses_worker (bound : Nat) :
    (worker bound).Uses fun access : Access => access.isNeutral = true ∨ access = .take := by
  induction bound with
  | zero => trivial
  | succ bound ih =>
    rintro (_ | _)
    · exact ⟨(), .inl rfl, trivial⟩
    · exact ⟨(), .inl rfl, uses_handleBuffer.bind fun _ => ih⟩

/-- With this left to do after an access, a worker makes the signals that it had still to make and
    those of the turns that it has begun since. -/
def GoesOn (b : Bench σ) (buffers : List (List UInt64)) (count : Nat) (access : Access)
    (rest : Proc io Unit) (owed : List Signal) (after : Bench σ) : Prop :=
  ∃ made owed' after', Turns after made after' ∧
    Working ((Bench.answer access b).2.ahead buffers count) (some rest) owed' after' ∧
    owed ++ made = access.signals ++ owed'

section Accesses

variable {b : Bench σ} {buffers : List (List UInt64)} {count : Nat}

/-- A look whether the queue runs begins no turn. -/
theorem goesOn_running (bound : Nat) :
    GoesOn b buffers count .running
      (if b.queue.running then handleBuffer >>= fun _ => worker bound else return ()) []
      (b.ahead buffers count) := by
  refine ⟨[], [], _, .done _, ?_, rfl⟩
  cases hrunning : b.queue.running with
  | true => exact .looking bound (congrArg some (if_pos rfl)) hrunning
  | false =>
    exact .amid 0 (.ret ()) (congrArg some (if_neg Bool.false_ne_true)) trivial (comes_ret _ _)

/-- A take begins a turn if a buffer waits. -/
theorem goesOn_take (hrunning : b.queue.running = true) (bound : Nat) :
    GoesOn b buffers count .take
      ((match (Bench.answer .take b).1 with
        | none => return ()
        | some buffer => afterTaking buffer) >>= fun _ => worker bound) []
      (b.ahead buffers count) := by
  unfold GoesOn
  rw [answer_take]
  cases hbuffers : b.queue.buffers with
  | nil =>
    have hsame : ({ b with queue.buffers := [] } : Bench σ) = b := by rw [← hbuffers]
    refine ⟨[], [], _, .done _, .amid bound (.ret ()) rfl trivial ?_, rfl⟩
    change (ret () : Proc io Unit).Comes
      (({ b with queue.buffers := [] } : Bench σ).ahead _ _) [] () _
    rw [hsame]
    exact comes_ret _ _
  | cons buffer rest =>
    have hwaiting : (b.ahead buffers count).queue.buffers = buffer :: (rest ++ buffers) :=
      congrArg (· ++ buffers) hbuffers
    have hruns : (b.ahead buffers count).queue.running = true := hrunning
    have hturn := Turns.turn hruns hwaiting (.done _)
    refine ⟨_, _, _, hturn, .amid bound (afterTaking buffer) rfl (uses_afterTaking buffer)
      (comes_afterTaking hruns buffer (rest ++ buffers)), ?_⟩
    exact List.append_nil _

/-- A neutral access goes on with a turn. -/
theorem goesOn_neutral {access : Access} {next : access.Reply → Proc io Unit}
    (hneutral : (Proc.act (I := io) access next).Uses fun access : Access =>
      access.isNeutral = true)
    (hpending : access = .uncountPending → 0 < b.queue.pending) {owed : List Signal}
    {after : Bench σ}
    (hcomes : (Proc.act (I := io) access next).Comes (b.ahead buffers count) owed () after)
    (bound : Nat) :
    GoesOn b buffers count access (next (Bench.answer access b).1 >>= fun _ => worker bound) owed
      after := by
  obtain ⟨_, hkeeps, hrest⟩ := hneutral (Bench.answer access b).1
  obtain ⟨hrun, rfl⟩ := hcomes
  have hanswer := answer_ahead hkeeps hpending buffers count
  have hrun' : Bench.run (Bench.answer access (b.ahead buffers count)).2
      (next (Bench.answer access (b.ahead buffers count)).1) = ((), after) := hrun
  rw [hanswer] at hrun'
  refine ⟨[], _, after, .done _, .amid bound (next _) rfl hrest ⟨hrun', rfl⟩, ?_⟩
  rw [List.append_nil]
  change Access.signals access ++
    (next (Bench.answer access (b.ahead buffers count)).1).signals
      (Bench.answer access (b.ahead buffers count)).2 = _
  rw [hanswer]

/-- An access of the worker goes on with its turn, or begins the next. -/
theorem Working.work {access : Access} {next : access.Reply → Proc io Unit} {owed : List Signal}
    {after : Bench σ}
    (hworking : Working (b.ahead buffers count) (some (.act access next)) owed after)
    (hpending : access = .uncountPending → 0 < b.queue.pending) :
    GoesOn b buffers count access (next (Bench.answer access b).1) owed after := by
  cases hworking with
  | idle hover => exact nomatch hover
  | looking bound hprogram hrunning =>
    cases Option.some.inj hprogram
    have hruns : b.queue.running = true := hrunning
    exact goesOn_take hruns bound
  | amid bound turn hprogram hneutral hcomes =>
    cases turn with
    | ret _ =>
      obtain ⟨hrun, rfl⟩ := hcomes
      obtain ⟨-, rfl⟩ := Prod.mk.inj hrun
      cases bound with
      | zero => exact nomatch hprogram
      | succ bound =>
        have hlooks : Proc.act (I := io) access next = .act Access.running fun running : Bool =>
            if running then handleBuffer >>= fun _ => worker bound else return () :=
          Option.some.inj hprogram
        cases hlooks
        exact goesOn_running bound
    | act access' next' =>
      have hacts : Proc.act (I := io) access next = .act access' fun reply =>
          next' reply >>= fun _ => worker bound := Option.some.inj hprogram
      cases hacts
      exact goesOn_neutral hneutral hpending hcomes bound

end Accesses

/-- A worker that is about to look whether the queue runs has nothing left to do of a turn. -/
theorem Working.eq_of_worker {b after : Bench σ} {bound : Nat} {owed : List Signal}
    (hworking : Working b (some (worker bound)) owed after) : owed = [] ∧ after = b := by
  cases hworking with
  | idle hover => exact nomatch hover
  | looking bound' hprogram hrunning => exact ⟨rfl, rfl⟩
  | amid bound' turn hprogram hneutral hcomes =>
    cases turn with
    | ret _ =>
      obtain ⟨hrun, rfl⟩ := hcomes
      exact ⟨rfl, (Prod.mk.inj hrun).2.symm⟩
    | act access next =>
      cases bound with
      | zero => exact nomatch hprogram
      | succ bound =>
        have hlooks : Proc.act (I := io) Access.running (fun running : Bool =>
              if running then handleBuffer >>= fun _ => worker bound else return ()) =
            .act access fun reply => next reply >>= fun _ => worker bound' :=
          Option.some.inj hprogram
        injection hlooks with haccess hnext
        subst haccess
        -- If it ran, it would go on to take a buffer, which is not what is left of a turn.
        have htakes := congrFun (eq_of_heq hnext) true
        obtain ⟨_, -, hrest⟩ := hneutral true
        generalize next true = rest at htakes hrest
        cases rest with
        | ret _ => cases bound' <;> exact nomatch htakes
        | act access next =>
          injection htakes with htake
          obtain ⟨_, hkeeps, -⟩ := hrest (Bench.answer access b).1
          rw [← htake] at hkeeps
          exact nomatch hkeeps

/-- Where there is no worker, nothing is left to do of a turn. -/
theorem Working.eq_of_none {b after : Bench σ} {owed : List Signal}
    (hworking : Working b none owed after) : owed = [] ∧ after = b := by
  cases hworking with
  | idle hover => exact ⟨rfl, rfl⟩
  | looking bound hprogram hrunning => exact nomatch hprogram
  | amid bound turn hprogram hneutral hcomes => exact nomatch hprogram

end Worker

section Clients

/-- A client that is in no call, or hands a buffer over. -/
def Hands : Option (Proc io Unit) → Prop
  | none => True
  | some program => program.Uses fun access : Access =>
      access = .countPending ∨ ∃ buffer, access = .put buffer

/-- Handing a buffer over is what a client that hands buffers over does. -/
theorem hands_enqueue (buffer : List UInt64) : Hands (some (Call.enqueue buffer).program) := by
  have henqueue : (enqueue buffer).Uses fun access : Access =>
      access = .countPending ∨ ∃ buffer, access = .put buffer := by
    unfold enqueue
    cases buffer.isEmpty with
    | true => trivial
    | false => exact fun _ => ⟨(), .inl rfl, fun _ => ⟨(), .inr ⟨buffer, rfl⟩, trivial⟩⟩
  exact henqueue.bind fun _ => trivial

end Clients

namespace System

variable [DecidableEq ι] [Device σ] {s s' : System ι σ} {event : Event ι} {events : List (Event ι)}

/-- The bench with all that clients will have put in and counted once all this has happened. -/
def ahead (s : System ι σ) (events : List (Event ι)) : Bench σ :=
  s.bench.ahead ((puts events).map Prod.snd) (events.countP Event.isCount)

/-- What a step does that is one of clients that hand buffers over or of the worker. -/
inductive Proceeds (s : System ι σ) (events : List (Event ι)) : Event ι → System ι σ → Prop where
  | client {event : Event ι} {s' : System ι σ} (hworker : s'.worker = s.worker)
      (hsignals : event.signals = []) (hahead : s'.ahead events = s.ahead (event :: events)) :
      Proceeds s events event s'
  | work {access : Access} {next : access.Reply → Proc io Unit}
      (hnext : s.worker = some (.act access next)) :
      Proceeds s events (.work access (Bench.answer access s.bench).1)
        { s.answered access with worker := some (next (Bench.answer access s.bench).1) }
  | retire (hover : s.worker = some (.ret ())) :
      Proceeds s events .retire { s with worker := none }

omit [Device σ] in
theorem hands_setClient (hclients : ∀ client, Hands (s.clients client)) (client : ι)
    {program : Option (Proc io Unit)} (hprogram : Hands program) (other : ι) :
    Hands ((s.setClient client program).clients other) := by
  simp only [setClient]
  split
  · exact hprogram
  · exact hclients other

/-- While clients only hand buffers over, each step hands one on, takes one or does neither. -/
theorem Step.proceeds (hstep : Step s event s') (hhanding : event.isHanding = true)
    (hclients : ∀ client, Hands (s.clients client)) (events : List (Event ι)) :
    (∀ client, Hands (s'.clients client)) ∧ Proceeds s events event s' := by
  cases hstep with
  | @call client call hidle =>
    cases call with
    | enqueue buffer =>
      exact ⟨hands_setClient hclients client (hands_enqueue buffer), .client rfl rfl rfl⟩
    | _ => exact nomatch hhanding
  | @access client access next bound hnext hready =>
    have huses := hclients client
    rw [hnext] at huses
    obtain ⟨_, haccess, hrest⟩ := huses (Bench.answer access s.bench).1
    refine ⟨hands_setClient hclients client hrest, ?_⟩
    obtain rfl | ⟨buffer, rfl⟩ := haccess
    · have hcount : (Event.access client .countPending () :: events).countP Event.isCount =
          events.countP Event.isCount + 1 := List.countP_cons_of_pos rfl
      exact .client rfl rfl ((ahead_count ..).trans (congrArg (s.bench.ahead _) hcount.symm))
    · exact .client rfl rfl (ahead_put ..)
  | @finish client hover => exact ⟨hands_setClient hclients client trivial, .client rfl rfl rfl⟩
  | work hnext hready => exact ⟨hclients, .work hnext⟩
  | retire hover => exact ⟨hclients, .retire hover⟩
  | outside link line => exact nomatch hhanding

/-- As far as a run goes, the turns that the worker takes are those that it takes if all that is put
    in meanwhile has been there from the start. -/
theorem Run.turns {engine : Engine} {link : σ} {line : ResetLine.Probe} {before : List (Event ι)}
    (hcreated : Run (create engine link line) before s) (hrun : Run s events s')
    (hhanding : ∀ event ∈ events, event.isHanding = true)
    (hclients : ∀ client, Hands (s.clients client)) {owed : List Signal} {after : Bench σ}
    (hworking : Working (s.ahead events) s.worker owed after) :
    ∃ made owed' after', Turns after made after' ∧ Working s'.bench s'.worker owed' after' ∧
      owed ++ made = events.flatMap Event.signals ++ owed' := by
  induction events generalizing s before owed after with
  | nil =>
    obtain rfl := hrun.eq_of_nil
    have hahead : s'.ahead [] = s'.bench := ahead_nil _
    rw [hahead] at hworking
    exact ⟨[], owed, after, .done _, hworking, List.append_nil _⟩
  | cons event events ih =>
    obtain ⟨between, hstep, hrest⟩ := hrun.exists_of_cons
    obtain ⟨hevent, hevents⟩ := List.forall_mem_cons.1 hhanding
    obtain ⟨hclients', hproceeds⟩ := hstep.proceeds hevent hclients events
    have hcreated' := hcreated.step hstep
    cases hproceeds with
    | client hworker hsignals hahead =>
      rw [← hahead, ← hworker] at hworking
      rw [List.flatMap_cons, hsignals, List.nil_append]
      exact ih hcreated' hrest hevents hclients' hworking
    | retire hover =>
      rw [hover] at hworking
      have hover : Working _ (some (Queue.worker 0)) _ _ := hworking
      obtain ⟨rfl, rfl⟩ := hover.eq_of_worker
      exact ih hcreated' hrest hevents hclients' (.idle rfl)
    | @work access next hnext =>
      rw [hnext] at hworking
      have hpending : access = .uncountPending → 0 < s.bench.queue.pending := by
        rintro rfl
        exact (conserved_of_run hcreated).pending_pos ⟨next, .inr hnext⟩
      obtain ⟨made, owed', after', hturns, hworking', hsignals⟩ := hworking.work hpending
      obtain ⟨made', owed'', after'', hturns', hworking'', hsignals'⟩ :=
        ih hcreated' hrest hevents hclients' hworking'
      refine ⟨made ++ made', owed'', after'', hturns.trans hturns', hworking'', ?_⟩
      rw [← List.append_assoc, hsignals, List.append_assoc, hsignals', List.flatMap_cons,
        List.append_assoc]
      rfl

/-- Nobody is in a call, the worker, if there is one, is about to look whether the queue runs, and
    no buffer waits while it does. -/
structure Settled (s : System ι σ) : Prop where
  clients : ∀ client, s.clients client = none
  worker : s.worker = none ∨ ∃ bound, s.worker = some (Queue.worker bound)
  buffers : s.bench.queue.running = true → s.bench.queue.buffers = []

theorem working_of_idle {b : Bench σ} {program : Option (Proc io Unit)}
    (hidle : program = none ∨ ∃ bound, program = some (Queue.worker bound)) :
    Working b program [] b := by
  obtain hnone | ⟨bound, hworker⟩ := hidle
  · exact .idle hnone
  · exact .amid bound (.ret ()) hworker trivial (comes_ret _ _)

/-- A settled queue that is handed buffers until it is settled again goes through a row of turns
    from where they all wait, and makes no other signals. -/
theorem turns_of_run {engine : Engine} {link : σ} {line : ResetLine.Probe}
    {before : List (Event ι)} (hcreated : Run (create engine link line) before s)
    (hsettled : s.Settled) (hrun : Run s events s')
    (hhanding : ∀ event ∈ events, event.isHanding = true) (hsettled' : s'.Settled) :
    Turns (s.ahead events) (events.flatMap Event.signals) s'.bench := by
  have hclients (client : ι) : Hands (s.clients client) := by
    rw [hsettled.clients]
    trivial
  obtain ⟨made, owed, after, hturns, hworking, hsignals⟩ :=
    hcreated.turns hrun hhanding hclients (working_of_idle hsettled.worker)
  have hrest : owed = [] ∧ after = s'.bench := by
    obtain hnone | ⟨bound, hworker⟩ := hsettled'.worker
    · rw [hnone] at hworking
      exact hworking.eq_of_none
    · rw [hworker] at hworking
      exact hworking.eq_of_worker
  obtain ⟨rfl, rfl⟩ := hrest
  rw [List.append_nil] at hsignals
  rw [← hsignals]
  exact hturns

end System

end DmaLink.Queue
