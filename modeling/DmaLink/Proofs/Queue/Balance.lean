import DmaLink.Proofs.Queue.Holders
import DmaLink.Proofs.Queue.Ledger

namespace DmaLink.Queue

variable {ι σ : Type} [Device σ]

/-- The ledger agrees with the queue. -/
structure Ledger.Balances (l : Ledger ι) (q : Queue) : Prop where
  accepted : l.accepted.map Prod.snd = l.settled.map Prod.fst ++ l.hand.toList ++ q.buffers
  reached : l.reached =
    (l.settled.filter fun entry => entry.2.isBegun).map Prod.fst ++ l.hand.begun
  dropped : q.dropped = l.settled.countP fun entry => entry.2.isDropped
  fates : ∀ entry ∈ l.settled, entry.2.Holds entry.1

namespace Ledger

variable {l : Ledger ι} {q q' : Queue} {b : Bench σ}

/-- A balance does not depend on what else there is in the queue. -/
theorem Balances.of_eq (hbalances : l.Balances q) (hbuffers : q'.buffers = q.buffers)
    (hdropped : q'.dropped = q.dropped) : l.Balances q' :=
  ⟨hbuffers ▸ hbalances.accepted, hbalances.reached, hdropped ▸ hbalances.dropped,
    hbalances.fates⟩

theorem Balances.withHand (hbalances : l.Balances q) {hand : Hand}
    (hsame : hand.toList = l.hand.toList) (hbegun : hand.begun = l.hand.begun)
    (hbuffers : q'.buffers = q.buffers) (hdropped : q'.dropped = q.dropped) :
    ({ l with hand } : Ledger ι).Balances q' := by
  refine ⟨?_, ?_, hdropped ▸ hbalances.dropped, hbalances.fates⟩
  · rw [hbuffers, hsame]
    exact hbalances.accepted
  · rw [hbegun]
    exact hbalances.reached

/-- A fate that holds can be written down behind those that do. -/
theorem Balances.fates_append (hbalances : l.Balances q) {buffer : List UInt64} {fate : Fate}
    (hholds : fate.Holds buffer) :
    ∀ entry ∈ l.settled ++ [(buffer, fate)], entry.2.Holds entry.1 := by
  intro entry hentry
  rcases List.mem_append.1 hentry with hold | hnew
  · exact hbalances.fates entry hold
  · obtain rfl := List.mem_singleton.1 hnew
    exact hholds

/-- A buffer that leaves the worker's hands is entered behind those that are done with. -/
theorem Balances.settle (hbalances : l.Balances q) {buffer : List UInt64} {fate : Fate}
    (hhand : l.hand.toList = [buffer])
    (hbegun : l.hand.begun = if fate.isBegun then [buffer] else [])
    (hbuffers : q'.buffers = q.buffers) (hdropped : q'.dropped = q.dropped + fate.isDropped.toNat)
    (hholds : fate.Holds buffer) : (l.settle buffer fate).Balances q' := by
  have hsettled := hbalances.fates_append hholds
  obtain ⟨haccepted, hreached, hcount, -⟩ := hbalances
  rw [hhand] at haccepted
  rw [hbegun] at hreached
  refine ⟨?_, ?_, ?_, hsettled⟩
  · simp only [Ledger.settle, haccepted, hbuffers, List.map_append, List.map_cons, List.map_nil,
      Hand.toList, List.append_nil]
  · simp only [Ledger.settle, hreached, List.filter_append, List.map_append, Hand.begun,
      List.append_nil]
    cases hbegin : fate.isBegun <;> simp [hbegin]
  · simp only [Ledger.settle, hdropped, hcount, List.countP_append]
    cases hdrop : fate.isDropped <;> simp [hdrop]

/-- Whatever the worker does, the books stay balanced. -/
theorem Balances.work (hbalances : l.Balances b.queue) {access : Access} {reply : access.Reply}
    {hand : Hand} (hmove : Hand.Moves l.hand access reply hand)
    (hreply : (Bench.answer access b).1 = reply) :
    (l.work access reply).hand = hand ∧
      (l.work access reply).Balances (Bench.answer access b).2.queue := by
  obtain ⟨handed, accepted, settled, before, reached⟩ := l
  cases hmove with
  | look running => exact ⟨rfl, hbalances⟩
  | takeNone =>
    exact ⟨rfl, hbalances.of_eq (waiting_of_take_eq_none hreply) (dropped_take b)⟩
  | takeSome buffer =>
    refine ⟨rfl, ?_, hbalances.reached, ?_, hbalances.fates⟩
    · refine hbalances.accepted.trans ?_
      rw [waiting_of_take_eq_some hreply]
      simp [Hand.toList, work]
    · rw [dropped_take]
      exact hbalances.dropped
  | uncount buffer => exact ⟨rfl, hbalances.withHand rfl rfl rfl rfl⟩
  | judge buffer running => exact ⟨rfl, hbalances.withHand rfl rfl rfl rfl⟩
  | refuse buffer => exact ⟨rfl, hbalances.settle rfl rfl rfl rfl trivial⟩
  | begin buffer engine =>
    refine ⟨rfl, hbalances.accepted, ?_, hbalances.dropped, hbalances.fates⟩
    have hreached : reached = _ ++ [] := hbalances.reached
    rw [List.append_nil] at hreached
    exact congrArg (· ++ [buffer]) hreached
  | send buffer engine log access reply => exact ⟨rfl, hbalances.withHand rfl rfl rfl rfl⟩
  | sent hleads running => exact ⟨rfl, hbalances.settle rfl rfl rfl rfl hleads⟩
  | fail hleads => exact ⟨rfl, hbalances.settle rfl rfl rfl rfl ⟨_, hleads⟩⟩
  | record cause => exact ⟨rfl, hbalances.of_eq rfl rfl⟩
  | stop => exact ⟨rfl, hbalances.of_eq rfl rfl⟩
  | halt access reply => exact ⟨rfl, hbalances⟩

/-- A worker that is over has nothing in its hands. -/
theorem Balances.retire (hbalances : l.Balances q) (hidle : l.hand.Idle) :
    l.retire.hand = .empty ∧ l.retire.Balances q := by
  obtain ⟨handed, accepted, settled, hand, reached⟩ := l
  cases hidle with
  | empty => exact ⟨rfl, hbalances⟩
  | sent hleads => exact ⟨rfl, hbalances.settle rfl rfl rfl rfl hleads⟩

theorem serve_of_plain (l : Ledger ι) (client : ι) {access : Access} {reply : access.Reply}
    (hplain : access.Plain) : l.serve client access reply = l := by
  cases hplain <;> rfl

/-- What an access of a client does to the ledger and the queue. A client that takes a buffer has
    waited for the worker to be over, which then has nothing in its hands. -/
theorem Balances.serve (hbalances : l.Balances b.queue) {client : ι} {phase phase' : Phase}
    {access : Access} {reply : access.Reply} (hmove : Phase.Moves phase access reply phase')
    (hreply : (Bench.answer access b).1 = reply)
    (hempty : phase.joined = true → l.hand = .empty) :
    (l.serve client access reply).hand = l.hand ∧
      (l.serve client access reply).Balances (Bench.answer access b).2.queue := by
  have hdiscarded (buffer : List UInt64) :=
    hbalances.fates_append (show Fate.discarded.Holds buffer from trivial)
  obtain ⟨haccepted, hreached, hdropped, hfates⟩ := hbalances
  cases hmove with
  | plain hplain _ =>
    obtain ⟨hwaiting, -, hsame, -⟩ := hplain.answer b
    rw [serve_of_plain l client hplain]
    refine ⟨rfl, ⟨hwaiting ▸ haccepted, hreached, hsame ▸ hdropped, hfates⟩⟩
  | count buffer => exact ⟨rfl, haccepted, hreached, hdropped, hfates⟩
  | put buffer =>
    refine ⟨rfl, ?_, hreached, hdropped, hfates⟩
    simp only [Ledger.serve, Bench.answer, List.map_append, haccepted, List.map_cons, List.map_nil,
      List.append_assoc]
  | lock => exact ⟨rfl, haccepted, hreached, hdropped, hfates⟩
  | unlock joined => exact ⟨rfl, haccepted, hreached, hdropped, hfates⟩
  | join joined => exact ⟨rfl, haccepted, hreached, hdropped, hfates⟩
  | startWorker => exact ⟨rfl, haccepted, hreached, hdropped, hfates⟩
  | takeNone =>
    refine ⟨rfl, ?_, hreached, (dropped_take b).trans hdropped, hfates⟩
    rw [waiting_of_take_eq_none hreply]
    exact haccepted
  | takeSome buffer =>
    have hhand := hempty rfl
    rw [waiting_of_take_eq_some hreply, hhand] at haccepted
    refine ⟨rfl, ?_, ?_, ?_, hdiscarded buffer⟩
    · simp only [Ledger.serve, haccepted, hhand, Hand.toList, List.map_append, List.map_cons,
        List.map_nil, List.append_nil, List.append_assoc, List.singleton_append]
    · simp [Ledger.serve, hreached, Fate.isBegun]
    · rw [dropped_take, hdropped, Ledger.serve, List.countP_append]
      rfl
  | uncount => exact ⟨rfl, haccepted, hreached, hdropped, hfates⟩

/-- The worker hands nothing over and accepts nothing. -/
theorem entries_work (l : Ledger ι) (access : Access) (reply : access.Reply) :
    (l.work access reply).handed = l.handed ∧ (l.work access reply).accepted = l.accepted := by
  unfold work
  split <;> exact ⟨rfl, rfl⟩

theorem entries_retire (l : Ledger ι) :
    l.retire.handed = l.handed ∧ l.retire.accepted = l.accepted := by
  unfold retire
  split <;> exact ⟨rfl, rfl⟩

end Ledger

section Worker

variable {b : Bench σ} {hand hand' : Hand} {access : Access} {reply : access.Reply}

theorem Hand.Moves.locked_answer (hmove : hand.Moves access reply hand') (b : Bench σ) :
    (Bench.answer access b).2.queue.locked = b.queue.locked := by
  cases hmove with
  | takeNone => exact locked_take b
  | takeSome buffer => exact locked_take b
  | _ => rfl

/-- Whatever the worker does, the count of what is pending stays right. -/
theorem Counting.work {phases : ι → Phase}
    (hcounting : Counting phases b.queue.pending b.queue.buffers.length hand.owed)
    (hmove : hand.Moves access reply hand') (hreply : (Bench.answer access b).1 = reply) :
    Counting phases (Bench.answer access b).2.queue.pending
      (Bench.answer access b).2.queue.buffers.length hand'.owed := by
  obtain ⟨midway, hnodup, hmem, hpending⟩ := hcounting
  refine ⟨midway, hnodup, hmem, ?_⟩
  cases hmove with
  | takeNone =>
    rw [pending_take, waiting_of_take_eq_none hreply]
    exact hpending
  | takeSome buffer =>
    rw [waiting_of_take_eq_some hreply] at hpending
    rw [pending_take, hpending]
    simp only [List.length_cons, Hand.owed]
    omega
  | uncount buffer =>
    simp only [Hand.owed, Bench.answer] at hpending ⊢
    omega
  | _ => exact hpending

end Worker

section Order

variable [DecidableEq ι] {l : Ledger ι} {phases : ι → Phase}

/-- The buffers of one client, in their order. -/
def own (client : ι) (entries : List (ι × List UInt64)) : List (List UInt64) :=
  (entries.filter fun entry => entry.1 = client).map Prod.snd

theorem own_append (client : ι) (entries more : List (ι × List UInt64)) :
    own client (entries ++ more) = own client entries ++ own client more := by
  rw [own, List.filter_append, List.map_append]
  rfl

theorem own_single (client other : ι) (buffer : List UInt64) :
    own other [(client, buffer)] = if client = other then [buffer] else [] := by
  unfold own
  by_cases hsame : client = other <;> simp [hsame]

theorem mem_own {client : ι} {buffer : List UInt64} {entries : List (ι × List UInt64)} :
    buffer ∈ own client entries ↔ (client, buffer) ∈ entries := by
  simp [own]

/-- Every client has put in what it has begun to hand over, but for the buffer that it is about to
    put in. -/
structure Ledger.InOrder (l : Ledger ι) (phases : ι → Phase) : Prop where
  own_eq : ∀ client, own client l.handed = own client l.accepted ++ (phases client).offered
  handed_ne : ∀ entry ∈ l.handed, entry.2 ≠ []

/-- No empty buffer is accepted. -/
theorem Ledger.InOrder.accepted_ne (horder : l.InOrder phases) {entry : ι × List UInt64}
    (hentry : entry ∈ l.accepted) : entry.2 ≠ [] := by
  have hown : entry.2 ∈ own entry.1 l.handed := by
    rw [horder.own_eq]
    exact List.mem_append_left _ (mem_own.2 hentry)
  exact horder.handed_ne _ (mem_own.1 hown)

theorem Ledger.InOrder.of_eq {l' : Ledger ι} (horder : l.InOrder phases)
    (hentries : l'.handed = l.handed ∧ l'.accepted = l.accepted) : l'.InOrder phases := by
  obtain ⟨hhanded, haccepted⟩ := hentries
  refine ⟨fun client => ?_, ?_⟩
  · rw [hhanded, haccepted]
    exact horder.own_eq client
  · rw [hhanded]
    exact horder.handed_ne

/-- A client goes on without putting anything in. -/
theorem Ledger.InOrder.set (horder : l.InOrder phases) {client : ι} {phase : Phase}
    (hoffered : phase.offered = (phases client).offered) :
    l.InOrder (setPhase phases client phase) := by
  refine ⟨fun other => ?_, horder.handed_ne⟩
  by_cases hsame : other = client
  · rw [hsame, setPhase_self, hoffered, horder.own_eq]
  · rw [setPhase_of_ne hsame, horder.own_eq]

/-- Whatever a client does, its buffers are accepted in the order they were handed over. -/
theorem Ledger.InOrder.serve (horder : l.InOrder phases) {client : ι} {phase : Phase}
    {access : Access} {reply : access.Reply}
    (hmove : Phase.Moves (phases client) access reply phase) :
    (l.serve client access reply).InOrder (setPhase phases client phase) := by
  generalize hphase : phases client = before at hmove
  cases hmove with
  | plain hplain hcalm =>
    rw [l.serve_of_plain client hplain]
    exact horder.set (hphase ▸ rfl)
  | put buffer =>
    refine ⟨fun other => ?_, horder.handed_ne⟩
    have hown := horder.own_eq other
    simp only [Ledger.serve, own_append, own_single]
    by_cases hsame : client = other
    · rw [← hsame] at hown ⊢
      rw [hown, hphase, setPhase_self, if_pos rfl]
      exact (List.append_nil _).symm
    · rw [setPhase_of_ne (Ne.symm hsame), if_neg hsame, List.append_nil, hown]
  | count buffer => exact horder.set (hphase ▸ rfl)
  | lock => exact horder.set (hphase ▸ rfl)
  | unlock joined => exact horder.set (hphase ▸ rfl)
  | join joined => exact horder.set (hphase ▸ rfl)
  | startWorker => exact horder.set (hphase ▸ rfl)
  | takeNone => exact horder.set (hphase ▸ rfl)
  | takeSome buffer =>
    have hset : l.InOrder (setPhase phases client .owing) := horder.set (hphase ▸ rfl)
    exact ⟨hset.own_eq, hset.handed_ne⟩
  | uncount => exact horder.set (hphase ▸ rfl)

/-- A client that offers a buffer offers it behind all the others. -/
theorem Ledger.InOrder.offer (horder : l.InOrder phases) {client : ι}
    (hfree : phases client = .free) {buffer : List UInt64} (hbuffer : buffer ≠ []) :
    ({ l with handed := l.handed ++ [(client, buffer)] } : Ledger ι).InOrder
      (setPhase phases client (.offering buffer)) := by
  refine ⟨fun other => ?_, fun entry hentry => ?_⟩
  · have hown := horder.own_eq other
    simp only [own_append, own_single]
    by_cases hsame : client = other
    · rw [← hsame] at hown ⊢
      rw [hown, hfree, setPhase_self, if_pos rfl]
      simp [Phase.offered]
    · rw [setPhase_of_ne (Ne.symm hsame), if_neg hsame, List.append_nil, hown]
  · rcases List.mem_append.1 hentry with hold | hnew
    · exact horder.handed_ne entry hold
    · obtain rfl := List.mem_singleton.1 hnew
      exact hbuffer

theorem Ledger.InOrder.begin (horder : l.InOrder phases) {client : ι}
    (hfree : phases client = .free) (call : Call) :
    (l.begin client call).InOrder (setPhase phases client call.phase) := by
  have hsame : l.InOrder (setPhase phases client .free) := by
    rw [← hfree, setPhase_eq_self]
    exact horder
  cases call with
  | enqueue buffer =>
    by_cases hempty : buffer.isEmpty = true
    · simp only [Ledger.begin, Call.phase, if_pos hempty]
      exact hsame
    · simp only [Ledger.begin, Call.phase, if_neg hempty]
      exact horder.offer hfree fun hnil => hempty (List.isEmpty_iff.2 hnil)
  | _ => exact hsame

end Order

end DmaLink.Queue
