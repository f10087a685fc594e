import DmaLink.Proofs.Engine.Traces
import DmaLink.Script

namespace DmaLink

/-- A device whose source window is memory. What is stored stays there at least until the address of
    the next burst has been written; the window may change during any other access, but never in
    its size. -/
structure Device.Backs {σ : Type} [Device σ] (source : σ → Window) : Prop where
  reply_store : ∀ start words (link : σ),
    (Device.answer (.window .mm2s (.store start words)) link).1 =
      ((source link).store start words).1
  source_store : ∀ start words (link : σ),
    source (Device.answer (.window .mm2s (.store start words)) link).2 =
      ((source link).store start words).2
  source_address : ∀ value (link : σ),
    source (Device.answer (.writeRegister Channel.mm2s.address value) link).2 = source link
  size_answer : ∀ (access : Link.Access) (link : σ),
    (source (Device.answer access link).2).size = (source link).size

/-- Words that fit the window are stored there. -/
theorem Device.Backs.stores {σ : Type} [Device σ] {source : σ → Window}
    (hbacks : Device.Backs source) (start : Nat) (words : List UInt64) (link : σ)
    (hfits : start + words.length ≤ (source link).size) :
    (Device.answer (.window .mm2s (.store start words)) link).1 = (.ok () : Except LinkError Unit) ∧
      (source (Device.answer (.window .mm2s (.store start words)) link).2).words =
        Memory.put (source link).words start words := by
  have hstore := Window.store_eq_ok_iff.2 ⟨hfits, rfl⟩
  refine ⟨(hbacks.reply_store start words link).trans (congrArg Prod.fst hstore), ?_⟩
  rw [hbacks.source_store, hstore]

/-- A program leaves the size of the source window as it is. -/
theorem Device.Backs.size_run {α σ : Type} [Device σ] {source : σ → Window}
    (hbacks : Device.Backs source) (p : Proc Link.io α) (link : σ) :
    (source (p.run Device.answer link).2).size = (source link).size :=
  Proc.run_of_answer (motive := fun state => (source state).size = (source link).size)
    (fun access state hstate => (hbacks.size_answer access state).trans hstate) p rfl

/-- A run of operations leaves the size of the source window as it is. -/
theorem Device.Backs.size_performAll {σ : Type} [Device σ] {source : σ → Window}
    (hbacks : Device.Backs source) (s : Session σ) (operations : List Engine.Operation) :
    (source (s.performAll operations).2.link).size = (source s.link).size :=
  Session.performAll_of_perform
    (motive := fun state => (source state.link).size = (source s.link).size)
    (fun state _ hstate => (hbacks.size_run _ state.link).trans hstate) rfl operations

theorem Script.source_setStatuses (s : Script) (channel : Channel) (statuses : List UInt32) :
    (s.setStatuses channel statuses).source = s.source := by
  cases channel <;> rfl

theorem Script.source_nextStatus (s : Script) (channel : Channel) :
    (s.nextStatus channel).2.source = s.source := by
  unfold nextStatus
  split
  · rfl
  · exact s.source_setStatuses channel _

theorem Script.source_pollDone (s : Script) (channel : Channel) (limit : Nat) :
    (s.pollDone channel limit).2.source = s.source := by
  unfold pollDone
  split
  · exact s.source_nextStatus channel
  · split <;> exact s.source_setStatuses channel _

theorem Script.source_readRegister (s : Script) (offset : Nat) :
    (s.readRegister offset).2.source = s.source := by
  unfold readRegister
  split
  · exact s.source_nextStatus .mm2s
  · split
    · exact s.source_nextStatus .s2mm
    · rfl

/-- A link with given status answers has a memory for its source window. -/
theorem Script.backs : Device.Backs Script.source where
  reply_store _ _ _ := rfl
  source_store _ _ _ := rfl
  source_address _ _ := rfl
  size_answer access s := by
    cases access with
    | readRegister offset => exact congrArg Window.size (s.source_readRegister offset)
    | pollDone channel limit => exact congrArg Window.size (s.source_pollDone channel limit)
    | window channel access => cases channel with
      | s2mm => rfl
      | mm2s => cases access with
        | load start len => rfl
        | store start words => exact s.source.size_store start words
    | _ => rfl

section Pieces

variable {α : Type} {size : Nat}

/-- The piece at a position is the part of the row that begins there. -/
theorem getD_pieces (hsize : 0 < size) (entries : List α) (i : Nat) :
    (pieces size entries).getD i [] = (entries.drop (i * size)).take size := by
  induction i generalizing entries with
  | zero =>
    by_cases hentries : entries = []
    · simp [hentries]
    · simp [pieces_of_ne_nil hsize hentries]
  | succ i ih =>
    by_cases hentries : entries = []
    · simp [hentries]
    · rw [pieces_of_ne_nil hsize hentries, List.getD_cons_succ, ih, List.drop_drop, Nat.succ_mul,
        Nat.add_comm size]

end Pieces

namespace Engine

/-- The accesses that stage a burst in a source half and launch it. -/
def bursting (e : Engine) (half : Half) (words : List UInt64) (mode : OperatingMode) :
    List Link.Access :=
  [.window .mm2s (.store (e.source.offset half) words),
    .window .mm2s (.store (e.source.offset half + words.length) [mode.tag])] ++
    launching .mm2s (e.source.address half) ((words.length + 1) * wordBytes)

/-- The mode of burst `i` of `count`. -/
def modeAt (i count : Nat) : OperatingMode := if i + 1 = count then .complete else .partway

theorem modeAt_cons (i count : Nat) : modeAt (i + 1) (count + 1) = modeAt i count := by
  simp only [modeAt, Nat.add_right_cancel_iff]

/-- The mode of a position does not depend on the bursts ahead of it. -/
theorem modeAt_sub {i count : Nat} (hi : i < count) : modeAt 0 (count - i) = modeAt i count := by
  simp only [modeAt]
  congr 1
  simp only [eq_iff_iff]
  omega

/-- The mode of a burst is the one that its position among the chunks of the payload gives. -/
theorem ofPosition_eq_modeAt {i count : Nat} (hi : i < count) (hcount : count < Size.limit) :
    OperatingMode.ofPosition i count = .ok (modeAt i count) := by
  have hnext : Size.add i 1 = .ok (i + 1) :=
    Size.add_eq_ok_iff.2 ⟨Nat.lt_of_le_of_lt hi hcount, rfl⟩
  have hlast : count ≤ i + 1 ↔ i + 1 = count := by omega
  simp only [OperatingMode.ofPosition, hnext, Except.map, modeAt, hlast]

/-- A burst and its tag have been put into a half of the source window, and nothing else has. -/
def Stages {σ : Type} (e : Engine) (source : σ → Window) (half : Half) (words : List UInt64)
    (mode : OperatingMode) (begun launched : σ) : Prop :=
  (source launched).words =
    Memory.put (source begun).words (e.source.offset half) (words ++ [mode.tag])

variable {σ : Type} {source : σ → Window} {e : Engine} {half : Half} {words : List UInt64}
  {mode : OperatingMode}

/-- A burst that has been put into its half is read back from there with its tag. -/
theorem Stages.extract_eq {begun launched : σ}
    (hstages : e.Stages source half words mode begun launched)
    (hrange : e.source.offset half + (words.length + 1) ≤ (source begun).size) :
    ((source launched).words.extract (e.source.offset half)
      (e.source.offset half + (words.length + 1))).toList = words ++ [mode.tag] := by
  rw [hstages]
  exact Memory.extract_put (by rw [List.length_append, List.length_singleton]) hrange

/-- A burst that is put into its half leaves everything else as it is. -/
theorem Stages.getElem?_eq {begun launched : σ}
    (hstages : e.Stages source half words mode begun launched) {position : Nat}
    (houtside : position < e.source.offset half ∨
      e.source.offset half + (words.length + 1) ≤ position) :
    (source launched).words[position]? = (source begun).words[position]? := by
  rw [hstages, Memory.getElem?_put, List.length_append, List.length_singleton, if_neg (by omega)]

variable [Device σ] {base : UInt32} {link : σ} {size : Nat}

/-- A burst that fits its half is stored there, and its tag behind it. -/
theorem exists_goes_stage (hbacks : Device.Backs source)
    (hfits : e.source.Fits base (source link).size) (half : Half)
    (hwords : words.length + 1 ≤ e.source.halfWords) (mode : OperatingMode) :
    ∃ between after,
      (Proc.onWindow .mm2s (e.source.stage half words (some mode.tag))).Goes link
        [⟨.window .mm2s (.store (e.source.offset half) words), link⟩,
          ⟨.window .mm2s (.store (e.source.offset half + words.length) [mode.tag]), between⟩]
        (.ok (words.length + 1)) after ∧
      e.Stages source half words mode link after := by
  have hoffset := hfits.offset_le half
  have hbounds : checkBounds 0 (words.length + 1) e.source.halfWords = .ok () := by
    rw [checkBounds, if_pos (by omega)]
  obtain ⟨hreply, hstored⟩ := hbacks.stores (e.source.offset half) words link (by omega)
  have hsize := hbacks.size_answer (.window .mm2s (.store (e.source.offset half) words)) link
  generalize hbetween :
    (Device.answer (.window .mm2s (.store (e.source.offset half) words)) link).2 = between
    at hstored hsize
  obtain ⟨hreply', hstored'⟩ := hbacks.stores (e.source.offset half + words.length) [mode.tag]
    between (by rw [List.length_singleton]; omega)
  refine ⟨between, _, ?_, hstored'.trans ?_⟩
  · unfold Split.stage
    simp only [Option.toList, List.length_singleton, hbounds]
    rw [Proc.onWindow_bind]
    apply Proc.Goes.onWindow_bind hreply
    rw [Proc.onWindow_bind, hbetween]
    exact Proc.Goes.onWindow_bind hreply' (Proc.goes_ret _ _)
  · rw [hstored, Memory.put_append]

/-- A burst that fits its half is staged there with its tag, launched and waited for. -/
theorem exists_goes_sendBurst (hmode : e.mode = .poll) (hbacks : Device.Backs source)
    (hfits : e.source.Fits base (source link).size) (half : Half)
    (hwords : words.length + 1 ≤ e.source.halfWords) (mode : OperatingMode) :
    ∃ finished trace after launched,
      (e.sendBurst half words mode).Goes link trace
        (if finished then .ok () else .error (.channelTimeout .mm2s e.limit)) after ∧
      Trace.Shows trace
        (e.bursting half words mode ++ Completion.polling .mm2s e.limit finished) [finished] []
        [(link, launched)] ∧
      e.Stages source half words mode link launched := by
  obtain ⟨between, staged, hstage, hstages⟩ := exists_goes_stage hbacks hfits half hwords mode
  obtain ⟨running, hlaunch⟩ := exists_goes_launch .mm2s (e.source.address half)
    ((words.length + 1) * wordBytes) staged
  obtain ⟨finished, trace, after, hwait, hwaited⟩ :=
    Completion.exists_goes_poll .mm2s e.limit running
  have hlaunched : Trace.Shows
      ([⟨.window .mm2s (.store (e.source.offset half) words), link⟩,
        ⟨.window .mm2s (.store (e.source.offset half + words.length) [mode.tag]), between⟩] ++
        [⟨.writeRegister Channel.mm2s.address (e.source.address half), staged⟩,
          ⟨.writeRegister Channel.mm2s.length (UInt32.ofNat ((words.length + 1) * wordBytes)),
            addressed .mm2s (e.source.address half) staged⟩])
      (e.bursting half words mode) [] []
      [(link, addressed .mm2s (e.source.address half) staged)] := ⟨rfl, rfl, rfl, fun _ => rfl⟩
  have hlater := hlaunch.bind (f := fun _ => Completion.await e.mode .mm2s e.limit)
    (by rw [hmode]; exact hwait)
  refine ⟨finished, _, after, addressed .mm2s (e.source.address half) staged,
    hstage.bind hlater, ?_, ?_⟩
  · rw [← List.append_assoc]
    exact hlaunched.append hwaited
  · rw [Stages, addressed, hbacks.source_address]
    exact hstages

/-- The accesses that stage and launch burst `i` of a row, the first of which goes to `half`. -/
def burstAt (e : Engine) (half : Half) (ws : List (List UInt64)) (i : Nat) : List Link.Access :=
  e.bursting (half.after i) (ws.getD i []) (modeAt i ws.length)

/-- Behind its first burst a row goes on from the other half. -/
theorem burstAt_cons_succ (e : Engine) (half : Half) (words : List UInt64)
    (rest : List (List UInt64)) (i : Nat) :
    e.burstAt half (words :: rest) (i + 1) = e.burstAt half.other rest i := by
  rw [burstAt, burstAt, Half.after, List.getD_cons_succ, List.length_cons, modeAt_cons]

/-- A row is its first burst, in the mode of its position, and then the rest from the other half. -/
theorem sendBursts_cons (e : Engine) (half : Half) (words : List UInt64)
    (rest : List (List UInt64)) :
    e.sendBursts half (words :: rest) =
      (e.sendBurst half words (modeAt 0 (words :: rest).length) >>= fun
        | .error cause => .ret (.error cause)
        | .ok () => e.sendBursts half.other rest) := by
  cases rest <;> rfl

/-- What is left to send at a position is the burst of the mode that the position gives, and then
    what is left behind it. -/
theorem sendBursts_drop (e : Engine) (half : Half) {ws : List (List UInt64)} {i : Nat}
    (hi : i < ws.length) (hcount : ws.length < Size.limit) :
    ∃ mode, OperatingMode.ofPosition i ws.length = .ok mode ∧
      e.sendBursts half (ws.drop i) = (e.sendBurst half ws[i] mode >>= fun
        | .error cause => .ret (.error cause)
        | .ok () => e.sendBursts half.other (ws.drop (i + 1))) := by
  refine ⟨_, ofPosition_eq_modeAt hi hcount, ?_⟩
  have hrest := sendBursts_cons e half ws[i] (ws.drop (i + 1))
  rwa [← List.drop_eq_getElem_cons hi, List.length_drop, modeAt_sub hi] at hrest

/-- Bursts are staged, launched and waited for in turn, up to the first wait that fails. -/
theorem exists_goes_sendBursts (hmode : e.mode = .poll) (hbacks : Device.Backs source)
    (hfits : e.source.Fits base (source link).size) (half : Half) {ws : List (List UInt64)}
    (hwords : ∀ words ∈ ws, words.length + 1 ≤ e.source.halfWords) :
    ∃ finished trace after staged, finished ≤ ws.length ∧
      (e.sendBursts half ws).Goes link trace
        (if finished = ws.length then .ok () else .error (.channelTimeout .mm2s e.limit)) after ∧
      Trace.Shows trace
        (inTurn finished ws.length
          (fun i => e.burstAt half ws i ++ Completion.polling .mm2s e.limit true)
          fun i => e.burstAt half ws i ++ Completion.polling .mm2s e.limit false)
        (inTurn finished ws.length (fun _ => [true]) fun _ => [false]) [] staged ∧
      staged.length = min (finished + 1) ws.length ∧
      ∀ i begun launched, staged[i]? = some (begun, launched) →
        (source begun).size = (source link).size ∧
          e.Stages source (half.after i) (ws.getD i []) (modeAt i ws.length) begun launched := by
  -- All that a burst leaves to those behind it is the size of the window, so the induction is for
  -- any state of the device.
  induction ws generalizing half link with
  | nil =>
    exact ⟨0, [], link, [], Nat.le_refl _, Proc.goes_ret _ _, Trace.shows_nil, rfl, nofun⟩
  | cons words rest ih =>
    obtain ⟨finished, trace, after, launched, hburst, hshows, hstages⟩ :=
      exists_goes_sendBurst hmode hbacks hfits half (hwords words List.mem_cons_self)
        (modeAt 0 (words :: rest).length)
    have hsize : (source after).size = (source link).size := by
      have hkept := hbacks.size_run (e.sendBurst half words (modeAt 0 (words :: rest).length)) link
      rwa [hburst.run_eq] at hkept
    rw [sendBursts_cons]
    cases finished with
    | false =>
      refine ⟨0, _, after, [(link, launched)], Nat.zero_le _,
        hburst.bind (Proc.goes_ret _ after), ?_, ?_, ?_⟩
      · rw [List.append_nil]
        exact hshows
      · simp
      · rintro (_ | i) begun launched' hi
        · obtain ⟨rfl, rfl⟩ := Prod.mk.inj (Option.some.inj hi)
          exact ⟨rfl, hstages⟩
        · exact nomatch hi
    | true =>
      rw [← hsize] at hfits
      obtain ⟨finished, trace', after', staged, hle, hgoes, hshows', hcount, hstaged⟩ :=
        ih hfits half.other fun words' hmem => hwords words' (List.mem_cons_of_mem words hmem)
      have hwhole := hburst.bind (f := fun
        | .error cause => .ret (.error cause)
        | .ok () => e.sendBursts half.other rest) hgoes
      refine ⟨finished + 1, trace ++ trace', after', (link, launched) :: staged,
        Nat.succ_le_succ hle, ?_, ?_, ?_, ?_⟩
      · simpa only [List.length_cons, Nat.add_right_cancel_iff] using hwhole
      · rw [List.length_cons, inTurn_succ, inTurn_succ]
        simp only [burstAt_cons_succ]
        exact hshows.append hshows'
      · simp only [List.length_cons, hcount]
        omega
      · rintro (_ | i) begun launched' hi
        · obtain ⟨rfl, rfl⟩ := Prod.mk.inj (Option.some.inj hi)
          exact ⟨rfl, hstages⟩
        · obtain ⟨hbegun, hstages'⟩ := hstaged i begun launched' hi
          rw [List.length_cons, modeAt_cons]
          exact ⟨hbegun.trans hsize, hstages'⟩

/-- A burst writes its address and its length, and nothing else. -/
theorem written_bursting (hfits : e.source.Fits base size)
    (hshort : e.source.halfWords * wordBytes ≤ Layout.maxBurstBytes) (half : Half)
    (hwords : words.length + 1 ≤ e.source.halfWords) (mode : OperatingMode) :
    (e.bursting half words mode).flatMap Link.Access.written =
      [(0x18, base.toNat + 8 * e.source.offset half), (0x28, 8 * (words.length + 1))] := by
  exact written_launching hfits .mm2s half (Nat.le_trans (Nat.mul_le_mul_right _ hwords) hshort)

end Engine

namespace Session

open Engine

variable {σ : Type} [Device σ] {source : σ → Window} {g : Geometry} {e : Engine} {link : σ}

/-- A payload goes out in bursts of `burstWords` words, the last of which may be shorter. Each is
    launched by its address and its length and acknowledged by two writes once its wait has
    succeeded, and nothing else is written. The first wait that fails is the last, and its error is
    the result. When its length is written, a burst stands in its half of the source window with its
    tag behind it, which is that of a complete payload for the last burst alone, and every word
    outside the half is as it was before the burst was staged. -/
theorem bursts_of_sendSplit (hcreate : Engine.create .poll g = .ok e)
    (hbacks : Device.Backs source) (hsize : (source link).size = g.sourceWords)
    (operations : List Operation) {payload : List UInt64} (hpayload : payload ≠ []) :
    let s := (performAll ⟨e, link⟩ operations).2
    let trace := (s.engine.sendSplit payload).trace s.link
    let count := (payload.length + g.burstWords - 1) / g.burstWords
    let burst i := (payload.drop (i * g.burstWords)).take g.burstWords
    let start i := i % 2 * (g.burstWords + 1)
    let launch i :=
      [(0x18, g.sourceBase.toNat + 8 * start i), (0x28, 8 * ((burst i).length + 1))]
    ∃ finished ≤ count,
      Trace.waits trace = inTurn finished count (fun _ => [true]) (fun _ => [false]) ∧
      Trace.written trace = inTurn finished count
        (fun i => launch i ++ [(0x04, 0x0002), (0x04, 0x1000)]) launch ∧
      ((s.engine.sendSplit payload).run Device.answer s.link).1 =
        (if finished = count then .ok () else .error (.channelTimeout .mm2s s.engine.limit)) ∧
      (Trace.stagings none trace).length = min (finished + 1) count ∧
      ∀ i begun launched, (Trace.stagings none trace)[i]? = some (begun, launched) →
        ((source launched).words.extract (start i)
          (start i + ((burst i).length + 1))).toList = burst i ++ [(modeAt i count).tag] ∧
        ∀ position, position < start i ∨ start i + (g.burstWords + 1) ≤ position →
          (source launched).words[position]? = (source begun).words[position]? := by
  intro s trace count burst start launch
  obtain ⟨haccepted, hmode, hburst⟩ : s.engine.Created .poll g :=
    created_performAll (s := ⟨e, link⟩) (created_create hcreate) operations
  have hsource : (source s.link).size = g.sourceWords :=
    (hbacks.size_performAll ⟨e, link⟩ operations).trans hsize
  have hpositive : 0 < g.burstWords := hburst ▸ haccepted.positive
  have hhalf : s.engine.source.halfWords = g.burstWords + 1 := by
    rw [haccepted.burst, hburst]
  have hfits : s.engine.source.Fits g.sourceBase (source s.link).size := by
    rw [hsource]
    exact haccepted.source
  have hwords : ∀ words ∈ pieces g.burstWords payload,
      words.length + 1 ≤ s.engine.source.halfWords := by
    intro words hmem
    rw [hhalf]
    exact Nat.succ_le_succ (length_le_of_mem_pieces hpositive hmem)
  have hprogram : s.engine.sendSplit payload =
      s.engine.sendBursts .a (pieces g.burstWords payload) := by
    rw [sendSplit, if_neg (by simpa using hpayload), hburst]
  obtain ⟨finished, trace', after, staged, hle, hgoes, hshows, hstagings, hstages⟩ :=
    exists_goes_sendBursts hmode hbacks hfits .a hwords
  rw [← hprogram] at hgoes
  obtain rfl : trace = trace' := hgoes.trace_eq
  have hcount : (pieces g.burstWords payload).length = count := length_pieces hpositive payload
  have hpiece i : (pieces g.burstWords payload).getD i [] = burst i :=
    getD_pieces hpositive payload i
  have hstart i : s.engine.source.offset (Half.a.after i) = start i := by
    rw [(s.engine.source.offset_after i).1, hhalf]
  have hlength i : (burst i).length ≤ g.burstWords := List.length_take_le _ _
  rw [hcount] at hle hgoes hshows hstagings
  have hlaunch i : (s.engine.burstAt .a (pieces g.burstWords payload) i).flatMap
      Link.Access.written = launch i := by
    rw [burstAt, hpiece, written_bursting hfits haccepted.burst_le _ _, hstart]
    rw [hhalf]
    exact Nat.succ_le_succ (hlength i)
  refine ⟨finished, hle, hshows.waits_eq, ?_, ?_, ?_, ?_⟩
  · rw [hshows.written_eq, flatMap_inTurn]
    simp only [List.flatMap_append, hlaunch, Completion.written_polling]
    simp only [if_true, Bool.false_eq_true, if_false, List.append_nil]
    rfl
  · rw [hgoes.run_eq]
  · rw [hshows.stagings_eq, hstagings]
  · intro i begun launched hi
    rw [hshows.stagings_eq] at hi
    obtain ⟨hsize', hstages'⟩ := hstages i begun launched hi
    rw [hcount, hpiece] at hstages'
    have hoffset := hfits.offset_le (Half.a.after i)
    have hshort := hlength i
    have hhere := hstart i
    refine ⟨?_, fun position houtside => ?_⟩
    · rw [← hstart]
      exact hstages'.extract_eq (by omega)
    · exact hstages'.getElem?_eq (by omega)

/-- The second of two bursts is launched and its wait times out. -/
theorem bursts_of_sendSplit_timedOut :
    ∃ e, Engine.create .poll ⟨6, Loopback.sourceBase, 256, Loopback.destinationBase, 2⟩ = .ok e ∧
      let link : Script := ⟨.zeroed 6, .zeroed 256, [0x1002, 0x1002], [], #[]⟩
      let s := (performAll ⟨e, link⟩ [.initialise 1024]).2
      let trace := (s.engine.sendSplit [5, 6, 7]).trace s.link
      Trace.written trace = [(0x18, 0x10000000), (0x28, 24), (0x04, 0x0002), (0x04, 0x1000),
        (0x18, 0x10000018), (0x28, 16)] ∧
      ((s.engine.sendSplit [5, 6, 7]).run Device.answer s.link).1 =
        .error (.channelTimeout .mm2s s.engine.limit) ∧
      (Trace.stagings none trace).length = 2 ∧
      ∀ begun launched, (Trace.stagings none trace)[1]? = some (begun, launched) →
        (launched.source.words.extract 3 5).toList = [7, 0x0004000000000000] := by
  have hcreate := create_small .poll
  refine ⟨_, hcreate, ?_⟩
  intro link s trace
  obtain ⟨finished, hle, hwaits, hwritten, hresult, hcount, hstaged⟩ :=
    bursts_of_sendSplit hcreate Script.backs (show (Script.source link).size = 6 from rfl)
      [.initialise 1024] (show [5, 6, 7] ≠ [] by decide)
  have hseen : Trace.waits trace = [true, false] := by
    decide +kernel
  rw [hseen] at hwaits
  have honly : ∀ finished ≤ 2,
      [true, false] = inTurn finished 2 (fun _ => [true]) (fun _ => [false]) → finished = 1 := by
    decide
  obtain rfl := honly finished hle hwaits
  refine ⟨hwritten, ?_, hcount, fun begun launched hbegun => ?_⟩
  · rw [hresult, if_neg (by decide)]
  · exact (hstaged 1 begun launched hbegun).1

end Session

end DmaLink
