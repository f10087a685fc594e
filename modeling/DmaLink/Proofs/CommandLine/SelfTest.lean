import DmaLink.Proofs.CommandLine.Pattern
import DmaLink.Proofs.Engine.Concurrent
import DmaLink.Proofs.Engine.Geometry
import DmaLink.Proofs.Queue.Exchanges
import DmaLink.Proofs.Settings.Spelling

namespace DmaLink.CommandLine

open Loopback

section Arguments

/-- The arguments of a self-test on the simulated device. -/
def selfTestArguments (words readLength : Nat) (interrupt : Bool) : List String :=
  "loopback" :: "--sim" :: "--words" :: toString words :: "--read-len" :: toString readLength ::
    if interrupt then ["--interrupt"] else []

theorem count?_toString {n : Nat} (hfits : n < Size.limit) : count? (toString n) = some n := by
  have hdigits : (toString n).toList = Nat.toDigits 10 n := String.toList_ofList
  have hdenotes : Text.Denotes 10 n (Nat.toDigits 10 n) := .of_decimal ⟨0, rfl⟩
  rw [count?, hdigits, hdenotes.numeral_eq (by decide), if_pos hfits]
  rfl

/-- An option that takes a value takes it from the next argument. -/
theorem loopbackCommand_value {a taken : LoopbackArguments} {option value : String}
    (hoption : option ∈ valueOptions) (htaken : a.take option value = some taken)
    (rest : List String) :
    loopbackCommand a (option :: value :: rest) = loopbackCommand taken rest := by
  have hflags : ∀ option ∈ valueOptions,
      asksHelp option = false ∧ option ≠ "--sim" ∧ option ≠ "--interrupt" := by decide
  obtain ⟨hhelp, hsim, hinterrupt⟩ := hflags option hoption
  simp [loopbackCommand, hhelp, hsim, hinterrupt, hoption, htaken]

/-- The arguments of the self-test are read as its options. -/
theorem command?_selfTestArguments {words readLength : Nat} (hwords : words < Size.limit)
    (hlength : readLength < Size.limit) (interrupt : Bool) :
    command? (selfTestArguments words readLength interrupt) =
      some (.loopback { simulated := true, words, interrupt, readLength }) := by
  have hsim : asksHelp "--sim" = false := by decide
  have hinterrupt : asksHelp "--interrupt" = false := by decide
  have htakeWords : LoopbackArguments.take { simulated := true } "--words" (toString words) =
      some { simulated := true, words := some words } := by
    rw [LoopbackArguments.take, count?_toString hwords]
    rfl
  have htakeLength : LoopbackArguments.take { simulated := true, words := some words } "--read-len"
      (toString readLength) =
        some { simulated := true, words := some words, readLength := some readLength } := by
    rw [LoopbackArguments.take, count?_toString hlength]
    rfl
  change loopbackCommand {} ("--sim" :: "--words" :: _) = _
  rw [loopbackCommand]
  simp only [hsim, Bool.false_eq_true, if_false, beq_self_eq_true, Bool.not_false, Bool.and_true,
    if_true]
  rw [loopbackCommand_value (by decide) htakeWords, loopbackCommand_value (by decide) htakeLength]
  cases interrupt with
  | false => rfl
  | true => rfl

end Arguments

section Verdict

variable {sent received : List UInt64}

/-- Words of which one list begins the other nowhere differ. -/
theorem countP_zip_eq_zero (hagree : sent <+: received ∨ received <+: sent) :
    (sent.zip received).countP (fun (word, back) => word != back) = 0 := by
  rcases hagree with ⟨rest, rfl⟩ | ⟨rest, rfl⟩
  · induction sent with
    | nil => rfl
    | cons word sent ih => simpa using ih
  · induction received with
    | nil => simp
    | cons word received ih => simpa using ih

/-- All words are back, and maybe more behind them. -/
theorem verdict_of_isPrefix (hfront : sent <+: received) (before : List String) :
    verdict sent received 0 before = ⟨before ++ [s!"OK: {sent.length} words echoed"], none⟩ := by
  have hmissing : sent.length - received.length = 0 := Nat.sub_eq_zero_of_le hfront.length_le
  simp only [verdict, countP_zip_eq_zero (.inl hfront), hmissing, Nat.lt_irrefl, or_self, if_false]

/-- Words are missing at the end. -/
theorem verdict_of_short (hfront : received <+: sent) (hshort : received.length < sent.length)
    (before : List String) :
    verdict sent received 0 before = ⟨before, some (.plain
      s!"0 mismatched and {sent.length - received.length} missing words")⟩ := by
  have hmissing : 0 < sent.length - received.length := Nat.sub_pos_of_lt hshort
  simp only [verdict, countP_zip_eq_zero (.inr hfront), hmissing, Nat.lt_irrefl, or_true, if_true,
    if_false]
  rfl

end Verdict

section Reading

/-- What is read of the test pattern: its echo, or the chunks up to the one that ends the layer. -/
def readBack (chunkWords words : Nat) : List UInt64 :=
  if words < patternLimit chunkWords then DmaLink.echo chunkWords (pattern words)
  else pattern (patternLimit chunkWords)

/-- Below the limit the words read back are the echo of the pattern. -/
theorem readBack_of_lt {chunkWords words : Nat} (hshort : words < patternLimit chunkWords) :
    readBack chunkWords words = DmaLink.echo chunkWords (pattern words) :=
  if_pos hshort

/-- From the limit on they are the pattern up to it, and the read stops there. -/
theorem readBack_of_le {chunkWords words : Nat} (hlong : patternLimit chunkWords ≤ words) :
    readBack chunkWords words = pattern (patternLimit chunkWords) :=
  if_neg (Nat.not_lt_of_le hlong)

/-- Up to the limit the words read back begin with those sent. -/
theorem pattern_prefix_readBack {chunkWords words : Nat}
    (hwithin : words ≤ patternLimit chunkWords) :
    pattern words <+: readBack chunkWords words := by
  rcases Nat.lt_or_eq_of_le hwithin with hshort | rfl
  · rw [readBack_of_lt hshort]
    exact ⟨_, (List.append_assoc _ _ _).symm⟩
  · rw [readBack_of_le (Nat.le_refl _)]

section Receiving

variable {e : Engine} {i : Inbound} {ws : List (List UInt64)} {words bound : Nat}

/-- However the test pattern comes over, a reception comes to what is read of it. -/
theorem receives_pattern (hready : e.ReceiveReady i ws (pattern words))
    (hstep : e.destination.halfWords * patternStep ≤ 2 ^ 63)
    (hbound : words / e.destination.halfWords < bound) :
    Receives (fun reception _ _ => reception = ⟨readBack e.destination.halfWords words,
        .complete ((readBack e.destination.halfWords words).length * wordBytes)⟩)
      (e.receive bound []) i (train ws) := by
  have hpositive := hready.destination.positive
  rcases Nat.lt_or_ge words (patternLimit e.destination.halfWords) with hshort | hlong
  · have hopen := chunksOpen_pattern hpositive hshort
    apply (hready.receives hopen (by rwa [length_pattern]) []).mono
    rintro r i' later ⟨rfl, -⟩
    rw [readBack_of_lt hshort, length_echo hpositive, Reception.echoed, List.nil_append]
  · have hchunks : patternChunks e.destination.halfWords ≤ bound :=
      Nat.le_of_lt (Nat.lt_of_le_of_lt ((Nat.le_div_iff_mul_le hpositive).2 hlong) hbound)
    apply (hready.receives_endsAt (endsAt_pattern hpositive hstep hlong) hchunks []).mono
    rintro r i' later rfl
    rw [readBack_of_le hlong, length_pattern, List.nil_append, take_pattern, ← patternLimit,
      Nat.min_eq_left hlong]

end Receiving

variable {b : Queue.Bench Loopback}

/-- The read of a queue whose worker has sent the test pattern. -/
theorem exists_read_pattern {words dropped : Nat} (hready : b.Ready (pattern words) true dropped)
    (hstep : b.queue.engine.destination.halfWords * patternStep ≤ 2 ^ 63) :
    let received := readBack b.queue.engine.destination.halfWords words
    ∃ after, b.read [] = (⟨received, .complete (received.length * wordBytes)⟩, after) ∧
      after.queue.dropped = dropped := by
  have hmore := hready.length_lt_chunkBound
  rw [length_pattern] at hmore
  have hreceived := ((receives_pattern hready.settled.receiveReady hstep
    (Nat.lt_of_le_of_lt (Nat.div_le_self _ _) hmore)).run hready.settled.flowing rfl).1
  refine ⟨b.received b.link.chunkBound, ?_, hready.dropped_eq⟩
  rw [hready.read_eq (by rw [hreceived]; rfl), hreceived]

/-- Once its queue has been started, nothing but what is read of the pattern decides a test. -/
theorem echo_of_ready {options : LoopbackOptions} {started : Queue.Bench Loopback}
    (hwords : 0 < options.words) (hstart : b.initialise options.readLength = (.ok (), started))
    (hready : started.Ready [] false 0)
    (hstep : started.queue.engine.destination.halfWords * patternStep ≤ 2 ^ 63) :
    let received := readBack started.queue.engine.destination.halfWords options.words
    echo b options = verdict (pattern options.words) received 0
      (options.title b.queue.engine.mode ::
        receivedLines (received.length * wordBytes) received) := by
  obtain ⟨handed, henqueue, hkept, hready⟩ := hready.exists_enqueue (pattern_ne_nil hwords)
  obtain ⟨after, hread, hdropped⟩ := exists_read_pattern hready (hkept ▸ hstep)
  have hstopped : after.stop.queue.dropped = 0 := by
    rw [Queue.Bench.dropped_stop, hdropped]
  simp only [echo, hstart, henqueue, hread, hstopped, hkept]

end Reading

/-- A read length that is accepted where the windows have room for it. -/
structure ReadLength (readLength : Nat) : Prop where
  shortest : Layout.minReadBytes ≤ readLength
  longest : readLength ≤ Layout.maxReadBytes
  whole : readLength % wordBytes = 0

/-- The self-test's read lengths are accepted by every engine with room for two halves. -/
theorem ReadLength.exists_configure {readLength : Nat} (hlength : ReadLength readLength)
    {e : Engine} (hwindow : 2 * (readLength / wordBytes) ≤ e.destination.windowWords)
    (haddressing : e.destination.base.toNat + Layout.maxReadBytes * 2 ≤ Layout.addressLimit) :
    ∃ configured, e.configure readLength = .ok configured := by
  obtain ⟨hshortest, hlongest, hwhole⟩ := hlength
  have hfit : e.destination.fit (readLength / wordBytes) =
      .ok { e.destination with halfWords := readLength / wordBytes } := by
    refine Split.fit_eq_ok_iff.2 ⟨?_, hwindow, ?_, rfl⟩ <;>
      simp only [Layout.minReadBytes, Layout.maxReadBytes, Layout.addressLimit, wordBytes] at * <;>
      omega
  have hbounds : ¬(readLength < Layout.minReadBytes ∨ Layout.maxReadBytes < readLength) := by omega
  rw [Engine.configure, if_neg hbounds, if_neg (not_not.2 hwhole), hfit]
  exact ⟨_, rfl⟩

/-- The simulated device has room for two bursts and two chunks. -/
theorem ReadLength.window {readLength : Nat} (hlength : ReadLength readLength) :
    4 * simulatedBurstWords ≤ simulatedWindowWords readLength ∧
      2 * (readLength / wordBytes) ≤ simulatedWindowWords readLength := by
  obtain ⟨-, hlongest, -⟩ := hlength
  refine ⟨Nat.le_max_left .., ?_⟩
  simp only [simulatedWindowWords, Nat.min_eq_left hlongest, wordBytes]
  omega

/-- The simulated device starts out idle. -/
theorem LoopbackOptions.idle_device (options : LoopbackOptions) :
    options.device.Idle options.mode := by
  refine idle_create (fun hmode => ?_) _ _
  cases hinterrupt : options.interrupt with
  | true => rfl
  | false =>
    rw [mode, hinterrupt] at hmode
    exact nomatch hmode

/-- The queue of a self-test starts, split as the read length asks for. -/
theorem ReadLength.exists_started {options : LoopbackOptions}
    (hlength : ReadLength options.readLength) :
    ∃ engine started,
      Engine.create options.mode (options.device.geometry simulatedBurstWords) = .ok engine ∧
        engine.mode = options.mode ∧
          Queue.Bench.initialise { queue := { engine }, link := options.device }
              options.readLength = (.ok (), started) ∧
            started.Ready [] false 0 ∧
              started.queue.engine.destination.halfWords = options.readLength / wordBytes ∧
                started.queue.engine.destination.halfWords * patternStep ≤ 2 ^ 63 := by
  obtain ⟨hbursts, hchunks⟩ := hlength.window
  generalize hwindow : simulatedWindowWords options.readLength = windowWords at hbursts hchunks
  have hgeometry : options.device.geometry simulatedBurstWords =
      ⟨windowWords, Loopback.sourceBase, windowWords, Loopback.destinationBase,
        simulatedBurstWords⟩ := hwindow ▸ Engine.geometry_create ..
  have hviable : (options.device.geometry simulatedBurstWords).Viable := by
    rw [hgeometry]
    constructor <;> simp only [simulatedBurstWords] at * <;> first | decide | omega
  have hcreate := Engine.create_of_viable options.mode hviable
  have haddressing : Loopback.destinationBase.toNat + Layout.maxReadBytes * 2 ≤
      Layout.addressLimit := by decide
  obtain ⟨configured, hconfigure⟩ := hlength.exists_configure
    (e := (options.device.geometry simulatedBurstWords).engine options.mode)
    (by rw [hgeometry]; exact hchunks)
    (by rw [hgeometry]; exact haddressing)
  -- The engine waits as long as it was created to wait.
  have hconfigure' : (((options.device.geometry simulatedBurstWords).engine
      options.mode).setTimeout defaultTimeout).configure options.readLength = .ok configured :=
    hconfigure
  obtain ⟨hsuits, hmode, -, hhalf⟩ := Engine.suits_of_configure hcreate hconfigure'
  obtain ⟨started, hstart, hengine, hready⟩ := Queue.Bench.exists_initialise_of_idle
    (b := { queue := { engine := _ }, link := options.device }) (fun _ _ => List.not_mem_nil)
    hconfigure (hmode ▸ options.idle_device) hsuits
  have hlongest := hlength.longest
  refine ⟨_, started, hcreate, rfl, hstart, hready, hengine ▸ hhalf, ?_⟩
  rw [hengine, hhalf]
  simp only [Layout.maxReadBytes, wordBytes, patternStep] at *
  omega

/-- A self-test is decided by what is read of its pattern. -/
theorem ReadLength.simulatedLoopback_eq (options : LoopbackOptions) (hwords : 0 < options.words)
    (hlength : ReadLength options.readLength) :
    let received := readBack (options.readLength / wordBytes) options.words
    simulatedLoopback options = verdict (pattern options.words) received 0
      (options.title options.mode :: receivedLines (received.length * wordBytes) received) := by
  obtain ⟨engine, started, hcreate, hmode, hstart, hready, hhalf, hstep⟩ := hlength.exists_started
  have hlongest := hlength.longest
  have hsize : Size.mul 2 options.readLength = .ok (2 * options.readLength) := by
    rw [Size.mul, if_pos]
    simp only [Layout.maxReadBytes, Size.limit] at *
    omega
  have hecho := echo_of_ready hwords hstart hready hstep
  simp only [hhalf, hmode] at hecho
  simp only [simulatedLoopback, hsize, hcreate, hecho]

/-- From the start of the queue on, a self-test does not depend on the order in which the worker
    that sends the pattern and the reader make their accesses. The worker succeeds, what the reader
    comes to is what the printed verdict is about, and both come to an end under a fair schedule. -/
theorem ReadLength.simulatedLoopback_eq_of_turns {options : LoopbackOptions} {bound : Nat}
    (hwords : 0 < options.words) (hlength : ReadLength options.readLength)
    (hbound : options.words / (options.readLength / wordBytes) < bound) :
    ∃ engine started,
      Engine.create options.mode (options.device.geometry simulatedBurstWords) = .ok engine ∧
        Queue.Bench.initialise { queue := { engine }, link := options.device }
            options.readLength = (.ok (), started) ∧
          ∀ turns,
            let start : Duplex _ _ := ⟨started.queue.engine.sendSplit (pattern options.words),
              started.queue.engine.receive bound [], started.link⟩
            (∀ count result, (start.after turns count).writer = .ret result → result = .ok ()) ∧
            (∀ count reception, (start.after turns count).reader = .ret reception →
              ∃ bytes, reception.ending = .complete bytes ∧
                simulatedLoopback options = verdict (pattern options.words) reception.buffer 0
                  (options.title options.mode :: receivedLines bytes reception.buffer)) ∧
            (Duplex.Fair turns → ∃ count result reception,
              (start.after turns count).writer = .ret result ∧
                (start.after turns count).reader = .ret reception) := by
  obtain ⟨engine, started, hcreate, -, hstart, hready, hhalf, hstep⟩ := hlength.exists_started
  refine ⟨engine, started, hcreate, hstart, fun turns => ?_⟩
  have hpattern := pattern_ne_nil hwords
  have hcoupled := hready.settled.coupled hpattern
    (receives_pattern (hready.settled.receiveReady_pieces hpattern) hstep (hhalf ▸ hbound))
  refine ⟨fun count result hover => ((hcoupled.after turns count).writer_over hover).1,
    fun count reception hover => ?_, hcoupled.exists_over⟩
  obtain ⟨-, -, rfl⟩ := (hcoupled.after turns count).reader_over hover
  rw [hhalf]
  exact ⟨_, rfl, hlength.simulatedLoopback_eq options hwords⟩

/-- The arguments of a self-test run it. -/
theorem run_selfTestArguments {words readLength : Nat} (hwords : 0 < words)
    (hfits : words < Size.limit) (hlength : ReadLength readLength) (interrupt : Bool)
    (room : Nat) (lookup : String → Option String) (files : FileTree) :
    run room (selfTestArguments words readLength interrupt) lookup files =
      (simulatedLoopback { simulated := true, words, interrupt, readLength }).outcome := by
  have hbelow : readLength < Size.limit := Nat.lt_of_le_of_lt hlength.longest (by decide)
  simp only [run, command?_selfTestArguments hfits hbelow, Command.report, loopback,
    Nat.ne_of_gt hwords, if_false, if_true]

/-- A self-test of a device that works, with any accepted read length and with or without
    interrupts, reads all of its pattern and passes if the pattern is no longer than up to its first
    chunk that ends with the end bit. A longer pattern is read as far as that chunk, and the test
    fails. -/
theorem run_loopback_simulated {words readLength : Nat} (hwords : 0 < words)
    (hfits : words * wordBytes < 2 ^ 63) (hlength : ReadLength readLength) (interrupt : Bool)
    (room : Nat) (lookup : String → Option String) (files : FileTree) :
    let options : LoopbackOptions := { simulated := true, words, interrupt, readLength }
    let limit := patternLimit (readLength / wordBytes)
    let received := readBack (readLength / wordBytes) words
    let lines := options.title options.mode ::
      receivedLines (received.length * wordBytes) received
    let outcome := run room (selfTestArguments words readLength interrupt) lookup files
    (words ≤ limit → received.take words = pattern words ∧
      outcome = ⟨0, String.join ((lines ++ [s!"OK: {words} words echoed"]).map (· ++ "\n")), ""⟩) ∧
    (limit < words → received = pattern limit ∧
      outcome.exit = 1 ∧ outcome.output = String.join (lines.map (· ++ "\n"))) := by
  intro options limit received lines outcome
  have hbelow : words < Size.limit := by
    simp only [wordBytes, Size.limit] at *
    omega
  have hreport : outcome = (verdict (pattern words) received 0 lines).outcome :=
    (run_selfTestArguments hwords hbelow hlength interrupt room lookup files).trans
      (congrArg Report.outcome (hlength.simulatedLoopback_eq options hwords))
  constructor
  · intro hwithin
    have hfront : pattern words <+: received := pattern_prefix_readBack hwithin
    refine ⟨?_, ?_⟩
    · rw [List.prefix_iff_eq_take.1 hfront, length_pattern]
    · rw [hreport, verdict_of_isPrefix hfront, length_pattern]
      rfl
  · intro hpast
    have hreceived : received = pattern limit := if_neg (Nat.not_lt_of_gt hpast)
    have hfront : received <+: pattern words :=
      hreceived ▸ pattern_prefix_pattern (Nat.le_of_lt hpast)
    have hshort : received.length < (pattern words).length := by
      rw [hreceived, length_pattern, length_pattern]
      exact hpast
    rw [hreport, verdict_of_short hfront hshort]
    exact ⟨hreceived, rfl, rfl⟩

/-- With read chunks of 8200 bytes, the word too many is the 8356826th. -/
theorem run_loopback_simulated_pastTheLimit :
    let passing := run 0 ["loopback", "--sim", "--words", "8356825", "--read-len", "8200"]
      (fun _ => none) ⟨[], []⟩
    let failing := run 0 ["loopback", "--sim", "--words", "8356826", "--read-len", "8200"]
      (fun _ => none) ⟨[], []⟩
    passing.exit = 0 ∧ failing.exit = 1 := by
  intro passing failing
  have hlength : ReadLength 8200 := ⟨by decide, by decide, by decide⟩
  obtain ⟨hpasses, -⟩ := run_loopback_simulated (by decide : 0 < 8356825) (by decide) hlength
    false 0 (fun _ => none) ⟨[], []⟩
  obtain ⟨-, hfails⟩ := run_loopback_simulated (by decide : 0 < 8356826) (by decide) hlength
    false 0 (fun _ => none) ⟨[], []⟩
  exact ⟨congrArg Outcome.exit (hpasses (by decide)).2, (hfails (by decide)).2.1⟩

end DmaLink.CommandLine
