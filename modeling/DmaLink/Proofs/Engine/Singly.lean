import DmaLink.Proofs.Engine.Bursts
import DmaLink.Proofs.Engine.Courses
import DmaLink.Proofs.Loopback.Lawful
import DmaLink.Proofs.Loopback.Sources
import DmaLink.Proofs.Window.Splits

namespace DmaLink

open Loopback

/-- The words of a burst with its tag word behind them. -/
def Loopback.Burst.tagged (burst : Burst) : List UInt64 := burst.words ++ [burst.mode.tag]

namespace Engine

/-- Sends buffers one by one and stops at the first that fails. -/
def sendEach (e : Engine) : List (List UInt64) → Proc Link.io (Except LinkError Unit)
  | [] => return .ok ()
  | buffer :: rest => do
    match ← e.send buffer with
    | .error cause => return .error cause
    | .ok _ => sendEach e rest

/-- The burst at a position of a train is the piece there, in the mode of the position. -/
theorem getElem?_train (ws : List (List UInt64)) (i : Nat) :
    (train ws)[i]? = ws[i]?.map fun words => ⟨words, modeAt i ws.length⟩ := by
  induction ws generalizing i with
  | nil => rfl
  | cons words rest ih =>
    cases i with
    | zero => cases rest <;> rfl
    | succ i =>
      rw [train, List.getElem?_cons_succ, List.getElem?_cons_succ, ih, List.length_cons]
      simp only [modeAt_cons]

/-- The tagged bursts of a payload, by their numbers. -/
theorem tagged_train_pieces {size : Nat} (hsize : 0 < size) (payload : List UInt64) :
    (train (pieces size payload)).map Burst.tagged =
      (List.range ((payload.length + size - 1) / size)).map fun i =>
        (payload.drop (i * size)).take size ++
          [(modeAt i ((payload.length + size - 1) / size)).tag] := by
  rw [← length_pieces hsize payload]
  apply List.ext_getElem?
  intro i
  rw [List.getElem?_map, List.getElem?_map, getElem?_train]
  by_cases hi : i < (pieces size payload).length
  · have hpiece := getD_pieces hsize payload i
    rw [List.getD_eq_getElem?_getD, List.getElem?_eq_getElem hi, Option.getD_some] at hpiece
    rw [List.getElem?_range hi, List.getElem?_eq_getElem hi, hpiece]
    rfl
  · rw [List.getElem?_eq_none (Nat.le_of_not_lt hi),
      List.getElem?_eq_none (by rw [List.length_range]; exact Nat.le_of_not_lt hi)]
    rfl

variable {e : Engine} {d d' : Loopback} {half : Half} {words : List UInt64}
  {mode : OperatingMode}

/-- What a device is after it was given a burst: the length of the burst stands in its register. -/
def given (d : Loopback) (burst : List UInt64) : Loopback :=
  (d.setRegister Channel.mm2s.length (UInt32.ofNat (burst.length * wordBytes))).takeIn burst

/-- A burst that stands at a place that it can be launched from is given over. -/
theorem unsourced_launch_of_fits (hfits : e.source.Fits sourceBase d.source.size)
    {burst : List UInt64} (hlength : burst.length ≤ e.source.halfWords)
    (hburst : (d.source.words.extract (e.source.offset half)
      (e.source.offset half + burst.length)).toList = burst) :
    (d.run (launch .mm2s (e.source.address half) (burst.length * wordBytes))).2.unsourced =
      given d.unsourced burst := by
  have hwords : burst.length * wordBytes / wordBytes = burst.length :=
    Nat.mul_div_cancel _ (by decide)
  have hoffset := hfits.offset_le half
  refine unsourced_launch d (Nat.lt_of_le_of_lt (Nat.mul_le_mul_right _ hlength) hfits.bytes_lt)
    (hfits.position?_address half) ?_ ?_
  · omega
  · rw [hwords, hburst]

/-- A program over the source window changes nothing else. -/
theorem run_onWindow_source {α : Type} (d : Loopback) (p : Proc Window.io α) :
    d.run (Proc.onWindow .mm2s p) =
      ((p.run Window.answer d.source).1,
        { d with source := (p.run Window.answer d.source).2 }) := by
  induction p generalizing d with
  | ret result => rfl
  | act access next ih => exact ih (d.source.answer access).1 { d with source := _ }

/-- The device once words have been put into its source window. -/
def putting (d : Loopback) (start : Nat) (words : List UInt64) : Loopback :=
  { d with source := ⟨Memory.put d.source.words start words⟩ }

theorem size_putting (d : Loopback) (start : Nat) (words : List UInt64) :
    (putting d start words).source.size = d.source.size := Memory.size_put ..

/-- A burst is given over once its words have been put where a half begins. -/
theorem unsourced_launch_putting (hfits : e.source.Fits sourceBase d.source.size) (half : Half)
    {burst : List UInt64} (hlength : burst.length ≤ e.source.halfWords) :
    ((putting d (e.source.offset half) burst).run
      (launch .mm2s (e.source.address half) (burst.length * wordBytes))).2.unsourced =
      given d.unsourced burst := by
  have hoffset := hfits.offset_le half
  have hput : ((putting d (e.source.offset half) burst).source.words.extract
      (e.source.offset half) (e.source.offset half + burst.length)).toList = burst :=
    Memory.extract_put rfl (Nat.le_trans (by omega) hoffset)
  have hunsourced : (putting d (e.source.offset half) burst).unsourced = d.unsourced := by
    rw [unsourced, size_putting]
    rfl
  rw [← hunsourced]
  exact unsourced_launch_of_fits (by rw [size_putting]; exact hfits) hlength hput

/-- A burst that is staged in a half is given over and waited for. -/
theorem exists_run_sendBurst (hfits : e.source.Fits sourceBase d.source.size)
    (hwords : words.length + 1 ≤ e.source.halfWords) (half : Half) (mode : OperatingMode) :
    ∃ launched : Loopback, launched.unsourced = given d.unsourced (words ++ [mode.tag]) ∧
      d.run (e.sendBurst half words mode) =
        launched.run (Completion.await e.mode .mm2s e.limit) := by
  have hoffset := hfits.offset_le half
  have hlength : (words ++ [mode.tag]).length = words.length + 1 := by simp
  have hrange : e.source.offset half + (words.length + 1) ≤ d.source.size := by omega
  have hstaged : (e.source.stage half words (some mode.tag)).run Window.answer d.source =
      (.ok (words ++ [mode.tag]).length,
        ⟨Memory.put d.source.words (e.source.offset half) (words ++ [mode.tag])⟩) :=
    Split.run_stage_of_le (by rwa [Option.toList_some, hlength])
      (by rwa [Option.toList_some, hlength])
  refine ⟨_, unsourced_launch_putting hfits half (by rw [hlength]; exact hwords), ?_⟩
  rw [sendBurst, run_bind, run_onWindow_source, hstaged, hlength]
  rfl

theorem run_replying (d : Loopback) (p : Proc Link.io (Except LinkError Unit)) (bytes : Nat) :
    d.run (do
      match ← p with
      | .error cause => return .error cause
      | .ok () => return .ok bytes) = ((d.run p).1.map fun _ => bytes, (d.run p).2) := by
  rw [run_bind]
  cases (d.run p).1 <;> rfl

/-- The same burst sent as one buffer is given over and waited for too. -/
theorem exists_run_send (haccepted : e.Accepted (d.geometry e.burstWords))
    (hwords : words.length + 1 ≤ e.source.halfWords) (mode : OperatingMode) :
    ∃ launched : Loopback, launched.unsourced = given d.unsourced (words ++ [mode.tag]) ∧
      d.run (e.send (words ++ [mode.tag])) =
        ((launched.run (Completion.await e.mode .mm2s e.limit)).1.map fun _ =>
            (words ++ [mode.tag]).length * wordBytes,
          (launched.run (Completion.await e.mode .mm2s e.limit)).2) := by
  have hfits : e.source.Fits sourceBase d.source.size := haccepted.source
  have hoffset := hfits.offset_le .a
  have hlength : (words ++ [mode.tag]).length = words.length + 1 := by simp
  have hsendable : ¬Unsendable (words ++ [mode.tag]) := by
    have hshort := haccepted.burst_le
    simp only [wordBytes, Layout.maxBurstBytes] at hshort
    rw [Unsendable, hlength]
    simp only [List.append_eq_nil_iff, List.cons_ne_nil, and_false, false_or]
    omega
  have hstored : d.source.store 0 (words ++ [mode.tag]) =
      (.ok (), (putting d 0 (words ++ [mode.tag])).source) := by
    refine Window.store_eq_ok_iff.2 ⟨?_, rfl⟩
    rw [hlength]
    simp only [Split.offset] at hoffset
    omega
  have hbase : e.source.address .a = e.source.base := UInt32.add_zero _
  refine ⟨_, unsourced_launch_putting hfits .a (by rw [hlength]; exact hwords), ?_⟩
  have hrun : d.run (Proc.onWindow .mm2s (Proc.perform (I := Window.io)
      (.store 0 (words ++ [mode.tag])))) = (.ok (), putting d 0 (words ++ [mode.tag])) := by
    refine (run_onWindow_source d _).trans ?_
    rw [show (Proc.perform (I := Window.io) (.store 0 (words ++ [mode.tag]))).run Window.answer
      d.source = _ from hstored]
    rfl
  rw [hbase, send_eq, if_neg hsendable, sendWords]
  exact (Proc.run_bind_of_eq hrun).trans ((run_bind _ _ _).trans (run_replying _ _ _))

/-- Pieces sent from alternating halves, and the same pieces sent one by one with their tag words,
    come to the same on devices that are alike, whichever half comes first. -/
theorem run_sendBursts_eq_sendEach {ws : List (List UInt64)} (halike : d.Alike d')
    (haccepted : e.Accepted (d.geometry e.burstWords))
    (hws : ∀ words ∈ ws, words.length ≤ e.burstWords) (half : Half) :
    (d.run (e.sendBursts half ws)).1 = (d'.run (e.sendEach ((train ws).map Burst.tagged))).1 ∧
      (d.run (e.sendBursts half ws)).2.Alike
        (d'.run (e.sendEach ((train ws).map Burst.tagged))).2 := by
  induction ws generalizing d d' half with
  | nil => exact ⟨rfl, halike⟩
  | cons words rest ih =>
    have hwords : words.length + 1 ≤ e.source.halfWords := by
      rw [haccepted.burst]
      exact Nat.succ_le_succ (hws words (by simp))
    have haccepted' : e.Accepted (d'.geometry e.burstWords) := halike.geometry ▸ haccepted
    let mode : OperatingMode := if rest.isEmpty then .complete else .partway
    obtain ⟨launched, hlaunched, hsplit⟩ := exists_run_sendBurst haccepted.source hwords half mode
    obtain ⟨launched', hlaunched', hsingly⟩ := exists_run_send haccepted' hwords mode
    -- The two launches hand over the same burst, so the waits that follow find the devices alike.
    have hgiven : launched.Alike launched' :=
      hlaunched.trans ((congrArg (given · _) halike).trans hlaunched'.symm)
    obtain ⟨hresult, hafter⟩ := hgiven.run (Completion.uses_await .mm2s e.limit e.mode)
    have hsize : (d.run (e.sendBurst half words mode)).2.geometry e.burstWords =
        d.geometry e.burstWords := geometry_run _ d _
    have htrain : (train (words :: rest)).map Burst.tagged =
        (words ++ [mode.tag]) :: (train rest).map Burst.tagged := rfl
    have hbursts : e.sendBursts half (words :: rest) = (do
        match ← e.sendBurst half words mode with
        | .error cause => return .error cause
        | .ok () => e.sendBursts half.other rest) := rfl
    rw [htrain, hbursts, sendEach, run_bind, run_bind, hsingly, ← hresult]
    rw [hsplit] at hsize ⊢
    cases (launched.run (Completion.await e.mode .mm2s e.limit)).1 with
    | error cause => exact ⟨rfl, hafter⟩
    | ok _ =>
      exact ih hafter (hsize ▸ haccepted) (fun words h => hws words (by simp [h])) half.other

end Engine

/-- A payload sent as a series of bursts is the same as its tagged bursts sent one by one, as far as
    the first that fails: whatever state the simulated device is in, both come to the same result
    and leave it with the same words received, tags, words to be echoed, end of layer, destination
    window and statuses. -/
theorem Session.sendSplit_eq_sendEach {mode : SyncMode} {burstWords : Nat} {e : Engine}
    {d : Loopback} {σ : Type} [Device σ]
    (hcreate : Engine.create mode (d.geometry burstWords) = .ok e) (link : σ)
    (operations : List Engine.Operation) {payload : List UInt64} (hpayload : payload ≠ []) :
    let engine := (performAll ⟨e, link⟩ operations).2.engine
    let count := (payload.length + burstWords - 1) / burstWords
    let buffers := (List.range count).map fun i =>
      (payload.drop (i * burstWords)).take burstWords ++ [(Engine.modeAt i count).tag]
    let split := d.run (engine.sendSplit payload)
    let singly := d.run (engine.sendEach buffers)
    split.1 = singly.1 ∧ split.2.received = singly.2.received ∧ split.2.tags = singly.2.tags ∧
      split.2.stream = singly.2.stream ∧ split.2.layerComplete = singly.2.layerComplete ∧
        split.2.destination = singly.2.destination ∧
          ∀ channel, split.2.status channel = singly.2.status channel := by
  intro engine count buffers split singly
  obtain ⟨haccepted, -, hburst⟩ : engine.Created mode (d.geometry burstWords) :=
    created_performAll (s := ⟨e, link⟩) (Engine.created_create hcreate) operations
  have hburst : engine.burstWords = burstWords := hburst
  have hpositive : 0 < burstWords := hburst ▸ haccepted.positive
  have hbuffers : buffers = (train (pieces burstWords payload)).map Burst.tagged :=
    (Engine.tagged_train_pieces hpositive payload).symm
  have hsplit : engine.sendSplit payload = engine.sendBursts .a (pieces burstWords payload) := by
    rw [Engine.sendSplit, hburst]
    exact if_neg (by simpa using hpayload)
  rw [← hburst] at haccepted
  have hshort : ∀ words ∈ pieces burstWords payload, words.length ≤ engine.burstWords :=
    fun words hwords => hburst ▸ length_le_of_mem_pieces hpositive hwords
  obtain ⟨hresult, halike⟩ :=
    Engine.run_sendBursts_eq_sendEach (show d.Alike d from rfl) haccepted hshort .a
  rw [← hsplit, ← hbuffers] at hresult halike
  exact ⟨hresult, halike.received, halike.tags, halike.stream, halike.layerComplete,
    halike.destination, halike.status⟩

/-- A chunk that a reception left armed is completed by the last burst of a payload, whichever way
    the payload is sent. -/
theorem Session.sendSplit_eq_sendEach_armed :
    ∃ e, let d := ((Loopback.create 6 256 none).run (do
        let _ ← e.start
        e.receive 4 [])).2
      Engine.create .poll (d.geometry 2) = .ok e ∧ d.armed = some ⟨destinationBase, 32⟩ ∧
        (d.run (e.sendSplit [5, 6, 7])).2.armed = none ∧
          (d.run (e.sendSplit [5, 6, 7])).1 =
            (d.run (e.sendEach [[5, 6, OperatingMode.partway.tag],
              [7, OperatingMode.complete.tag]])).1 ∧
            (d.run (e.sendSplit [5, 6, 7])).2.destination =
              (d.run (e.sendEach [[5, 6, OperatingMode.partway.tag],
                [7, OperatingMode.complete.tag]])).2.destination := by
  refine ⟨⟨.poll, ⟨6, sourceBase, 3⟩, ⟨256, destinationBase, 32⟩,
    Engine.limitOf defaultTimeout, 256, 2⟩, ?_⟩
  intro d
  have hcreate := Engine.create_small .poll
  rw [← Engine.geometry_create 6 256 2 none] at hcreate
  have hcreate : Engine.create .poll (d.geometry 2) = .ok _ :=
    (congrArg (Engine.create .poll) (geometry_run _ _ 2)).trans hcreate
  obtain ⟨hresult, -, -, -, -, hdestination, -⟩ :=
    sendSplit_eq_sendEach hcreate d [] (show ([5, 6, 7] : List UInt64) ≠ [] by decide)
  exact ⟨hcreate, by decide +kernel, by decide +kernel, hresult, hdestination⟩

end DmaLink
