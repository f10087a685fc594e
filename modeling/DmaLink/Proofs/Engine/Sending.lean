import DmaLink.Proofs.Engine.Geometry
import DmaLink.Proofs.Engine.Pieces
import DmaLink.Proofs.Loopback.Exchange

namespace DmaLink.Engine

open Loopback

/-- A sending half that is ready for a burst. -/
structure SendReady (e : Engine) (o : Outbound) : Prop where
  quiet : o.port.Quiet e.mode
  source : e.source.Fits sourceBase o.source.size

/-- A send succeeded and left the half ready. -/
def Sent (e : Engine) {α : Type} (result : α) (r : Except LinkError α) (o : Outbound) : Prop :=
  r = .ok result ∧ e.SendReady o

variable {e : Engine} {o : Outbound}

/-- The wait for a burst that has gone over succeeds and gives nothing over. -/
theorem sends_await (hfinished : o.port.Finished e.mode)
    (hsource : e.source.Fits sourceBase o.source.size) :
    Sends (e.Sent ()) (Completion.await e.mode .mm2s e.limit) o [] := by
  obtain ⟨p, hruns, hquiet⟩ := hfinished.await .mm2s e.limit
  apply (Sends.of_runs hruns rfl).mono
  rintro r o' ⟨rfl, rfl⟩
  exact ⟨rfl, hquiet, hsource⟩

/-- A tagged burst that stands in the source window goes over when it is launched. -/
theorem sends_launch (hready : e.SendReady o) {address : UInt32} {bytes start : Nat}
    {data : List UInt64} {mode : OperatingMode} (hbytes : bytes < UInt32.size)
    (hposition : position? address sourceBase = some start)
    (hrange : start + bytes / wordBytes ≤ o.source.size)
    (hburst : (o.source.words.extract start (start + bytes / wordBytes)).toList =
      data ++ [mode.tag]) :
    Sends (fun _ o' => o'.port.Finished e.mode ∧ o'.source = o.source)
      (launch .mm2s address bytes) o [⟨data, mode⟩] := by
  have hquiet := hready.quiet.withAddress address
  refine .act_silent ((Port.answers_writeAddress address).outbound rfl) ?_
  refine .act (Outbound.steps_length (o := { o with port := { o.port with address } })
    hquiet.1 hbytes hposition hrange hburst) ?_
  exact ⟨rfl, hquiet.finish, rfl⟩

/-- A tagged burst that stands at the start of a source half goes over when it is launched. -/
theorem sends_launch_half (hready : e.SendReady o) {half : Half} {data : List UInt64}
    {mode : OperatingMode} (hfits : data.length + 1 ≤ e.source.halfWords)
    (hburst : (o.source.words.extract (e.source.offset half)
      (e.source.offset half + (data.length + 1))).toList = data ++ [mode.tag]) :
    Sends (fun _ o' => o'.port.Finished e.mode ∧ e.source.Fits sourceBase o'.source.size)
      (launch .mm2s (e.source.address half) ((data.length + 1) * wordBytes)) o
      [⟨data, mode⟩] := by
  have hwords : (data.length + 1) * wordBytes / wordBytes = data.length + 1 :=
    Nat.mul_div_cancel _ (by decide)
  have hoffset := hready.source.offset_le half
  have hbytes := hready.source.bytes_lt
  refine (sends_launch hready ?_ (hready.source.position?_address half) ?_ ?_).mono ?_
  · exact Nat.lt_of_le_of_lt (Nat.mul_le_mul_right _ hfits) hbytes
  · omega
  · rw [hwords, hburst]
  · rintro r o' ⟨hfinished, hsource⟩
    exact ⟨hfinished, by rw [hsource]; exact hready.source⟩

/-- The source window after a burst has been staged in a half. -/
def staged (e : Engine) (o : Outbound) (half : Half) (words : List UInt64)
    (mode : OperatingMode) : Outbound :=
  { o with source := ⟨Memory.put (Memory.put o.source.words (e.source.offset half) words)
      (e.source.offset half + words.length) [mode.tag]⟩ }

/-- Staging a burst leaves the half ready. -/
theorem SendReady.staged (hready : e.SendReady o) (half : Half) (words : List UInt64)
    (mode : OperatingMode) : e.SendReady (e.staged o half words mode) where
  quiet := hready.quiet
  source := by
    simpa only [Engine.staged, Window.size, Memory.size_put] using hready.source

/-- A burst that has been staged stands in its half with its tag. -/
theorem extract_staged {half : Half} {words : List UInt64}
    (hrange : e.source.offset half + (words.length + 1) ≤ o.source.size) (mode : OperatingMode) :
    ((e.staged o half words mode).source.words.extract (e.source.offset half)
      (e.source.offset half + (words.length + 1))).toList = words ++ [mode.tag] := by
  have hlength : (words ++ [mode.tag]).length = words.length + 1 := by simp
  rw [staged, ← Memory.put_append]
  exact Memory.extract_put hlength hrange

/-- A burst that fits its half goes over with its tag. -/
theorem sends_sendBurst (hready : e.SendReady o) {half : Half} {words : List UInt64}
    {mode : OperatingMode} (hfits : words.length + 1 ≤ e.source.halfWords) :
    Sends (e.Sent ()) (e.sendBurst half words mode) o [⟨words, mode⟩] := by
  have hoffset := hready.source.offset_le half
  have hstage : checkBounds 0 (words.length + 1) e.source.halfWords = .ok () := by
    rw [checkBounds, if_pos (by omega)]
  have hlaunched := (sends_launch_half (hready.staged half words mode) hfits
    (extract_staged (by omega) mode)).bind_silent
      (f := fun _ => Completion.await e.mode .mm2s e.limit) fun _ _ h => sends_await h.1 h.2
  unfold sendBurst Split.stage
  simp only [Option.toList, List.length_singleton, hstage]
  refine .act_silent (o.steps_store ?_) (.act_silent (Outbound.steps_store _ ?_) hlaunched)
  · omega
  · simp only [Window.size, Memory.size_put, List.length_singleton] at hoffset ⊢
    omega

/-- Words sent verbatim with a tag at their end go over as the burst of that tag. -/
theorem sends_sendWords (hready : e.SendReady o) (data : List UInt64) (mode : OperatingMode)
    (hfits : data.length + 1 ≤ e.source.halfWords) :
    Sends (e.Sent ((data.length + 1) * wordBytes)) (e.sendWords (data ++ [mode.tag])) o
      [⟨data, mode⟩] := by
  have hoffset := hready.source.offset_le .a
  have hbase : e.source.address .a = e.source.base := UInt32.add_zero _
  have hstaged : e.staged o .a data mode =
      { o with source := ⟨Memory.put o.source.words 0 (data ++ [mode.tag])⟩ } := by
    simp only [staged, Memory.put_append, Split.offset]
  have hlaunched := sends_launch_half (hready.staged .a data mode) hfits
    (extract_staged (Nat.le_trans (Nat.add_le_add_left hfits _) hoffset) mode)
  rw [hbase, hstaged] at hlaunched
  unfold sendWords
  simp only [List.length_append, List.length_singleton]
  refine .act_silent (o.steps_store ?_) (hlaunched.bind_silent fun _ o' hfinished => ?_)
  · simp only [Split.offset, List.length_append, List.length_singleton] at hoffset ⊢
    omega
  · apply (sends_await hfinished.1 hfinished.2).bind_silent
    rintro r o' ⟨rfl, hready'⟩
    exact ⟨rfl, rfl, hready'⟩

/-- A row of pieces goes over as a train. -/
theorem sends_sendBursts {half : Half} {ws : List (List UInt64)}
    (hfits : ∀ words ∈ ws, words.length + 1 ≤ e.source.halfWords) (hready : e.SendReady o) :
    Sends (e.Sent ()) (e.sendBursts half ws) o (train ws) := by
  induction ws generalizing o half with
  | nil => exact ⟨rfl, rfl, hready⟩
  | cons words rest ih =>
    apply (sends_sendBurst hready (hfits words (by simp))).bind
    rintro r o' ⟨rfl, hready'⟩
    exact ih (fun words hwords => hfits words (by simp [hwords])) hready'

/-- A payload goes over as the train of its pieces. -/
theorem sends_sendSplit {sourceWords destinationWords : Nat}
    (hsuits : e.Suits sourceWords destinationWords) (hready : e.SendReady o)
    {payload : List UInt64} (hpayload : payload ≠ []) :
    Sends (e.Sent ()) (e.sendSplit payload) o (train (pieces e.burstWords payload)) := by
  rw [sendSplit, if_neg (by simpa using hpayload)]
  refine sends_sendBursts ?_ hready
  intro words hwords
  rw [hsuits.burst]
  exact Nat.succ_le_succ (length_le_of_mem_pieces hsuits.positive hwords)

end DmaLink.Engine
