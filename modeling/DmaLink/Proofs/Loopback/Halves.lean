import DmaLink.Proofs.Loopback.Port

namespace DmaLink.Loopback

/-- A burst as the device takes it in, its tag told from its words. -/
structure Burst where
  words : List UInt64
  mode : OperatingMode
deriving DecidableEq, Repr

/-- The half of a device that sends. -/
structure Outbound where
  port : Port
  source : Window

/-- The half of a device that receives, with the stream that it receives from. -/
structure Inbound where
  port : Port
  destination : Window
  /-- Words that are not echoed yet, oldest first. -/
  words : List UInt64
  /-- Whether a complete tag has closed the layer. -/
  closed : Bool
  armed : Option Arming

def outbound (d : Loopback) : Outbound := ⟨d.port .mm2s, d.source⟩

def inbound (d : Loopback) : Inbound where
  port := d.port .s2mm
  destination := d.destination
  words := d.stream.toList
  closed := d.layerComplete
  armed := d.armed

/-- The chunk of `size` words that a stream gives: its next words or, of a shorter one, all its
    words, zeros and the idle word. -/
def chunk (words : List UInt64) (size : Nat) : List UInt64 :=
  if size ≤ words.length then words.take size
  else words ++ List.replicate (size - 1 - words.length) 0 ++ [Word.idle]

/-- What completes a chunk is the chunk of the words in the stream. -/
theorem chunkOf_eq_chunk (stream : Stream) (size : Nat) :
    chunkOf stream size = chunk stream.toList size := by
  simp only [chunkOf, chunk, Stream.front_eq, Stream.length_toList]
  split
  · rfl
  · rw [List.take_of_length_le (by simp only [Stream.length_toList]; omega), Stream.length_toList]

/-- A chunk has its size, whatever there is to fill it. -/
theorem length_chunk (words : List UInt64) (size : Nat) :
    (chunk words size).length = size := by
  unfold chunk
  split
  case isTrue hfills => rw [List.length_take, Nat.min_eq_left hfills]
  case isFalse hshort =>
    simp only [List.length_append, List.length_replicate, List.length_singleton]
    omega

/-- A chunk of a stream that cannot fill it ends with the idle word. -/
theorem getElem?_chunk_of_short {words : List UInt64} {size : Nat} (hshort : words.length < size) :
    (chunk words size)[size - 1]? = some Word.idle := by
  have hlast := List.getLast?_eq_getElem? (l := chunk words size)
  rw [length_chunk] at hlast
  rw [← hlast, chunk, if_neg (Nat.not_le.2 hshort), List.getLast?_concat]

namespace Inbound

/-- Completes the armed chunk if that is possible now. -/
def complete (i : Inbound) : Inbound :=
  match i.armed with
  | none => i
  | some arming =>
    if !i.port.running || !i.closed && i.words.length < arming.words then i
    else
      match position? arming.address destinationBase with
      | none => { i with armed := none, port := i.port.fail }
      | some start =>
        if i.destination.size < start + arming.words then
          { i with armed := none, port := i.port.fail }
        else
          { port := i.port.finish
            destination :=
              ⟨Memory.put i.destination.words start (chunk i.words arming.words)⟩
            words := i.words.drop arming.words
            closed := i.closed && arming.words ≤ i.words.length
            armed := none }

/-- Puts the words of a burst behind those in the stream. -/
def extend (i : Inbound) (burst : Burst) : Inbound :=
  { i with words := i.words ++ burst.words, closed := i.closed || burst.mode == .complete }

/-- Takes a burst over. -/
def push (i : Inbound) (burst : Burst) : Inbound := (i.extend burst).complete

def pushAll (i : Inbound) (bursts : List Burst) : Inbound := bursts.foldl push i

@[simp]
theorem pushAll_nil (i : Inbound) : i.pushAll [] = i := rfl

@[simp]
theorem pushAll_cons (i : Inbound) (burst : Burst) (bursts : List Burst) :
    i.pushAll (burst :: bursts) = (i.push burst).pushAll bursts := rfl

@[simp]
theorem pushAll_append (i : Inbound) (bursts later : List Burst) :
    i.pushAll (bursts ++ later) = (i.pushAll bursts).pushAll later :=
  List.foldl_append

/-- With nothing armed a burst only joins the stream. -/
theorem push_of_unarmed {i : Inbound} (harmed : i.armed = none) (burst : Burst) :
    i.push burst = i.extend burst := by
  simp only [push, extend, complete, harmed]

theorem pushAll_of_unarmed {i : Inbound} (harmed : i.armed = none) (bursts : List Burst) :
    i.pushAll bursts = { i with
      words := i.words ++ bursts.flatMap Burst.words
      closed := i.closed || bursts.any fun burst => burst.mode == .complete } := by
  induction bursts generalizing i with
  | nil => simp
  | cons burst rest ih =>
    rw [pushAll_cons, push_of_unarmed harmed, ih (by exact harmed)]
    simp [extend, Bool.or_assoc]

theorem armed_pushAll_of_unarmed {i : Inbound} (harmed : i.armed = none) (bursts : List Burst) :
    (i.pushAll bursts).armed = none := by
  rw [pushAll_of_unarmed harmed]
  exact harmed

/-- Bursts that come over while nothing is armed do not touch the port. -/
theorem withPort_pushAll {i : Inbound} {bursts : List Burst}
    (hfree : i.armed = none ∨ bursts = []) (p : Port) :
    ({ i with port := p } : Inbound).pushAll bursts = { i.pushAll bursts with port := p } := by
  rcases hfree with harmed | rfl
  · rw [pushAll_of_unarmed harmed, pushAll_of_unarmed (by exact harmed)]
  · rfl

/-- With nothing armed, or nothing coming, the port stays as it is. -/
theorem port_pushAll {i : Inbound} {bursts : List Burst}
    (hfree : i.armed = none ∨ bursts = []) : (i.pushAll bursts).port = i.port := by
  have hsame : i.pushAll bursts = { i.pushAll bursts with port := i.port } :=
    withPort_pushAll hfree i.port
  rw [hsame]

end Inbound

/-- Two states of a device between which the sending half took bursts in. -/
structure Emits (d : Loopback) (bursts : List Burst) (d' : Loopback) : Prop where
  inbound : d'.inbound = d.inbound.pushAll bursts
  tags : d'.tags.toList = d.tags.toList ++ bursts.map Burst.mode
  received : d'.received.toList = d.received.toList ++ bursts.flatMap Burst.words
  stalled : d'.stalled = d.stalled

/-- What is given over in two steps is given over in one. -/
theorem Emits.trans {d d' d'' : Loopback} {bursts later : List Burst} (h : d.Emits bursts d')
    (h' : d'.Emits later d'') : d.Emits (bursts ++ later) d'' where
  inbound := by rw [h'.inbound, h.inbound, Inbound.pushAll_append]
  tags := by rw [h'.tags, h.tags, List.map_append, List.append_assoc]
  received := by rw [h'.received, h.received, List.flatMap_append, List.append_assoc]
  stalled := h'.stalled.trans h.stalled

/-- Two states of a device that differ at most in the receiving half and the logged writes. -/
structure KeepsOutbound (d d' : Loopback) : Prop where
  outbound : d'.outbound = d.outbound
  tags : d'.tags = d.tags
  received : d'.received = d.received
  stalled : d'.stalled = d.stalled

theorem KeepsOutbound.rfl {d : Loopback} : d.KeepsOutbound d := ⟨.refl _, .refl _, .refl _, .refl _⟩

theorem KeepsOutbound.trans {d d' d'' : Loopback} (h : d.KeepsOutbound d')
    (h' : d'.KeepsOutbound d'') : d.KeepsOutbound d'' where
  outbound := h'.outbound.trans h.outbound
  tags := h'.tags.trans h.tags
  received := h'.received.trans h.received
  stalled := h'.stalled.trans h.stalled

section Frame

variable {d d' : Loopback}

theorem AgreesBut.emits_nil (h : AgreesBut .mm2s d d') : d.Emits [] d' where
  inbound := by
    simp only [inbound, h.port .s2mm (by decide), h.destination, h.stream, h.layerComplete,
      h.armed, Inbound.pushAll_nil]
  tags := by simp [h.tags]
  received := by simp [h.received]
  stalled := h.stalled

theorem AgreesBut.outbound (h : AgreesBut .mm2s d d') :
    d'.outbound = { d.outbound with port := d'.port .mm2s } := by
  simp only [Loopback.outbound, h.source]

theorem AgreesBut.keepsOutbound (h : AgreesBut .s2mm d d') : d.KeepsOutbound d' where
  outbound := by simp only [Loopback.outbound, h.port .mm2s (by decide), h.source]
  tags := h.tags
  received := h.received
  stalled := h.stalled

theorem AgreesBut.inbound (h : AgreesBut .s2mm d d') :
    d'.inbound = { d.inbound with port := d'.port .s2mm } := by
  simp only [Loopback.inbound, h.destination, h.stream, h.layerComplete, h.armed]

end Frame

theorem port_setStatusBits (d : Loopback) (channel : Channel) (bits : UInt32) :
    (d.setStatusBits channel bits).port channel =
      { d.port channel with status := (d.port channel).status ||| bits } := by
  cases channel <;> simp [port, setStatusBits, status, Channel.status,
    Channel.control, Channel.address] <;> rfl

theorem agreesBut_setStatusBits (d : Loopback) (channel : Channel) (bits : UInt32) :
    AgreesBut channel d (d.setStatusBits channel bits) :=
  agreesBut_setRegister d channel (by simp) _

theorem port_fail (d : Loopback) (channel : Channel) :
    (d.fail channel).port channel = (d.port channel).fail :=
  port_setStatusBits d channel _

theorem agreesBut_fail (d : Loopback) (channel : Channel) : AgreesBut channel d (d.fail channel) :=
  agreesBut_setStatusBits d channel _

theorem finish_eq (d : Loopback) (channel : Channel) :
    d.finish channel = if (d.port channel).control &&& interruptEnable != 0
      then (d.setStatusBits channel Status.transferDone).raise channel
      else d.setStatusBits channel Status.transferDone := rfl

theorem raise_eq (d : Loopback) (channel : Channel) :
    d.raise channel =
      match d.lines with
      | none => d
      | some lines =>
        { d with lines := some (lines.set channel (lines.get channel).raise) } := by
  rcases d with ⟨_, _, _, _, _, _, _, _, _, _, _ | lines⟩ <;> rfl

theorem agreesBut_raise (d : Loopback) (channel : Channel) :
    AgreesBut channel d (d.raise channel) := by
  rw [raise_eq]
  split
  · exact .rfl
  · exact agreesBut_setLine d ‹_› channel _

theorem port_raise (d : Loopback) (channel : Channel) :
    (d.raise channel).port channel =
      { d.port channel with line := (d.port channel).line.map .raise } := by
  rw [raise_eq]
  split
  case h_1 hlines => simp [port, hlines]
  case h_2 lines hlines =>
    rw [port_setLine]
    simp [port, hlines]

/-- A burst that finishes shows at its port. -/
theorem port_finish (d : Loopback) (channel : Channel) :
    (d.finish channel).port channel = (d.port channel).finish := by
  rw [finish_eq, Port.finish]
  split
  · rw [port_raise, port_setStatusBits]
  · rw [port_setStatusBits]

/-- A burst that finishes changes its port alone. -/
theorem agreesBut_finish (d : Loopback) (channel : Channel) :
    AgreesBut channel d (d.finish channel) := by
  have hstatus := agreesBut_setStatusBits d channel Status.transferDone
  rw [finish_eq]
  split
  · exact hstatus.trans (agreesBut_raise _ channel)
  · exact hstatus

theorem fail_s2mm_spec {d d' : Loopback} (hkeeps : d.KeepsOutbound d') :
    (d'.fail .s2mm).inbound = { d'.inbound with port := d'.inbound.port.fail } ∧
      d.KeepsOutbound (d'.fail .s2mm) := by
  have hagrees := agreesBut_fail d' .s2mm
  exact ⟨by rw [hagrees.inbound, port_fail]; rfl, hkeeps.trans hagrees.keepsOutbound⟩

theorem finish_s2mm_spec {d d' : Loopback} (hkeeps : d.KeepsOutbound d') :
    (d'.finish .s2mm).inbound = { d'.inbound with port := d'.inbound.port.finish } ∧
      d.KeepsOutbound (d'.finish .s2mm) := by
  have hagrees := agreesBut_finish d' .s2mm
  exact ⟨by rw [hagrees.inbound, port_finish]; rfl, hkeeps.trans hagrees.keepsOutbound⟩

/-- Completing what is armed concerns the receiving half alone. -/
theorem completeChunk_spec (d : Loopback) (hstalled : d.stalled = false) :
    d.completeChunk.inbound = d.inbound.complete ∧ d.KeepsOutbound d.completeChunk := by
  have hsize : d.inbound.words.length = d.stream.size := d.stream.length_toList
  have hrunning : d.inbound.port.running = d.running .s2mm := rfl
  have hgoes : (d.stalled || !d.running .s2mm) = !d.running .s2mm := by
    rw [hstalled, Bool.false_or]
  unfold completeChunk Inbound.complete
  rw [hgoes, hrunning, hsize]
  -- The two ask the same things in another order, so each guard is decided on its own.
  cases harmed : d.armed with
  | none =>
    have hnone : d.inbound.armed = none := harmed
    simp only [hnone, ite_self]
    exact ⟨trivial, .rfl⟩
  | some arming =>
    have hsome : d.inbound.armed = some arming := harmed
    have hclosed : d.inbound.closed = d.layerComplete := rfl
    simp only [hsome, hclosed]
    cases d.running .s2mm with
    | false => exact ⟨rfl, .rfl⟩
    | true =>
      by_cases hwaits : d.stream.size < arming.words ∧ d.layerComplete = false
      · simp only [hwaits, Nat.not_le.2 hwaits.1]
        exact ⟨rfl, .rfl⟩
      · have hcompletes : ¬(¬arming.words ≤ d.stream.size ∧ (!d.layerComplete) = true) := by
          simpa using hwaits
        have hcompletes' : (!true || !d.layerComplete && decide (d.stream.size < arming.words)) =
            false := by
          simpa using fun hopen => by simpa [hopen] using hwaits
        rw [if_neg hcompletes, hcompletes']
        simp only [Bool.not_true, Bool.false_eq_true, if_false]
        cases position? arming.address destinationBase with
        | none =>
          exact fail_s2mm_spec ⟨rfl, rfl, rfl, rfl⟩
        | some start =>
          simp only
          by_cases hrange : d.destination.size < start + arming.words
          · have hrange' : d.inbound.destination.size < start + arming.words := hrange
            rw [if_pos hrange, if_pos hrange']
            exact fail_s2mm_spec ⟨rfl, rfl, rfl, rfl⟩
          · have hrange' : ¬d.inbound.destination.size < start + arming.words := hrange
            rw [if_neg hrange, if_neg hrange']
            have hwords : d.inbound.words = d.stream.toList := rfl
            rw [hwords, ← chunkOf_eq_chunk, ← Stream.toList_drop]
            exact finish_s2mm_spec ⟨rfl, rfl, rfl, rfl⟩

/-- A tagged burst puts its data into the stream; its tag is recorded and a complete one closes the
    layer. -/
theorem takeBurst_tagged (d : Loopback) (data : List UInt64) (mode : OperatingMode) :
    d.takeBurst (data ++ [mode.tag]) =
      { d with
        tags := d.tags.push mode
        layerComplete := d.layerComplete || mode == .complete
        received := d.received ++ data.toArray
        stream := d.stream.append data } := by
  have hmode : OperatingMode.ofWord? mode.tag = some mode := OperatingMode.ofWord?_eq_some_iff.2 rfl
  simp only [takeBurst, List.getLast?_concat, Option.bind_some, hmode, List.dropLast_concat]

/-- A length written to a running sending channel takes the tagged burst at its address in. -/
theorem sendBurst_spec {d : Loopback} (hstalled : d.stalled = false)
    (hrunning : d.outbound.port.running = true) {bytes start : Nat} {data : List UInt64}
    {mode : OperatingMode}
    (hposition : position? d.outbound.port.address sourceBase = some start)
    (hrange : start + bytes / wordBytes ≤ d.source.size)
    (hburst : (d.source.words.extract start (start + bytes / wordBytes)).toList =
      data ++ [mode.tag]) :
    (d.sendBurst bytes).outbound = { d.outbound with port := d.outbound.port.finish } ∧
      d.Emits [⟨data, mode⟩] (d.sendBurst bytes) := by
  have hrunning' : d.running .mm2s = true := hrunning
  have hposition' : position? (d.register Channel.mm2s.address) sourceBase = some start := hposition
  have hsend : d.sendBurst bytes =
      ((d.takeBurst (data ++ [mode.tag])).finish .mm2s).completeChunk := by
    simp only [sendBurst, hrunning', hstalled, hposition', hburst, Nat.not_lt.2 hrange]
    rfl
  have hfinish := agreesBut_finish (d.takeBurst (data ++ [mode.tag])) .mm2s
  have hport := port_finish (d.takeBurst (data ++ [mode.tag])) .mm2s
  have hfinished := hfinish.emits_nil
  obtain ⟨hcomplete, hkeeps⟩ := completeChunk_spec _ (hfinish.stalled.trans
    ((congrArg stalled (takeBurst_tagged d data mode)).trans hstalled))
  rw [hsend]
  refine ⟨?_, ?_, ?_, ?_, ?_⟩
  · rw [hkeeps.outbound, hfinish.outbound, hport, takeBurst_tagged]
    rfl
  · rw [hcomplete, hfinished.inbound, takeBurst_tagged]
    simp only [inbound, Stream.toList_append, Inbound.pushAll_nil, Inbound.pushAll_cons,
      Inbound.push]
    rfl
  · rw [hkeeps.tags, hfinish.tags, takeBurst_tagged]
    simp
  · rw [hkeeps.received, hfinish.received, takeBurst_tagged]
    simp
  · rw [hkeeps.stalled, hfinish.stalled, takeBurst_tagged]

/-- A length written to a running receiving channel arms it and completes what it can. -/
theorem arm_spec {d : Loopback} (hstalled : d.stalled = false)
    (hrunning : d.inbound.port.running = true) (bytes : Nat) :
    (d.arm bytes).inbound = ({ d.inbound with
        armed := some ⟨d.inbound.port.address, bytes / wordBytes⟩ } : Inbound).complete ∧
      d.KeepsOutbound (d.arm bytes) := by
  have hrunning' : d.running .s2mm = true := hrunning
  have harm : d.arm bytes = completeChunk { d with
      armed := some ⟨d.register Channel.s2mm.address, bytes / wordBytes⟩ } := by
    rw [arm, hrunning']
    rfl
  have harmed : d.KeepsOutbound { d with
      armed := some ⟨d.register Channel.s2mm.address, bytes / wordBytes⟩ } := ⟨rfl, rfl, rfl, rfl⟩
  obtain ⟨hcomplete, hkeeps⟩ := completeChunk_spec _ (harmed.stalled.trans hstalled)
  rw [harm]
  exact ⟨hcomplete, harmed.trans hkeeps⟩

end DmaLink.Loopback
