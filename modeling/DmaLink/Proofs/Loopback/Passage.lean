import DmaLink.Proofs.Loopback.Signals

namespace DmaLink.Loopback

/-- What can happen to a device. -/
inductive Stimulus where
  | access (access : Link.Access)
  | stall (stalled : Bool)
deriving DecidableEq, Repr

/-- The device after a stimulus. -/
def step (d : Loopback) : Stimulus → Loopback
  | .access access => (d.answer access).2
  | .stall stalled => d.setStalled stalled

def stepAll (d : Loopback) (stimuli : List Stimulus) : Loopback := stimuli.foldl step d

/-- A chunk that was completed. -/
structure Landing where
  arming : Arming
  /-- Where the chunk lies in the destination window. -/
  start : Nat
  /-- The words that were taken out of the stream for it. -/
  popped : List UInt64
deriving DecidableEq, Repr

/-- What was written to the destination window for the chunk. -/
def Landing.contents (l : Landing) : List UInt64 := chunk l.popped l.arming.words

/-- What became of the receiving channel in a step. -/
inductive Outcome where
  /-- It completed nothing. -/
  | idle
  | landed (landing : Landing)
  /-- It had an invalid address or range. -/
  | failed (arming : Arming)
deriving DecidableEq, Repr

namespace Outcome

/-- The words that left the stream. -/
def popped : Outcome → List UInt64
  | .landed landing => landing.popped
  | _ => []

/-- Whether the chunk that was armed is done with. -/
def settles : Outcome → Bool
  | .idle => false
  | _ => true

end Outcome

namespace Stimulus

/-- A store to the destination window. -/
def IsStore (stimulus : Stimulus) : Prop :=
  ∃ start words, stimulus = .access (.window .s2mm (.store start words))

/-- Whether the stimulus writes the length of the receiving channel. -/
def isArming : Stimulus → Bool
  | .access (.writeRegister offset _) => offset = Channel.s2mm.length
  | _ => false

theorem write_ne {offset other : Nat} (hoffset : offset ≠ other) {value : UInt32}
    (value' : UInt32) :
    Stimulus.access (.writeRegister offset value) ≠ .access (.writeRegister other value') := by
  rintro ⟨⟩
  exact hoffset rfl

end Stimulus

/-- What is armed once the stimulus itself has been dealt with, before anything completes. -/
def armedBy (d : Loopback) : Stimulus → Option Arming
  | .access (.writeRegister offset value) =>
    if offset = Channel.s2mm.length ∧ d.running .s2mm = true then
      some ⟨d.register Channel.s2mm.address, value.toNat / wordBytes⟩
    else if offset = Channel.s2mm.control ∧ value &&& Control.reset ≠ 0 then none
    else d.armed
  | _ => d.armed

/-- The sending channel does not take a burst of `bytes` bytes: it is halted, the device is stalled
    or no such burst lies at its address. -/
def Refuses (d : Loopback) (bytes : Nat) : Prop :=
  d.running .mm2s = false ∨ d.stalled = true ∨
    ∀ start, position? (d.register Channel.mm2s.address) sourceBase = some start →
      d.source.size < start + bytes / wordBytes

/-- The stimulus makes the receiving channel try to complete what is armed. -/
def Attempts (d : Loopback) : Stimulus → Prop
  | .access (.writeRegister offset value) =>
    offset = Channel.mm2s.length ∧ ¬d.Refuses value.toNat ∨
      offset = Channel.s2mm.length ∧ d.running .s2mm = true ∨
      offset = Channel.s2mm.control ∧ value &&& Control.reset = 0 ∧ value &&& Control.run ≠ 0
  | .stall stalled => stalled = false
  | _ => False

/-- A chunk is armed, nothing holds the receiving channel, and the stream fills the chunk or the
    layer is complete. -/
structure Due (d : Loopback) : Prop where
  going : d.stalled = false ∧ d.running .s2mm = true
  supplied : ∃ arming, d.armed = some arming ∧
    (arming.words ≤ d.stream.size ∨ d.layerComplete = true)

/-- The armed range is no part of the destination window. -/
def Arming.Invalid (arming : Arming) (size : Nat) : Prop :=
  ∀ start, position? arming.address destinationBase = some start → size < start + arming.words

/-- A chunk was put into the window `destination`, and `d'` is the device after it. -/
structure Landing.Lands (l : Landing) (destination : Window) (d' : Loopback) : Prop where
  position : position? l.arming.address destinationBase = some l.start
  inside : l.start + l.arming.words ≤ destination.size
  /-- The chunk takes the next words or, if there are fewer, all that are left. -/
  length_le : l.popped.length ≤ l.arming.words
  drained : l.popped.length < l.arming.words → d'.stream.toList = []
  /-- Nothing but the armed range is written, and no word of the stream is lost in it. -/
  written : d'.destination.words = Memory.put destination.words l.start l.contents
  length_contents : l.contents.length = l.arming.words
  popped_prefix : l.popped <+: l.contents

/-- The receiving channel gave up what was armed. -/
structure Arming.Fails (arming : Arming) (d d' : Loopback) : Prop where
  invalid : arming.Invalid d.destination.size
  destination : d'.destination = d.destination
  shows : ∀ bit ∈ [Status.decodeError, Status.errorInterrupt, Status.halted],
    Status.shows (d'.status .s2mm) bit = true

/-- What a step did to the device. -/
structure Effect (d : Loopback) (stimulus : Stimulus) (outcome : Outcome) (d' : Loopback) :
    Prop where
  passes : ∃ sent, d'.received.toList = d.received.toList ++ sent ∧
    d.stream.toList ++ sent = outcome.popped ++ d'.stream.toList
  idle : outcome = .idle → d'.armed = d.armedBy stimulus ∧
    (¬stimulus.IsStore → d'.destination = d.destination)
  landed : ∀ l, outcome = .landed l →
    d.armedBy stimulus = some l.arming ∧ d'.armed = none ∧ l.Lands d.destination d'
  failed : ∀ arming, outcome = .failed arming →
    d.armedBy stimulus = some arming ∧ d'.armed = none ∧ arming.Fails d d'
  refused : ∀ value, stimulus = .access (.writeRegister Channel.mm2s.length value) →
    d.Refuses value.toNat → d'.stream = d.stream ∧ d'.received = d.received ∧ d'.tags = d.tags ∧
      d'.destination = d.destination
  frozen : ¬stimulus.IsStore → d'.stalled = true ∨ d'.running .s2mm = false →
    d'.destination = d.destination
  /-- An attempt leaves nothing that it could have completed or failed. -/
  attempted : d.Attempts stimulus → ¬d'.Due

/-- A chunk takes no more than its size. -/
theorem chunk_take (words : List UInt64) (size : Nat) :
    chunk (words.take size) size = chunk words size := by
  unfold chunk
  rw [List.length_take]
  by_cases hfills : size ≤ words.length
  · rw [if_pos hfills, if_pos (by omega), List.take_take, Nat.min_self]
  · rw [if_neg hfills, if_neg (by omega), List.take_of_length_le (by omega),
      Nat.min_eq_right (by omega)]

/-- A chunk begins with the words that fill it. -/
theorem prefix_chunk {words : List UInt64} {size : Nat} (hlength : words.length ≤ size) :
    words <+: chunk words size := by
  unfold chunk
  split
  · exact (List.take_of_length_le hlength).symm ▸ List.prefix_rfl
  · rw [List.append_assoc]
    exact List.prefix_append _ _

/-- How completing what is armed ends. -/
inductive Ends (d : Loopback) : Outcome → Prop where
  | idle (hsame : d.completeChunk = d) (hwaits : ¬d.Due) : Ends d .idle
  | landed {l : Landing} (harmed : d.armed = some l.arming)
      (hgoes : d.stalled = false ∧ d.running .s2mm = true)
      (hposition : position? l.arming.address destinationBase = some l.start)
      (hinside : l.start + l.arming.words ≤ d.destination.size)
      (hpopped : l.popped = d.stream.toList.take l.arming.words)
      (hleaves : d.completeChunk =
        (d.filled l.arming ⟨Memory.put d.destination.words l.start l.contents⟩).finish .s2mm) :
      Ends d (.landed l)
  | failed {arming : Arming} (harmed : d.armed = some arming)
      (hinvalid : arming.Invalid d.destination.size)
      (hleaves : d.completeChunk = ({ d with armed := none } : Loopback).fail .s2mm) :
      Ends d (.failed arming)

theorem not_due_of_unarmed {d : Loopback} (hunarmed : d.armed = none) : ¬d.Due := by
  rintro ⟨-, arming, harmed, -⟩
  exact nomatch harmed.symm.trans hunarmed

/-- Completing what is armed ends in one of the three ways. -/
theorem exists_ends (d : Loopback) : ∃ outcome, d.Ends outcome := by
  by_cases hgoes : d.stalled = false ∧ d.running .s2mm = true
  case neg =>
    refine ⟨.idle, .idle (if_pos ?_) fun hdue => hgoes hdue.going⟩
    cases hstalled : d.stalled <;> cases hrunning : d.running .s2mm <;> simp_all
  have hguard : (d.stalled || !d.running .s2mm) = false := by rw [hgoes.1, hgoes.2]; rfl
  cases harmed : d.armed with
  | none =>
    refine ⟨.idle, .idle ?_ (not_due_of_unarmed harmed)⟩
    simp only [completeChunk, hguard, harmed, ite_self]
  | some arming =>
    by_cases hwaits : ¬arming.words ≤ d.stream.size ∧ !d.layerComplete
    · refine ⟨.idle, .idle (by simp [completeChunk, hguard, harmed, hwaits]) ?_⟩
      rintro ⟨-, other, hother, hsupplied⟩
      obtain rfl := Option.some.inj (harmed.symm.trans hother)
      rcases hsupplied with hfills | hcomplete
      · exact hwaits.1 hfills
      · simp [hcomplete] at hwaits
    cases hposition : position? arming.address destinationBase with
    | none =>
      refine ⟨.failed arming, .failed harmed (fun start hstart => ?_) ?_⟩
      · rw [hposition] at hstart
        cases hstart
      · simp only [completeChunk, hguard, harmed, hwaits, hposition]
        rfl
    | some start =>
      by_cases hrange : d.destination.size < start + arming.words
      · refine ⟨.failed arming, .failed harmed (fun start' hstart => ?_) ?_⟩
        · rw [hposition] at hstart
          cases hstart
          exact hrange
        · simp only [completeChunk, hguard, harmed, hwaits, hposition, hrange]
          rfl
      · refine ⟨.landed ⟨arming, start, d.stream.toList.take arming.words⟩,
          .landed harmed hgoes hposition (Nat.not_lt.1 hrange) rfl ?_⟩
        simp only [completeChunk, hguard, harmed, hwaits, hposition, hrange, Landing.contents,
          chunk_take, chunkOf_eq_chunk]
        rfl

/-- The state of a device once a stimulus has been dealt with and nothing has completed yet. -/
structure Prepares (d : Loopback) (stimulus : Stimulus) (sent : List UInt64) (d' : Loopback) :
    Prop where
  received : d'.received.toList = d.received.toList ++ sent
  stream : d'.stream.toList = d.stream.toList ++ sent
  destination : d'.destination = d.destination
  armed : d'.armed = d.armedBy stimulus
  accepted : ∀ value, stimulus = .access (.writeRegister Channel.mm2s.length value) →
    ¬d.Refuses value.toNat

/-- A state of a device that differs from another at most in its registers, in what is armed and in
    whether it is stalled. -/
structure Rests (d d' : Loopback) : Prop where
  received : d'.received = d.received
  stream : d'.stream = d.stream
  destination : d'.destination = d.destination
  tags : d'.tags = d.tags

theorem shows_fail (d : Loopback) :
    ∀ bit ∈ [Status.decodeError, Status.errorInterrupt, Status.halted],
      Status.shows ((d.fail .s2mm).status .s2mm) bit = true := by
  intro bit hbit
  have hstatus : (d.fail .s2mm).status .s2mm = (d.port .s2mm).fail.status :=
    congrArg Port.status (port_fail d .s2mm)
  simp only [List.mem_cons, List.not_mem_nil, or_false] at hbit
  rw [hstatus]
  obtain rfl | rfl | rfl := hbit <;> exact Status.shows_or _ (by decide) (by decide)

/-- A burst that finishes does not halt its channel. -/
theorem running_finish (d : Loopback) (channel : Channel) :
    (d.finish channel).running channel = d.running channel :=
  (running_of_port (port_finish d channel)).trans (Port.running_finish _)

section Effects

variable {d d' : Loopback} {stimulus : Stimulus} {sent : List UInt64}

/-- A stimulus that concerns registers alone has no effect on what passes. -/
theorem Rests.effect (hrests : d.Rests d') (harmed : d'.armed = d.armedBy stimulus)
    (hnone : ¬d.Attempts stimulus) : d.Effect stimulus .idle d' where
  passes := ⟨[], by rw [hrests.received, List.append_nil], by
    rw [hrests.stream, List.append_nil]
    rfl⟩
  idle _ := ⟨harmed, fun _ => hrests.destination⟩
  landed _ hnone := nomatch hnone
  failed _ hnone := nomatch hnone
  refused _ _ _ := ⟨hrests.stream, hrests.received, hrests.tags, hrests.destination⟩
  frozen _ _ := hrests.destination
  attempted hattempts := absurd hattempts hnone

/-- What a device with enough in its stream puts where the chunk was armed. -/
theorem Landing.lands {l : Landing}
    (hposition : position? l.arming.address destinationBase = some l.start)
    (hinside : l.start + l.arming.words ≤ d.destination.size)
    (hpopped : l.popped = d.stream.toList.take l.arming.words) :
    l.Lands d.destination
      ((d.filled l.arming ⟨Memory.put d.destination.words l.start l.contents⟩).finish .s2mm) := by
  have hagrees := agreesBut_finish
    (d.filled l.arming ⟨Memory.put d.destination.words l.start l.contents⟩) .s2mm
  have hlength : l.popped.length = min l.arming.words d.stream.toList.length := by
    rw [hpopped, List.length_take]
  refine ⟨hposition, hinside, by omega, fun hshort => ?_, ?_, length_chunk _ _,
    prefix_chunk (by omega)⟩
  · rw [hagrees.stream, filled, Stream.toList_drop]
    exact List.drop_eq_nil_of_le (by omega)
  · rw [hagrees.destination, filled]

/-- With nothing due, all that happens is what was sent. -/
theorem Prepares.effect_idle (hprepares : d.Prepares stimulus sent d') (hwaits : ¬d'.Due) :
    d.Effect stimulus .idle d' where
  passes := ⟨sent, hprepares.received, hprepares.stream.symm⟩
  idle _ := ⟨hprepares.armed, fun _ => hprepares.destination⟩
  landed _ hnone := nomatch hnone
  failed _ hnone := nomatch hnone
  refused value hlength hrefuses := absurd hrefuses (hprepares.accepted value hlength)
  frozen _ _ := hprepares.destination
  attempted _ := hwaits

/-- An armed range that is no part of the window fails once it is due. -/
theorem Prepares.effect_failed (hprepares : d.Prepares stimulus sent d') {arming : Arming}
    (harmed : d'.armed = some arming) (hinvalid : arming.Invalid d'.destination.size) :
    d.Effect stimulus (.failed arming) (({ d' with armed := none } : Loopback).fail .s2mm) := by
  have hagrees := agreesBut_fail { d' with armed := none } .s2mm
  have hdestination : (({ d' with armed := none } : Loopback).fail .s2mm).destination =
      d.destination := hagrees.destination.trans hprepares.destination
  refine {
    passes := ⟨sent, ?_, ?_⟩
    idle := Outcome.noConfusion
    landed := fun _ => Outcome.noConfusion
    failed := ?_
    refused := fun value hlength hrefuses =>
      absurd hrefuses (hprepares.accepted value hlength)
    frozen := fun _ _ => hdestination
    attempted := fun _ => not_due_of_unarmed hagrees.armed }
  · rw [hagrees.received]
    exact hprepares.received
  · rw [hagrees.stream]
    exact hprepares.stream.symm
  · rintro _ ⟨⟩
    exact ⟨hprepares.armed.symm.trans harmed, hagrees.armed, hprepares.destination ▸ hinvalid,
      hdestination, shows_fail _⟩

/-- An armed range that is part of the window takes its chunk once it is due. -/
theorem Prepares.effect_landed (hprepares : d.Prepares stimulus sent d') {l : Landing}
    (harmed : d'.armed = some l.arming) (hgoes : d'.stalled = false ∧ d'.running .s2mm = true)
    (hpopped : l.popped = d'.stream.toList.take l.arming.words) {destination : Window}
    (hlands : l.Lands d'.destination ((d'.filled l.arming destination).finish .s2mm)) :
    d.Effect stimulus (.landed l) ((d'.filled l.arming destination).finish .s2mm) := by
  have hagrees := agreesBut_finish (d'.filled l.arming destination) .s2mm
  have hruns : ((d'.filled l.arming destination).finish .s2mm).running .s2mm = true :=
    (running_finish _ _).trans hgoes.2
  have hstalled : ((d'.filled l.arming destination).finish .s2mm).stalled = false :=
    hagrees.stalled.trans hgoes.1
  refine {
    passes := ⟨sent, ?_, ?_⟩
    idle := Outcome.noConfusion
    landed := ?_
    failed := fun _ => Outcome.noConfusion
    refused := fun value hlength hrefuses =>
      absurd hrefuses (hprepares.accepted value hlength)
    frozen := ?_
    attempted := fun _ => not_due_of_unarmed hagrees.armed }
  · rw [hagrees.received]
    exact hprepares.received
  · rw [hagrees.stream, filled, Stream.toList_drop, ← hprepares.stream, Outcome.popped, hpopped,
      List.take_append_drop]
  · rintro _ ⟨⟩
    exact ⟨hprepares.armed.symm.trans harmed, hagrees.armed, hprepares.destination ▸ hlands⟩
  · rintro - (hfrozen | hfrozen)
    · rw [hstalled] at hfrozen
      cases hfrozen
    · rw [hruns] at hfrozen
      cases hfrozen

/-- A stimulus that has been dealt with has the effect of the completion behind it. -/
theorem Prepares.effect (hprepares : d.Prepares stimulus sent d') :
    ∃ outcome, d.Effect stimulus outcome d'.completeChunk := by
  obtain ⟨outcome, hends⟩ := d'.exists_ends
  refine ⟨outcome, ?_⟩
  cases hends with
  | idle hsame hwaits =>
    rw [hsame]
    exact hprepares.effect_idle hwaits
  | failed harmed hinvalid hleaves =>
    rw [hleaves]
    exact hprepares.effect_failed harmed hinvalid
  | landed harmed hgoes hposition hinside hpopped hleaves =>
    rw [hleaves]
    exact hprepares.effect_landed harmed hgoes hpopped (Landing.lands hposition hinside hpopped)

/-- Only a length or a reset of the receiving channel changes what is armed. -/
theorem armedBy_of_ne (d : Loopback) {offset : Nat} (value : UInt32)
    (hlength : offset ≠ Channel.s2mm.length) (hcontrol : offset ≠ Channel.s2mm.control) :
    d.armedBy (.access (.writeRegister offset value)) = d.armed := by
  rw [armedBy, if_neg fun h => hlength h.1, if_neg fun h => hcontrol h.1]

/-- A write to any other register attempts nothing. -/
theorem not_attempts_of_ne (d : Loopback) {offset : Nat} (value : UInt32)
    (hsend : offset ≠ Channel.mm2s.length) (hlength : offset ≠ Channel.s2mm.length)
    (hcontrol : offset ≠ Channel.s2mm.control) :
    ¬d.Attempts (.access (.writeRegister offset value)) := by
  rintro (hattempts | hattempts | hattempts)
  · exact hsend hattempts.1
  · exact hlength hattempts.1
  · exact hcontrol hattempts.1

theorem not_attempts_of_refuses {value : UInt32} (hrefuses : d.Refuses value.toNat) :
    ¬d.Attempts (.access (.writeRegister Channel.mm2s.length value)) := by
  rintro (hattempts | hattempts | hattempts)
  · exact hattempts.2 hrefuses
  · exact absurd hattempts.1 (by decide)
  · exact absurd hattempts.1 (by decide)

theorem rests_control_mm2s (d : Loopback) (value : UInt32) (writes : Array RegisterWrite) :
    d.Rests (({ d with writes } : Loopback).control .mm2s value) ∧
      (({ d with writes } : Loopback).control .mm2s value).armed = d.armed := by
  unfold control
  split
  · exact ⟨⟨rfl, rfl, rfl, rfl⟩, rfl⟩
  · simp only
    split <;> exact ⟨⟨rfl, rfl, rfl, rfl⟩, rfl⟩

theorem Rests.prepares (hrests : d.Rests d') (harmed : d'.armed = d.armedBy stimulus)
    (haccepted : ∀ value, stimulus ≠ .access (.writeRegister Channel.mm2s.length value)) :
    d.Prepares stimulus [] d' where
  received := by rw [hrests.received, List.append_nil]
  stream := by rw [hrests.stream, List.append_nil]
  destination := hrests.destination
  armed := harmed
  accepted value hlength := (haccepted value hlength).elim

/-- The words of a burst are received and join the stream in one piece. -/
theorem takeBurst_spec (d : Loopback) (burst : List UInt64) :
    ∃ sent, (d.takeBurst burst).received.toList = d.received.toList ++ sent ∧
      (d.takeBurst burst).stream.toList = d.stream.toList ++ sent ∧
        (d.takeBurst burst).destination = d.destination ∧ (d.takeBurst burst).armed = d.armed := by
  unfold takeBurst
  split
  · exact ⟨burst, by simp, Stream.toList_append _ _, rfl, rfl⟩
  · exact ⟨burst.dropLast, by simp, Stream.toList_append _ _, rfl, rfl⟩

/-- A burst that the sending channel takes is received and put behind the stream. -/
theorem exists_effect_mm2s_length (d : Loopback) (value : UInt32) :
    ∃ outcome, d.Effect (.access (.writeRegister Channel.mm2s.length value)) outcome
      ((d.withLength .mm2s value).sendBurst value.toNat) := by
  have hport := port_withLength d .mm2s value
  have hrunning : (d.withLength .mm2s value).running .mm2s = d.running .mm2s :=
    running_of_port hport
  have haddress : (d.withLength .mm2s value).register Channel.mm2s.address =
      d.register Channel.mm2s.address := congrArg Port.address hport
  have harmed : d.armedBy (.access (.writeRegister Channel.mm2s.length value)) = d.armed :=
    d.armedBy_of_ne value (by decide) (by decide)
  have hfails : d.Rests ((d.withLength .mm2s value).fail .mm2s) := ⟨rfl, rfl, rfl, rfl⟩
  have hidle {d' : Loopback} (hrests : d.Rests d') (hsame : d'.armed = d.armed)
      (hrefuses : d.Refuses value.toNat) :
      ∃ outcome, d.Effect (.access (.writeRegister Channel.mm2s.length value)) outcome d' :=
    ⟨.idle, hrests.effect (hsame.trans harmed.symm) (not_attempts_of_refuses hrefuses)⟩
  unfold sendBurst
  split
  · next hheld =>
    refine hidle ⟨rfl, rfl, rfl, rfl⟩ rfl ?_
    rcases Bool.or_eq_true_iff.1 hheld with hhalted | hstalled
    · exact .inl (hrunning.symm.trans (Bool.not_eq_true' _ ▸ hhalted))
    · exact .inr (.inl hstalled)
  next hgoes =>
  split
  · next hposition =>
    refine hidle hfails rfl (.inr (.inr fun start hstart => ?_))
    rw [← haddress, hposition] at hstart
    exact nomatch hstart
  next start hposition =>
  simp only
  split
  · next hrange =>
    refine hidle hfails rfl (.inr (.inr fun start' hstart => ?_))
    rw [← haddress, hposition] at hstart
    cases hstart
    exact hrange
  next hrange =>
  generalize ((d.withLength .mm2s value).source.words.extract start
    (start + value.toNat / wordBytes)).toList = burst
  obtain ⟨sent, hreceived, hstream, hdestination, hsame⟩ :=
    (d.withLength .mm2s value).takeBurst_spec burst
  have hagrees := agreesBut_finish ((d.withLength .mm2s value).takeBurst burst) .mm2s
  refine Prepares.effect ⟨(congrArg Array.toList hagrees.received).trans hreceived,
    (congrArg Stream.toList hagrees.stream).trans hstream, hagrees.destination.trans hdestination,
    (hagrees.armed.trans hsame).trans harmed.symm, ?_⟩
  rintro _ ⟨⟩ (hhalted | hstalled | hnowhere)
  · rw [hrunning, hhalted] at hgoes
    exact hgoes rfl
  · rw [show (d.withLength .mm2s value).stalled = true from hstalled, Bool.or_true] at hgoes
    exact hgoes rfl
  · rw [haddress] at hposition
    exact hrange (hnowhere start hposition)

theorem exists_effect_s2mm_length (d : Loopback) (value : UInt32) :
    ∃ outcome, d.Effect (.access (.writeRegister Channel.s2mm.length value)) outcome
      ((d.withLength .s2mm value).arm value.toNat) := by
  have hport := port_withLength d .s2mm value
  have hrunning : (d.withLength .s2mm value).running .s2mm = d.running .s2mm :=
    running_of_port hport
  have haddress : (d.withLength .s2mm value).register Channel.s2mm.address =
      d.register Channel.s2mm.address := congrArg Port.address hport
  unfold arm
  rw [hrunning, haddress]
  split
  · next hruns =>
    refine Prepares.effect (Rests.prepares ⟨rfl, rfl, rfl, rfl⟩ ?_ (Stimulus.write_ne (by decide)))
    rw [armedBy, if_pos ⟨rfl, hruns⟩]
  · next hhalted =>
    refine ⟨.idle, Rests.effect ⟨rfl, rfl, rfl, rfl⟩ ?_ ?_⟩
    · rw [armedBy, if_neg fun h => hhalted h.2, if_neg fun h => absurd h.1 (by decide)]
      rfl
    · rintro (hattempts | hattempts | hattempts)
      · exact absurd hattempts.1 (by decide)
      · exact hhalted hattempts.2
      · exact absurd hattempts.1 (by decide)

theorem exists_effect_s2mm_control (d : Loopback) (value : UInt32) (writes : Array RegisterWrite) :
    ∃ outcome, d.Effect (.access (.writeRegister Channel.s2mm.control value)) outcome
      (({ d with writes } : Loopback).control .s2mm value) := by
  have harmed (hkeeps : ¬(value &&& Control.reset != 0) = true) :
      d.armedBy (.access (.writeRegister Channel.s2mm.control value)) = d.armed := by
    rw [armedBy, if_neg fun h => absurd h.1 (by decide)]
    exact if_neg fun h => hkeeps (bne_iff_ne.2 h.2)
  have hattempts (hnone : ¬(value &&& Control.reset = 0 ∧ value &&& Control.run ≠ 0)) :
      ¬d.Attempts (.access (.writeRegister Channel.s2mm.control value)) := by
    rintro (hattempts | hattempts | hattempts)
    · exact absurd hattempts.1 (by decide)
    · exact absurd hattempts.1 (by decide)
    · exact hnone hattempts.2
  unfold control
  split
  · next hresets =>
    refine ⟨.idle, Rests.effect ⟨rfl, rfl, rfl, rfl⟩ ?_ (hattempts fun h => ?_)⟩
    · rw [armedBy, if_neg fun h => absurd h.1 (by decide), if_pos ⟨rfl, bne_iff_ne.1 hresets⟩]
      rfl
    · exact bne_iff_ne.1 hresets h.1
  next hkeeps =>
  simp only
  split
  · exact Prepares.effect (Rests.prepares ⟨rfl, rfl, rfl, rfl⟩ (harmed hkeeps).symm
      (Stimulus.write_ne (by decide)))
  · next hhalts =>
    exact ⟨.idle, Rests.effect ⟨rfl, rfl, rfl, rfl⟩ (harmed hkeeps).symm
      (hattempts fun h => hhalts (bne_iff_ne.2 h.2))⟩

/-- Every register write has an effect. -/
theorem exists_effect_write (d : Loopback) (offset : Nat) (value : UInt32) :
    ∃ outcome, d.Effect (.access (.writeRegister offset value)) outcome (d.write offset value) := by
  have hrests {d' : Loopback} (hrests : d.Rests d') (harmed : d'.armed = d.armed)
      (hsend : offset ≠ Channel.mm2s.length) (hlength : offset ≠ Channel.s2mm.length)
      (hcontrol : offset ≠ Channel.s2mm.control) :
      ∃ outcome, d.Effect (.access (.writeRegister offset value)) outcome d' :=
    ⟨.idle, hrests.effect (harmed.trans (d.armedBy_of_ne value hlength hcontrol).symm)
      (d.not_attempts_of_ne value hsend hlength hcontrol)⟩
  unfold write
  simp only
  split
  · next hoffset =>
    obtain ⟨hcontrol, harmed⟩ := d.rests_control_mm2s value (d.writes.push ⟨offset, value⟩)
    apply hrests hcontrol harmed <;> rw [hoffset] <;> decide
  split
  · next hoffset =>
    subst hoffset
    exact exists_effect_s2mm_control d value _
  next hcontrol =>
  split
  · next hoffset =>
    refine hrests ⟨rfl, rfl, rfl, rfl⟩ rfl ?_ ?_ hcontrol <;> rw [hoffset] <;> decide
  split
  · next hoffset =>
    refine hrests ⟨rfl, rfl, rfl, rfl⟩ rfl ?_ ?_ hcontrol <;> rw [hoffset] <;> decide
  split
  · next hoffset =>
    subst hoffset
    exact exists_effect_mm2s_length d value
  next hsend =>
  split
  · next hoffset =>
    subst hoffset
    exact exists_effect_s2mm_length d value
  · next hlength => exact hrests ⟨rfl, rfl, rfl, rfl⟩ rfl hsend hlength hcontrol

theorem exists_effect_answer (d : Loopback) (access : Link.Access) :
    ∃ outcome, d.Effect (.access access) outcome (d.answer access).2 := by
  have hrests {d' : Loopback} (hrests : d.Rests d')
      (harmed : d'.armed = d.armedBy (.access access)) (hnone : ¬d.Attempts (.access access)) :
      ∃ outcome, d.Effect (.access access) outcome d' := ⟨.idle, hrests.effect harmed hnone⟩
  cases access with
  | writeRegister offset value => exact d.exists_effect_write offset value
  | window channel access =>
    cases channel with
    | mm2s => exact hrests ⟨rfl, rfl, rfl, rfl⟩ rfl id
    | s2mm =>
      cases access with
      | load start len => exact hrests ⟨rfl, rfl, rfl, rfl⟩ rfl id
      | store start words =>
        exact ⟨.idle, {
          passes := ⟨[], (List.append_nil _).symm, List.append_nil _⟩
          idle := fun _ => ⟨rfl, fun hstore => (hstore ⟨start, words, rfl⟩).elim⟩
          landed := fun _ hnone => nomatch hnone
          failed := fun _ hnone => nomatch hnone
          refused := fun _ hlength => nomatch hlength
          frozen := fun hstore => (hstore ⟨start, words, rfl⟩).elim
          attempted := fun hnone => hnone.elim }⟩
  | takeInterrupt channel =>
    simp only [answer]
    split
    · exact hrests ⟨rfl, rfl, rfl, rfl⟩ rfl id
    · exact hrests ⟨rfl, rfl, rfl, rfl⟩ rfl id
  | rearm channel =>
    simp only [answer]
    split
    · exact hrests ⟨rfl, rfl, rfl, rfl⟩ rfl id
    · exact hrests ⟨rfl, rfl, rfl, rfl⟩ rfl id
  | _ => exact hrests ⟨rfl, rfl, rfl, rfl⟩ rfl id

theorem exists_effect_step (d : Loopback) (stimulus : Stimulus) :
    ∃ outcome, d.Effect stimulus outcome (d.step stimulus) := by
  cases stimulus with
  | access access => exact d.exists_effect_answer access
  | stall stalled =>
    simp only [step, setStalled]
    split
    · next hstalls =>
      exact ⟨.idle, Rests.effect ⟨rfl, rfl, rfl, rfl⟩ rfl fun hreleased =>
        nomatch hreleased.symm.trans hstalls⟩
    · exact Prepares.effect (Rests.prepares ⟨rfl, rfl, rfl, rfl⟩ rfl fun _ => Stimulus.noConfusion)

end Effects

/-- Stimuli one after the other, with what each did to the receiving channel. -/
inductive Passage : Loopback → List Stimulus → List Outcome → Loopback → Prop where
  | nil (d : Loopback) : Passage d [] [] d
  | cons {d d' : Loopback} {stimulus : Stimulus} {outcome : Outcome} {stimuli : List Stimulus}
      {outcomes : List Outcome} (heffect : d.Effect stimulus outcome (d.step stimulus))
      (hrest : Passage (d.step stimulus) stimuli outcomes d') :
      Passage d (stimulus :: stimuli) (outcome :: outcomes) d'

/-- How many chunks are armed: one or none. -/
def armedCount (d : Loopback) : Nat := d.armed.toList.length

section Passages

variable {d d' : Loopback} {stimulus : Stimulus} {outcome : Outcome} {stimuli : List Stimulus}
  {outcomes : List Outcome}

/-- Any row of stimuli has its effects, one after the other. -/
theorem exists_passage (d : Loopback) (stimuli : List Stimulus) :
    ∃ outcomes, Passage d stimuli outcomes (d.stepAll stimuli) := by
  induction stimuli generalizing d with
  | nil => exact ⟨[], .nil d⟩
  | cons stimulus rest ih =>
    obtain ⟨outcome, heffect⟩ := d.exists_effect_step stimulus
    obtain ⟨outcomes, hrest⟩ := ih (d.step stimulus)
    exact ⟨outcome :: outcomes, .cons heffect hrest⟩

/-- What has been received and has not been taken out of the stream stays in it, in order. -/
theorem Passage.passes (hpassage : Passage d stimuli outcomes d') {before : List UInt64}
    (hreceived : d.received.toList = before ++ d.stream.toList) :
    d'.received.toList = before ++ outcomes.flatMap Outcome.popped ++ d'.stream.toList := by
  induction hpassage generalizing before with
  | nil d => simpa using hreceived
  | cons heffect hrest ih =>
    obtain ⟨sent, hmore, hstream⟩ := heffect.passes
    rw [List.flatMap_cons, ← List.append_assoc before]
    apply ih
    rw [hmore, hreceived, List.append_assoc, hstream, List.append_assoc]

/-- No stimulus but an arming arms anything. -/
theorem length_armedBy_le (d : Loopback) (stimulus : Stimulus) :
    (d.armedBy stimulus).toList.length ≤ d.armedCount + stimulus.isArming.toNat := by
  unfold armedBy
  split
  · next offset value =>
    split
    · next harms =>
      simp [Stimulus.isArming, harms.1]
    · split
      · exact Nat.zero_le _
      · exact Nat.le_add_right _ _
  · exact Nat.le_add_right _ _

/-- A step settles only what is armed, and leaves nothing armed if it does. -/
theorem Effect.settles_add_armedCount (heffect : d.Effect stimulus outcome d') :
    outcome.settles.toNat + d'.armedCount = (d.armedBy stimulus).toList.length := by
  cases outcome with
  | idle =>
    obtain ⟨harmed, -⟩ := heffect.idle rfl
    rw [armedCount, harmed]
    exact Nat.zero_add _
  | landed l =>
    obtain ⟨harmed, hnone, -⟩ := heffect.landed l rfl
    rw [armedCount, harmed, hnone]
    rfl
  | failed arming =>
    obtain ⟨harmed, hnone, -⟩ := heffect.failed arming rfl
    rw [armedCount, harmed, hnone]
    rfl

/-- What was armed is settled at most once. -/
theorem Passage.countP_settles_le (hpassage : Passage d stimuli outcomes d') :
    outcomes.countP Outcome.settles + d'.armedCount ≤
      d.armedCount + stimuli.countP Stimulus.isArming := by
  induction hpassage with
  | nil d => exact Nat.le_of_eq (Nat.add_comm _ _)
  | @cons d d' stimulus outcome stimuli outcomes heffect hrest ih =>
    have hsettles := heffect.settles_add_armedCount
    have harms := d.length_armedBy_le stimulus
    have houtcomes : (outcome :: outcomes).countP Outcome.settles =
        outcomes.countP Outcome.settles + outcome.settles.toNat := by
      cases hcase : outcome.settles <;> simp [hcase]
    have hstimuli : (stimulus :: stimuli).countP Stimulus.isArming =
        stimuli.countP Stimulus.isArming + stimulus.isArming.toNat := by
      cases hcase : stimulus.isArming <;> simp [hcase]
    omega

/-- What holds of a device after all that has happened to it since it was `origin`. -/
structure Conserved (origin : Loopback) (stimuli : List Stimulus) (outcomes : List Outcome)
    (d : Loopback) : Prop where
  passage : Passage origin stimuli outcomes d
  /-- The words received are those that completions took out of the stream, in that order, and
      those that are still in it. -/
  received : d.received.toList = outcomes.flatMap Outcome.popped ++ d.stream.toList
  /-- No chunk that was armed has been settled twice. -/
  settled : outcomes.countP Outcome.settles + d.armedCount ≤ stimuli.countP Stimulus.isArming

/-- Whatever is done to a device from power-on, no word that it receives is lost, doubled or
    overtaken on the way through it. -/
theorem conserved_stepAll (sourceWords destinationWords : Nat) (lines : Option Interrupt.Lines)
    (stimuli : List Stimulus) :
    ∃ outcomes, Conserved (create sourceWords destinationWords lines) stimuli outcomes
      ((create sourceWords destinationWords lines).stepAll stimuli) := by
  obtain ⟨outcomes, hpassage⟩ :=
    (create sourceWords destinationWords lines).exists_passage stimuli
  have hcreated : (create sourceWords destinationWords lines).received.toList =
      [] ++ (create sourceWords destinationWords lines).stream.toList := rfl
  have hcount := hpassage.countP_settles_le
  have hunarmed : (create sourceWords destinationWords lines).armedCount = 0 := rfl
  rw [hunarmed, Nat.zero_add] at hcount
  exact ⟨outcomes, hpassage, hpassage.passes hcreated, hcount⟩

end Passages

end DmaLink.Loopback
