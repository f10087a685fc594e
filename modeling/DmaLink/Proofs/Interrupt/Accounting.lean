import DmaLink.Interrupt
import Mathlib

namespace DmaLink.Interrupt

namespace Lines

variable {channel other : Channel}

@[simp]
theorem get_set (lines : Lines) (channel : Channel) (line : Line) :
    (lines.set channel line).get channel = line := by
  cases channel <;> rfl

theorem get_set_of_ne (hother : other ≠ channel) (lines : Lines) (line : Line) :
    (lines.set channel line).get other = lines.get other := by
  cases channel <;> cases other <;> first | rfl | exact absurd rfl hother

@[simp]
theorem set_get (lines : Lines) (channel : Channel) :
    lines.set channel (lines.get channel) = lines := by
  cases channel <;> rfl

@[simp]
theorem set_set (lines : Lines) (channel : Channel) (line line' : Line) :
    (lines.set channel line).set channel line' = lines.set channel line' := by
  cases channel <;> rfl

end Lines

/-- The writes that acknowledge a burst of a channel. -/
def acknowledgement (channel : Channel) : List RegisterWrite :=
  [⟨channel.status, Status.idle⟩, ⟨channel.status, Status.completionInterrupt⟩]

/-- What the host or the far end learns of an event. -/
inductive Outcome where
  | fed
  /-- The far end has taken these bytes. -/
  | collected (bytes : List UInt8)
  | over (result : Except Fault Unit)
  /-- A wait is held up until the far end makes room. -/
  | heldUp

/-- What is learned of a wait by its result, or by its having none. -/
def Outcome.ofResult : Option (Except Fault Unit) → Outcome
  | some result => .over result
  | none => .heldUp

/-- What an event on a line comes to. -/
structure Effect where
  outcome : Outcome
  /-- The line afterwards. -/
  line : Line
  /-- The register writes that were made. -/
  writes : List RegisterWrite := []

namespace Line

variable {line : Line}

/-- The line after an acknowledgement of four bytes was taken from it. -/
def acknowledged (line : Line) : Line := { line with arriving := line.arriving.drop 4 }

/-- The line after it has also been sent the word back. -/
def rearmed (line : Line) : Line :=
  { line.acknowledged with returned := line.returned ++ rearmBytes }

/-- A wait on a line whose far end is open is decided by the clock, by the bytes that have arrived
    and by the room there is for the word that is sent back. -/
def waited (room : Nat) (line : Line) (channel : Channel) (now timeout : Duration) : Effect :=
  match now.deadline timeout with
  | .error cause => { outcome := .over (.error (.trap cause)), line }
  | .ok _ =>
    if line.arriving.length = 0 then
      { outcome := .over (.error (.error (.channelTimeout channel timeout.microseconds))), line }
    else if line.arriving.length < 4 then
      { outcome :=
          .over (.error (.error (.io (.shortAcknowledgement line.arriving.length))))
        line := { line with arriving := [] } }
    else if line.full room then
      { outcome := .heldUp, line := line.acknowledged, writes := acknowledgement channel }
    else
      { outcome := .over (.ok ()), line := line.rearmed, writes := acknowledgement channel }

/-- With fewer than four bytes the count cannot be taken, and those bytes are gone. -/
theorem take_of_lt (hshort : line.arriving.length < 4) :
    line.take = (.error (.io (.shortAcknowledgement line.arriving.length)),
      { line with arriving := [] }) := by
  rw [take, List.take_of_length_le (Nat.le_of_lt hshort),
    List.drop_of_length_le (Nat.le_of_lt hshort), if_neg (Nat.ne_of_lt hshort)]

theorem take_of_le (hcount : 4 ≤ line.arriving.length) :
    line.take = (.ok (Bytes.toUInt32 (line.arriving.take 4)), line.acknowledged) := by
  rw [take, if_pos (List.length_take_of_le hcount)]
  rfl

/-- A line whose far end listens can be re-armed. -/
theorem rearm_acknowledged (hopen : line.farEnd = .listening) :
    line.acknowledged.rearm = (.ok (), line.rearmed) := if_pos hopen

end Line

namespace Wiring

variable {room : Nat}

section Waits

variable {w : Wiring} {channel : Channel}

/-- The wiring after a burst of a channel has been acknowledged, with this line in its place. -/
def acknowledged (w : Wiring) (channel : Channel) (line : Line) : Wiring :=
  ⟨w.lines.set channel line, w.writes ++ (acknowledgement channel).toArray⟩

/-- What is left of a wait when it has acknowledged its burst, and the wiring that it has left. -/
theorem runUntil_acknowledge_rearm (hopen : (w.lines.get channel).farEnd = .listening) :
    let line := w.lines.get channel
    (Completion.acknowledge channel >>= fun _ =>
        Proc.perform (I := Link.io) (.rearm channel)).runUntil answer (blocks room)
          { w with lines := w.lines.set channel line.acknowledged } =
      if line.full room then
        (Proc.perform (I := Link.io) (.rearm channel), w.acknowledged channel line.acknowledged)
      else (.ret (.ok ()), w.acknowledged channel line.rearmed) := by
  intro line
  have hacknowledged : (Completion.acknowledge channel >>= fun _ =>
        Proc.perform (I := Link.io) (.rearm channel)).runUntil answer (blocks room)
          { w with lines := w.lines.set channel line.acknowledged } =
      (Proc.perform (I := Link.io) (.rearm channel)).runUntil answer (blocks room)
        (w.acknowledged channel line.acknowledged) := by
    have hwrites : w.writes ++ (acknowledgement channel).toArray =
        (w.writes.push ⟨channel.status, Status.idle⟩).push
          ⟨channel.status, Status.completionInterrupt⟩ := by
      simp only [acknowledgement, Array.push_eq_append, Array.append_assoc]
      rfl
    rw [acknowledged, hwrites]
    rfl
  rw [hacknowledged]
  have hblocks : blocks room (.rearm channel) (w.acknowledged channel line.acknowledged) =
      line.full room := by
    simp only [blocks, acknowledged, Lines.get_set]
    rfl
  by_cases hfull : line.full room = true
  · rw [if_pos hfull]
    exact Proc.runUntil_act_of_stops (hblocks.trans hfull) _
  · rw [if_neg hfull]
    refine (Proc.runUntil_act (hblocks.trans (Bool.eq_false_iff.2 hfull)) _).trans ?_
    have hrearm : line.acknowledged.rearm = (.ok (), line.rearmed) :=
      Line.rearm_acknowledged hopen
    simp only [answer, Lines.rearm, acknowledged, Lines.get_set, Lines.set_set, hrearm]
    rfl

/-- What waiting on a line comes to: a timeout, a short count, a hold-up at the re-arm, or an
    acknowledgement. -/
theorem runUntil_interrupt (hopen : (w.lines.get channel).farEnd = .listening) (limit : Nat) :
    let line := w.lines.get channel
    (Completion.interrupt channel limit).runUntil answer (blocks room) w =
      if line.arriving.length = 0 then (.ret (.error (.channelTimeout channel limit)), w)
      else if line.arriving.length < 4 then
        (.ret (.error (.io (.shortAcknowledgement line.arriving.length))),
          { w with lines := w.lines.set channel { line with arriving := [] } })
      else if line.full room then
        (Proc.perform (I := Link.io) (.rearm channel), w.acknowledged channel line.acknowledged)
      else (.ret (.ok ()), w.acknowledged channel line.rearmed) := by
  intro line
  have hlook : answer (.awaitInterrupt channel limit) w = (.ok (!line.arriving.isEmpty), w) := by
    have hwait : line.wait = .ok (!line.arriving.isEmpty) := by
      simp [Line.wait, Line.readable, line, hopen]
    exact congrArg (·, w) hwait
  have htake : answer (.takeInterrupt channel) w =
      (line.take.1, { w with lines := w.lines.set channel line.take.2 }) := rfl
  refine (Proc.runUntil_perform_bind (I := Link.io) (.awaitInterrupt channel limit) rfl _).trans ?_
  rw [hlook]
  by_cases hnone : line.arriving.length = 0
  · rw [if_pos hnone, List.eq_nil_of_length_eq_zero hnone]
    rfl
  have hreadable : (!line.arriving.isEmpty) = true := by
    cases harriving : line.arriving with
    | nil => exact absurd (congrArg List.length harriving) hnone
    | cons byte rest => rfl
  rw [if_neg hnone, hreadable]
  refine (Proc.runUntil_perform_bind (I := Link.io) (.takeInterrupt channel) rfl _).trans ?_
  rw [htake]
  by_cases hshort : line.arriving.length < 4
  · rw [if_pos hshort, Line.take_of_lt hshort]
    rfl
  · rw [if_neg hshort, Line.take_of_le (Nat.le_of_not_lt hshort)]
    exact runUntil_acknowledge_rearm hopen

/-- A wait for which no deadline can be set is abandoned before it looks at the line. -/
theorem await_of_late (w : Wiring) (channel : Channel) {now timeout : Duration}
    (hlate : Duration.clockEnd ≤ now.nanoseconds + timeout.nanoseconds) :
    w.await room channel now timeout = (some (.error (.trap .deadlineTooLate)), w) := by
  rw [await, Duration.deadline, if_neg (Nat.not_lt.2 hlate)]

section Timely

variable {now timeout : Duration}
  (htimely : now.nanoseconds + timeout.nanoseconds < Duration.clockEnd)
  (hopen : (w.lines.get channel).farEnd = .listening)
include htimely hopen

/-- With nothing to read the wait times out and changes nothing. -/
theorem await_of_none (hnone : (w.lines.get channel).arriving.length = 0) :
    w.await room channel now timeout =
      (some (.error (.error (.channelTimeout channel timeout.microseconds))), w) := by
  rw [await, Duration.deadline, if_pos htimely, runUntil_interrupt hopen, if_pos hnone]
  rfl

/-- With fewer than four bytes the wait fails and the channel is not acknowledged. -/
theorem await_of_short (hsome : 0 < (w.lines.get channel).arriving.length)
    (hshort : (w.lines.get channel).arriving.length < 4) :
    w.await room channel now timeout =
      (some (.error (.error (.io
          (.shortAcknowledgement (w.lines.get channel).arriving.length)))),
        { w with lines := w.lines.set channel { w.lines.get channel with arriving := [] } }) := by
  rw [await, Duration.deadline, if_pos htimely, runUntil_interrupt hopen,
    if_neg (Nat.ne_of_gt hsome), if_pos hshort]
  rfl

/-- With a count and no room for the word that is sent back, the burst is acknowledged and the wait
    is held up. -/
theorem await_of_full (hcount : 4 ≤ (w.lines.get channel).arriving.length)
    (hfull : (w.lines.get channel).full room = true) :
    w.await room channel now timeout =
      (none, w.acknowledged channel (w.lines.get channel).acknowledged) := by
  have hsome : (w.lines.get channel).arriving.length ≠ 0 := by omega
  rw [await, Duration.deadline, if_pos htimely, runUntil_interrupt hopen, if_neg hsome,
    if_neg (Nat.not_lt.2 hcount), if_pos hfull]
  rfl

/-- With a count to read and room for the re-arm the wait succeeds and acknowledges the channel. -/
theorem await_of_count (hcount : 4 ≤ (w.lines.get channel).arriving.length)
    (hroom : (w.lines.get channel).full room = false) :
    w.await room channel now timeout =
      (some (.ok ()), w.acknowledged channel (w.lines.get channel).rearmed) := by
  have hsome : (w.lines.get channel).arriving.length ≠ 0 := by omega
  rw [await, Duration.deadline, if_pos htimely, runUntil_interrupt hopen, if_neg hsome,
    if_neg (Nat.not_lt.2 hcount), if_neg (ne_true_of_eq_false hroom)]
  rfl

end Timely

/-- All that a wait looks at and changes is the line of its channel and the log of writes. -/
theorem await_eq (hopen : (w.lines.get channel).farEnd = .listening) (now timeout : Duration) :
    let effect := (w.lines.get channel).waited room channel now timeout
    (Outcome.ofResult (w.await room channel now timeout).1,
        (w.await room channel now timeout).2) =
      (effect.outcome, ⟨w.lines.set channel effect.line, w.writes ++ effect.writes.toArray⟩) := by
  simp only [Line.waited, Duration.deadline]
  split
  case h_1 trap hdeadline =>
    by_cases htimely : now.nanoseconds + timeout.nanoseconds < Duration.clockEnd
    · rw [if_pos htimely] at hdeadline
      cases hdeadline
    · rw [if_neg htimely] at hdeadline
      cases hdeadline
      simp [await_of_late w channel (Nat.not_lt.1 htimely), Outcome.ofResult]
  case h_2 hdeadline =>
    have htimely : now.nanoseconds + timeout.nanoseconds < Duration.clockEnd := by
      refine Decidable.byContradiction fun hlate => ?_
      rw [if_neg hlate] at hdeadline
      cases hdeadline
    split
    case isTrue hnone => simp [await_of_none htimely hopen hnone, Outcome.ofResult]
    case isFalse hnone =>
      split
      case isTrue hshort =>
        simp [await_of_short htimely hopen (Nat.pos_of_ne_zero hnone) hshort, Outcome.ofResult]
      case isFalse hshort =>
        have hcount := Nat.le_of_not_lt hshort
        split
        case isTrue hfull =>
          rw [await_of_full htimely hopen hcount hfull]
          rfl
        case isFalse hroom =>
          rw [await_of_count htimely hopen hcount (Bool.eq_false_iff.2 hroom)]
          rfl

end Waits

/-- What can happen to a wiring whose far ends stay open. -/
inductive Event where
  /-- The far end of a channel makes bytes readable. -/
  | feed (channel : Channel) (bytes : List UInt8)
  /-- The far end of a channel takes what it was sent back, at most so many bytes. -/
  | collect (channel : Channel) (count : Nat)
  /-- The host waits for the interrupt of a channel, from a reading of the clock on. -/
  | await (channel : Channel) (now timeout : Duration)

namespace Event

/-- The channel that an event is on. -/
def channel : Event → Channel
  | feed channel _ | collect channel _ | await channel _ _ => channel

/-- The bytes that an event makes readable. -/
def bytes : Event → List UInt8
  | feed _ bytes => bytes
  | _ => []

/-- Whether an event is a wait on a channel. -/
def waitsOn (channel : Channel) : Event → Bool
  | await other _ _ => other = channel
  | _ => false

/-- What an event comes to on the line of its channel. -/
def effect (room : Nat) : Event → Line → Effect
  | feed _ bytes, line => { outcome := .fed, line := line.feed bytes }
  | collect _ count, line =>
    { outcome := .collected (line.collect count).1, line := (line.collect count).2 }
  | await channel now timeout, line => line.waited room channel now timeout

/-- A wait finds room on its line for the word that it sends back. -/
def FindsRoom (room : Nat) : Event → Line → Prop
  | await _ _ _, line => line.full room = false
  | _, _ => True

end Event

/-- An event, with what was learned of it. -/
structure Turn where
  event : Event
  outcome : Outcome

namespace Turn

/-- Whether a turn is a wait on a channel that succeeded. -/
def succeeds (turn : Turn) (channel : Channel) : Bool :=
  turn.event.channel = channel &&
    match turn.outcome with
    | .over (.ok ()) => true
    | _ => false

/-- The bytes that a turn makes readable on a channel. -/
def fed (turn : Turn) (channel : Channel) : List UInt8 :=
  if turn.event.channel = channel then turn.event.bytes else []

/-- The bytes sent back on a channel that the far end has taken in a turn. -/
def collected (turn : Turn) (channel : Channel) : List UInt8 :=
  if turn.event.channel = channel then
    match turn.outcome with
    | .collected bytes => bytes
    | _ => []
  else []

/-- How many bytes the host has taken from a channel in a turn. -/
def taken (turn : Turn) (channel : Channel) : Nat :=
  if turn.event.channel = channel then
    match turn.outcome with
    | .over (.ok ()) => 4
    | .over (.error (.error (.io (.shortAcknowledgement received)))) => received
    | _ => 0
  else 0

end Turn

/-- What is learned of an event, and the wiring after it. -/
def perform (room : Nat) (w : Wiring) : Event → Outcome × Wiring
  | .feed channel bytes =>
    (.fed, { w with lines := w.lines.set channel ((w.lines.get channel).feed bytes) })
  | .collect channel count =>
    match (w.lines.get channel).collect count with
    | (bytes, line) => (.collected bytes, { w with lines := w.lines.set channel line })
  | .await channel now timeout =>
    match w.await room channel now timeout with
    | (result, w) => (.ofResult result, w)

/-- Lets events happen one after the other. -/
def performAll (room : Nat) (w : Wiring) : List Event → List Turn × Wiring
  | [] => ([], w)
  | event :: rest =>
    match w.perform room event with
    | (outcome, w) =>
      match w.performAll room rest with
      | (turns, w) => (⟨event, outcome⟩ :: turns, w)

theorem performAll_cons (w : Wiring) (event : Event) (rest : List Event) :
    w.performAll room (event :: rest) =
      (⟨event, (w.perform room event).1⟩ :: ((w.perform room event).2.performAll room rest).1,
        ((w.perform room event).2.performAll room rest).2) := rfl

/-- The far ends of both lines are open. -/
def Listening (w : Wiring) : Prop := ∀ channel, (w.lines.get channel).farEnd = .listening

/-- The far ends take what they are sent back in time for every wait to find room. -/
def Roomy (room : Nat) (w : Wiring) : List Event → Prop
  | [] => True
  | event :: rest =>
    event.FindsRoom room (w.lines.get event.channel) ∧ Roomy room (w.perform room event).2 rest

/-- The writes to the status register of a channel. -/
def statusWrites (w : Wiring) (channel : Channel) : List RegisterWrite :=
  w.writes.toList.filter fun write => write.offset = channel.status

section Steps

variable {w : Wiring} {line : Line} {event : Event}

/-- What an event does is what it comes to on the line of its channel. -/
theorem perform_eq (hopen : w.Listening) (event : Event) :
    let effect := event.effect room (w.lines.get event.channel)
    w.perform room event = (effect.outcome,
      ⟨w.lines.set event.channel effect.line, w.writes ++ effect.writes.toArray⟩) := by
  cases event with
  | feed channel bytes => simp [perform, Event.effect, Event.channel]
  | collect channel count => simp [perform, Event.effect, Event.channel]
  | await channel now timeout => exact await_eq (hopen channel) now timeout

/-- No event changes what the far end does. -/
theorem farEnd_effect (event : Event) (line : Line) :
    (event.effect room line).line.farEnd = line.farEnd := by
  cases event with
  | feed channel bytes =>
    simp only [Event.effect, Line.feed]
    split <;> rfl
  | collect channel count => rfl
  | await channel now timeout =>
    simp only [Event.effect]
    fun_cases Line.waited room line channel now timeout <;> rfl

/-- A wait that succeeds acknowledges one burst and sends one word back; nothing else does. -/
theorem effect_spec (hopen : line.farEnd = .listening) (hroom : event.FindsRoom room line) :
    let effect := event.effect room line
    let turn : Turn := ⟨event, effect.outcome⟩
    effect.writes = (if turn.succeeds event.channel then acknowledgement event.channel else []) ∧
      turn.collected event.channel ++ effect.line.returned =
        line.returned ++ (if turn.succeeds event.channel then rearmBytes else []) := by
  cases event with
  | feed channel bytes =>
    simp [Event.effect, Line.feed, hopen, Turn.succeeds, Turn.collected]
  | collect channel count =>
    simp [Event.effect, Line.collect, Turn.succeeds, Turn.collected]
  | await channel now timeout =>
    have hfull : line.full room = false := hroom
    simp only [Event.effect, Event.channel, Turn.succeeds, Turn.collected]
    fun_cases Line.waited room line channel now timeout <;> simp_all [Line.rearmed]

/-- What arrives is taken from the front, in the pieces that the results tell. -/
theorem exists_taken_effect (hopen : line.farEnd = .listening)
    (hroom : event.FindsRoom room line) :
    let effect := event.effect room line
    ∃ taken, line.arriving ++ event.bytes = taken ++ effect.line.arriving ∧
      taken.length = Turn.taken ⟨event, effect.outcome⟩ event.channel := by
  cases event with
  | feed channel bytes =>
    exact ⟨[], by simp [Event.effect, Event.bytes, Line.feed, hopen],
      by simp [Turn.taken, Event.effect]⟩
  | collect channel count =>
    exact ⟨[], by simp [Event.effect, Event.bytes, Line.collect],
      by simp [Turn.taken, Event.effect]⟩
  | await channel now timeout =>
    have hfull : line.full room = false := hroom
    simp only [Event.effect, Event.bytes, Event.channel, List.append_nil, Turn.taken, if_true]
    fun_cases Line.waited room line channel now timeout with
    | case1 => exact ⟨[], rfl, rfl⟩
    | case2 => exact ⟨[], rfl, rfl⟩
    | case3 => exact ⟨line.arriving, (List.append_nil _).symm, rfl⟩
    | case4 _ _ _ _ hheld => exact absurd hheld (ne_true_of_eq_false hfull)
    | case5 _ _ _ hshort =>
      exact ⟨line.arriving.take 4, (List.take_append_drop 4 _).symm,
        List.length_take_of_le (Nat.le_of_not_lt hshort)⟩

theorem Listening.perform (hopen : w.Listening) (event : Event) :
    (w.perform room event).2.Listening := by
  intro channel
  rw [perform_eq hopen]
  by_cases hchannel : channel = event.channel
  · subst hchannel
    rw [Lines.get_set, farEnd_effect, hopen]
  · rw [Lines.get_set_of_ne hchannel, hopen]

end Steps

/-- What turns have done to a channel: every wait that succeeded has sent one word back and has
    acknowledged one burst, and what was readable has been taken from the front, in the pieces that
    the results tell. The words sent back are those that the far end has taken since and those that
    still wait for it. -/
structure Accounts (channel : Channel) (turns : List Turn) (w w' : Wiring) : Prop where
  returned : turns.flatMap (·.collected channel) ++ (w'.lines.get channel).returned =
    (w.lines.get channel).returned ++
      (List.replicate (turns.countP (·.succeeds channel)) rearmBytes).flatten
  statusWrites : w'.statusWrites channel = w.statusWrites channel ++
    (List.replicate (turns.countP (·.succeeds channel)) (acknowledgement channel)).flatten
  arriving : ∃ taken, (w.lines.get channel).arriving ++ turns.flatMap (·.fed channel) =
      taken ++ (w'.lines.get channel).arriving ∧
    taken.length = (turns.map (·.taken channel)).sum

namespace Accounts

variable {w w' w'' : Wiring} {channel : Channel} {turn : Turn} {turns : List Turn}

theorem nil (w : Wiring) (channel : Channel) : Accounts channel [] w w :=
  ⟨by simp, by simp, [], by simp, rfl⟩

/-- Accounts of one turn and of those behind it add up. -/
theorem cons (hfirst : Accounts channel [turn] w w') (hrest : Accounts channel turns w' w'') :
    Accounts channel (turn :: turns) w w'' := by
  have hcount : (turn :: turns).countP (·.succeeds channel) =
      [turn].countP (·.succeeds channel) + turns.countP (·.succeeds channel) := by
    rw [← List.countP_append, List.singleton_append]
  obtain ⟨taken, hfed, htaken⟩ := hfirst.arriving
  obtain ⟨later, hlater, hlength⟩ := hrest.arriving
  constructor
  case returned =>
    have hcollected := hfirst.returned
    rw [List.flatMap_singleton] at hcollected
    rw [List.flatMap_cons, List.append_assoc, hrest.returned, ← List.append_assoc, hcollected,
      hcount, ← List.replicate_append_replicate, List.flatten_append, List.append_assoc]
  case statusWrites =>
    rw [hrest.statusWrites, hfirst.statusWrites, hcount, ← List.replicate_append_replicate,
      List.flatten_append, List.append_assoc]
  case arriving =>
    refine ⟨taken ++ later, ?_, ?_⟩
    · rw [List.flatMap_singleton] at hfed
      rw [List.flatMap_cons, ← List.append_assoc, hfed, List.append_assoc, hlater,
        List.append_assoc]
    · rw [List.length_append, htaken, hlength, List.map_singleton, List.sum_singleton,
        List.map_cons, List.sum_cons]

end Accounts

@[simp]
theorem length_acknowledgement (channel : Channel) : (acknowledgement channel).length = 2 := rfl

/-- An acknowledgement of one channel does not touch the other's status register. -/
theorem filter_acknowledgement (channel other : Channel) :
    (acknowledgement other).filter (·.offset = channel.status) =
      if other = channel then acknowledgement channel else [] := by
  cases channel <;> cases other <;> rfl

section Runs

variable {w w' : Wiring} {channel : Channel} {event : Event} {events : List Event}

/-- One event, on its own channel and on the other. -/
theorem accounts_perform (hopen : w.Listening)
    (hroom : event.FindsRoom room (w.lines.get event.channel)) (channel : Channel) :
    Accounts channel [⟨event, (w.perform room event).1⟩] w (w.perform room event).2 := by
  obtain ⟨hwrites, hreturned⟩ := effect_spec (hopen event.channel) hroom
  obtain ⟨taken, hfed, htaken⟩ := exists_taken_effect (hopen event.channel) hroom
  rw [perform_eq hopen]
  by_cases hchannel : event.channel = channel
  case pos =>
    subst hchannel
    constructor
    case returned =>
      rw [Lines.get_set, List.flatMap_singleton, hreturned, List.countP_singleton]
      split <;> simp
    case statusWrites =>
      simp only [statusWrites, Array.toList_append, List.filter_append, hwrites,
        List.countP_singleton]
      split <;> simp [filter_acknowledgement]
    case arriving =>
      refine ⟨taken, ?_, ?_⟩
      · rw [Lines.get_set, List.flatMap_singleton, Turn.fed, if_pos rfl, hfed]
      · rw [htaken, List.map_singleton, List.sum_singleton]
  case neg =>
    have hsucceeds (outcome) : Turn.succeeds ⟨event, outcome⟩ channel = false := by
      simp [Turn.succeeds, hchannel]
    constructor
    case returned =>
      rw [Lines.get_set_of_ne (Ne.symm hchannel), List.flatMap_singleton, Turn.collected,
        if_neg hchannel, List.countP_singleton, hsucceeds]
      simp
    case statusWrites =>
      simp only [statusWrites, Array.toList_append, List.filter_append, hwrites,
        List.countP_singleton, hsucceeds]
      split <;> simp [filter_acknowledgement, hchannel]
    case arriving =>
      refine ⟨[], ?_, ?_⟩
      · rw [Lines.get_set_of_ne (Ne.symm hchannel), List.flatMap_singleton, Turn.fed,
          if_neg hchannel, List.append_nil, List.nil_append]
      · rw [List.map_singleton, List.sum_singleton, Turn.taken, if_neg hchannel, List.length_nil]

theorem Listening.performAll (hopen : w.Listening) (events : List Event) :
    (w.performAll room events).2.Listening := by
  induction events generalizing w with
  | nil => exact hopen
  | cons event rest ih =>
    rw [performAll_cons]
    exact ih (hopen.perform event)

/-- The account of every line balances after every run of events. -/
theorem accounts_performAll (hopen : w.Listening) (hroom : w.Roomy room events)
    (channel : Channel) :
    Accounts channel (w.performAll room events).1 w (w.performAll room events).2 := by
  induction events generalizing w with
  | nil => exact Accounts.nil w channel
  | cons event rest ih =>
    obtain ⟨hfirst, hrest⟩ := hroom
    rw [performAll_cons]
    exact (accounts_perform hopen hfirst channel).cons (ih (hopen.perform event) hrest)

/-- No register is written but by waits that succeed, and each of these writes two. -/
theorem size_writes_performAll (hopen : w.Listening) (hroom : w.Roomy room events) :
    (w.performAll room events).2.writes.size = w.writes.size +
      2 * ((w.performAll room events).1.countP (·.succeeds .mm2s) +
        (w.performAll room events).1.countP (·.succeeds .s2mm)) := by
  induction events generalizing w with
  | nil => rfl
  | cons event rest ih =>
    obtain ⟨hfirst, hrest⟩ := hroom
    have hsize : (w.perform room event).2.writes.size = w.writes.size +
        2 * ([Turn.mk event (w.perform room event).1].countP (·.succeeds .mm2s) +
          [Turn.mk event (w.perform room event).1].countP (·.succeeds .s2mm)) := by
      rw [perform_eq hopen, Array.size_append, (effect_spec (hopen event.channel) hfirst).1,
        List.size_toArray, List.countP_singleton, List.countP_singleton]
      cases hchannel : event.channel <;> simp [Turn.succeeds, hchannel] <;> split <;> simp
    rw [performAll_cons]
    simp only
    rw [ih (hopen.perform event) hrest, hsize]
    simp only [List.countP_cons, List.countP_nil]
    omega

/-- What waits for the far end of a channel grows by at most one word, and only by a wait. -/
theorem length_returned_perform (room : Nat) (hopen : w.Listening) (event : Event)
    (channel : Channel) :
    ((w.perform room event).2.lines.get channel).returned.length ≤
      (w.lines.get channel).returned.length +
        if event.waitsOn channel then rearmBytes.length else 0 := by
  rw [perform_eq hopen]
  by_cases hchannel : channel = event.channel
  case neg =>
    rw [Lines.get_set_of_ne hchannel]
    exact Nat.le_add_right _ _
  case pos =>
    subst hchannel
    rw [Lines.get_set]
    generalize w.lines.get event.channel = line
    cases event with
    | feed channel bytes =>
      simp only [Event.effect, Line.feed]
      split <;> exact Nat.le_add_right _ _
    | collect channel count =>
      simp only [Event.effect, Line.collect, List.length_drop]
      exact Nat.le_trans (Nat.sub_le _ _) (Nat.le_add_right _ _)
    | await channel now timeout =>
      simp only [Event.effect, Event.waitsOn, Event.channel, decide_true, if_true]
      fun_cases Line.waited room line channel now timeout <;>
        simp [Line.acknowledged, Line.rearmed]

/-- Lines that hold a word for every wait need no far end that takes any. -/
theorem roomy_of_length (hopen : w.Listening)
    (hlong : ∀ channel, (w.lines.get channel).returned.length +
      rearmBytes.length * events.countP (·.waitsOn channel) ≤ room) : w.Roomy room events := by
  induction events generalizing w with
  | nil => trivial
  | cons event rest ih =>
    refine ⟨?_, ih (hopen.perform event) fun channel => ?_⟩
    · cases event with
      | feed channel bytes => trivial
      | collect channel count => trivial
      | await channel now timeout =>
        have hroom := hlong channel
        simp only [List.countP_cons, Event.waitsOn, decide_true, if_true, Nat.mul_add] at hroom
        have hfits : ¬room < (w.lines.get channel).returned.length + rearmBytes.length := by omega
        simp [Event.FindsRoom, Event.channel, Line.full, hfits]
    · have hgrows := length_returned_perform room hopen event channel
      have hroom := hlong channel
      rw [List.countP_cons, Nat.mul_add] at hroom
      cases hwaits : event.waitsOn channel <;> rw [hwaits] at hgrows hroom <;>
        simp only [Bool.false_eq_true, if_true, if_false] at hgrows hroom <;> omega

/-- Two wirings look the same from a channel. -/
structure Alike (channel : Channel) (w w' : Wiring) : Prop where
  line : w.lines.get channel = w'.lines.get channel
  statusWrites : w.statusWrites channel = w'.statusWrites channel

/-- What happens on a channel, and what it leaves there, is decided by what is there. -/
theorem Alike.perform (room : Nat) (halike : Alike event.channel w w') (hopen : w.Listening)
    (hopen' : w'.Listening) :
    (w.perform room event).1 = (w'.perform room event).1 ∧
      Alike event.channel (w.perform room event).2 (w'.perform room event).2 := by
  rw [perform_eq hopen, perform_eq hopen', halike.line]
  refine ⟨rfl, by simp only [Lines.get_set], ?_⟩
  have hwrites := halike.statusWrites
  simp only [Wiring.statusWrites] at hwrites
  simp only [Wiring.statusWrites, Array.toList_append, List.filter_append, hwrites]

/-- An event of the other channel leaves everything of this one. -/
theorem Alike.perform_of_ne (halike : Alike channel w w') (hopen : w.Listening)
    (hroom : event.FindsRoom room (w.lines.get event.channel))
    (hother : event.channel ≠ channel) : Alike channel (w.perform room event).2 w' := by
  have haccounts := accounts_perform hopen hroom channel
  have hsucceeds (outcome) : Turn.succeeds ⟨event, outcome⟩ channel = false := by
    simp [Turn.succeeds, hother]
  constructor
  case line => rw [perform_eq hopen, Lines.get_set_of_ne (Ne.symm hother), halike.line]
  case statusWrites =>
    rw [haccounts.statusWrites, List.countP_singleton, hsucceeds]
    simpa using halike.statusWrites

/-- On each channel it goes as if nothing had happened on the other. -/
theorem Alike.performAll_filter (halike : Alike channel w w') (hopen : w.Listening)
    (hopen' : w'.Listening) (hroom : w.Roomy room events) :
    let alone := w'.performAll room (events.filter (·.channel = channel))
    (w.performAll room events).1.filter (·.event.channel = channel) = alone.1 ∧
      Alike channel (w.performAll room events).2 alone.2 := by
  induction events generalizing w w' with
  | nil => exact ⟨rfl, halike⟩
  | cons event rest ih =>
    obtain ⟨hfirst, hrest⟩ := hroom
    by_cases hchannel : event.channel = channel
    case pos =>
      subst hchannel
      obtain ⟨houtcome, halike⟩ := halike.perform room hopen hopen'
      obtain ⟨hturns, hlater⟩ := ih halike (hopen.perform event) (hopen'.perform event) hrest
      simp only [List.filter_cons, decide_true, if_true, performAll_cons]
      exact ⟨by rw [hturns, houtcome], hlater⟩
    case neg =>
      obtain ⟨hturns, hlater⟩ :=
        ih (halike.perform_of_ne hopen hfirst hchannel) (hopen.perform event) hopen' hrest
      simp only [List.filter_cons, hchannel, decide_false, performAll_cons]
      exact ⟨hturns, hlater⟩

end Runs

section Accounting

variable {w : Wiring}

/-- Whatever arrives on two open lines and however they are waited on, as long as the far ends take
    the words that they are sent back in time, the next wait is decided by the bytes that are
    readable on its channel. With none of them it times out and changes nothing, with too few for a
    count it fails and has taken them, and with a count it takes four, clears the two flags of its
    channel, sends the word one back and succeeds; only a line with no room for the word holds it
    up. A wait for which no deadline can be set does none of this. So over the whole run each wait
    that succeeded has sent one word back and written two flags, and nothing else has, and on each
    channel it went as if nothing had happened on the other. -/
theorem acknowledged_performAll (room : Nat) (hopen : w.Listening) (events : List Event)
    (hroom : w.Roomy room events) :
    let turns := (w.performAll room events).1
    let w' := (w.performAll room events).2
    (∀ channel now timeout,
      let line := w'.lines.get channel
      let readable := line.arriving.length
      (Duration.clockEnd ≤ now.nanoseconds + timeout.nanoseconds →
        w'.await room channel now timeout = (some (.error (.trap .deadlineTooLate)), w')) ∧
      (now.nanoseconds + timeout.nanoseconds < Duration.clockEnd →
        (readable = 0 → w'.await room channel now timeout =
          (some (.error (.error (.channelTimeout channel timeout.microseconds))), w')) ∧
        (0 < readable → readable < 4 → w'.await room channel now timeout =
          (some (.error (.error (.io (.shortAcknowledgement readable)))),
            { w' with lines := w'.lines.set channel { line with arriving := [] } })) ∧
        (4 ≤ readable → line.full room = true → w'.await room channel now timeout =
          (none, {
            lines := w'.lines.set channel { line with arriving := line.arriving.drop 4 }
            writes := w'.writes ++ #[⟨channel.status, Status.idle⟩,
              ⟨channel.status, Status.completionInterrupt⟩] })) ∧
        (4 ≤ readable → line.full room = false → w'.await room channel now timeout =
          (some (.ok ()), {
            lines := w'.lines.set channel { line with
              arriving := line.arriving.drop 4
              returned := line.returned ++ [1, 0, 0, 0] }
            writes := w'.writes ++ #[⟨channel.status, Status.idle⟩,
              ⟨channel.status, Status.completionInterrupt⟩] })))) ∧
    (∀ channel, Accounts channel turns w w') ∧
    w'.writes.size =
      w.writes.size + 2 * (turns.countP (·.succeeds .mm2s) + turns.countP (·.succeeds .s2mm)) ∧
    ∀ channel,
      let alone := w.performAll room (events.filter (·.channel = channel))
      turns.filter (·.event.channel = channel) = alone.1 ∧ Alike channel w' alone.2 := by
  intro turns w'
  have hopen' : w'.Listening := hopen.performAll events
  refine ⟨fun channel now timeout => ⟨await_of_late w' channel, fun htimely => ?_⟩,
    accounts_performAll hopen hroom, size_writes_performAll hopen hroom,
    fun channel => Alike.performAll_filter ⟨rfl, rfl⟩ hopen hopen hroom⟩
  exact ⟨await_of_none htimely (hopen' channel), await_of_short htimely (hopen' channel),
    await_of_full htimely (hopen' channel), await_of_count htimely (hopen' channel)⟩

/-- A count that comes in two pieces, a wait for which no deadline can be set, and two waits on a
    line that holds a single word. -/
def lateCount : List Event :=
  let start : Duration := .ofSeconds 7 0
  let second : Duration := .ofSeconds 1 0
  [.feed .mm2s [1, 0, 0], .await .mm2s start second, .await .s2mm start second,
    .feed .mm2s [0, 1, 0, 0, 0], .await .mm2s start (.ofSeconds 0xffffffffffffffff 0),
    .await .mm2s start second, .collect .mm2s 4, .feed .mm2s [2, 0, 0], .await .mm2s start second]

/-- Three bytes are too few for a count and are taken all the same, so that the fourth, which comes
    late, is one of the next four. A burst that has been signalled is not acknowledged by a wait for
    which no deadline can be set. The last wait finds room because the far end has taken the word
    that was sent back before. -/
theorem acknowledged_performAll_late :
    let run := performAll 4 {} lateCount
    run.1.map (·.outcome) = [.fed, .over (.error (.error (.io (.shortAcknowledgement 3)))),
        .over (.error (.error (.channelTimeout .s2mm 1000000))), .fed,
        .over (.error (.trap .deadlineTooLate)), .over (.ok ()), .collected [1, 0, 0, 0], .fed,
        .over (.ok ())] ∧
      Accounts .mm2s run.1 {} run.2 ∧
      run.2.lines.mm2s = ⟨[], [1, 0, 0, 0], .listening⟩ := by
  have hopen : Listening {} := fun channel => by cases channel <;> rfl
  have hroom : Roomy 4 {} lateCount :=
    ⟨trivial, by cbv, by cbv, trivial, by cbv, by cbv, trivial, trivial, by cbv, trivial⟩
  exact ⟨by cbv, (acknowledged_performAll 4 hopen lateCount hroom).2.1 .mm2s, by cbv⟩

end Accounting

end Wiring

end DmaLink.Interrupt
