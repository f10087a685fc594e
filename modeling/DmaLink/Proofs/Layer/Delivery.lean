import DmaLink.Network
import DmaLink.Proofs.Layer.Filling
import Mathlib

namespace DmaLink.Layer

namespace Source

/-- A source that hands out the same bytes in one piece and then ends. -/
def whole (s : Source) : Source := { ofBytes s.bytes with position := s.position }

/-- A source that hands out the bytes before a place in one piece and then ends. -/
def upTo (s : Source) (place : Nat) : Source :=
  { ofBytes (s.bytes.take (place - s.position)) with position := s.position }

/-- Two sources at the same place with the same readable bytes, of which the first fails behind them
    as `cut` says and the second just ends. -/
structure Carries (s : Source) (cut : Option Failure) (t : Source) : Prop where
  cut_eq : s.cut = cut
  ends : t.cut = none
  readable_eq : s.readable = t.readable
  position_eq : s.position = t.position

/-- A source whose failure lies behind its bytes hands all of them out. -/
theorem carries_whole {s : Source}
    (hbehind : ∀ place failure, s.failure = some (place, failure) →
      s.position + s.bytes.length < place) : s.Carries none s.whole := by
  cases hends : s.failure with
  | none =>
    refine ⟨?_, rfl, ?_, rfl⟩
    · rw [cut, hends, Option.bind_none]
    · simp only [readable, hends, whole, ofBytes]
  | some stop =>
    obtain ⟨place, failure⟩ := stop
    have hplace := hbehind place failure hends
    refine ⟨?_, rfl, ?_, rfl⟩
    · simp only [cut, hends, Option.bind_some]
      exact if_neg (by omega)
    · simp only [readable, hends, whole, ofBytes]
      exact List.take_of_length_le (by omega)

/-- A source that fails within its bytes hands out those before its failure. -/
theorem carries_upTo {s : Source} {place : Nat} {failure : Failure}
    (hends : s.failure = some (place, failure)) (hplace : place ≤ s.position + s.bytes.length) :
    s.Carries (some failure) (s.upTo place) := by
  refine ⟨?_, rfl, ?_, rfl⟩
  · simp only [cut, hends, Option.bind_some]
    exact if_pos hplace
  · simp only [readable, hends, upTo, ofBytes]

variable {s t : Source} {cut : Option Failure}

theorem Carries.advances (hcarries : s.Carries cut t) {s' t' : Source} {count : Nat}
    (hs : s.Advances s' count) (ht : t.Advances t' count) : s'.Carries cut t' where
  cut_eq := hs.cut_eq.trans hcarries.cut_eq
  ends := ht.cut_eq.trans hcarries.ends
  readable_eq := by rw [hs.readable_eq, ht.readable_eq, hcarries.readable_eq]
  position_eq := by rw [hs.position_eq, ht.position_eq, hcarries.position_eq]

/-- Both sources give the bytes of a token, or neither has as many. -/
theorem Carries.fill (hcarries : s.Carries cut t) :
    (∃ bytes s' t', s.fill tokenBytes [] = (.full bytes, s') ∧
      t.fill tokenBytes [] = (.full bytes, t') ∧ s'.Carries cut t') ∨
      ∃ count s' t', s.fill tokenBytes [] = (cut.elim (.ended count) .failed, s') ∧
        t.fill tokenBytes [] = (.ended count, t') ∧ s'.Carries cut t' := by
  obtain ⟨hresult, hadvances⟩ := fill_spec tokenBytes [] s
  obtain ⟨hresult', hadvances'⟩ := fill_spec tokenBytes [] t
  rw [hcarries.readable_eq] at hresult hadvances
  rw [hcarries.cut_eq] at hresult
  rw [hcarries.ends] at hresult'
  have hrest := hcarries.advances hadvances hadvances'
  by_cases hfits : tokenBytes ≤ t.readable.length
  · rw [if_pos hfits] at hresult hresult'
    exact .inl ⟨_, _, _, Prod.ext hresult rfl, Prod.ext hresult' rfl, hrest⟩
  · rw [if_neg hfits] at hresult hresult'
    exact .inr ⟨_, _, _, Prod.ext hresult rfl, Prod.ext hresult' rfl, hrest⟩

end Source

/-- The error for a failure where a field is cut short. The first field of a record is cut short by
    no failure, whatever its kind. -/
def Failure.within (failure : Failure) (field : Field) : LayerError :=
  if field = .header .layerType then .io failure.cause else failure.inside field

/-- At the start of a record a failure of any kind is passed on. -/
@[simp]
theorem Failure.within_layerType (failure : Failure) :
    failure.within (.header .layerType) = .io failure.cause := if_pos rfl

/-- Past the start of a record a failure is told by its kind. -/
theorem Failure.within_of_ne (failure : Failure) {field : Field}
    (hfield : field ≠ .header .layerType) : failure.within field = failure.inside field :=
  if_neg hfield

/-- A failure that does not call itself an end of file is passed on at every field. -/
@[simp]
theorem Failure.within_other (cause : TransportFault) (field : Field) :
    Failure.within ⟨.other, cause⟩ field = .io cause := ite_self _

end DmaLink.Layer

namespace DmaLink

/-- What an error comes to when the bytes that were missing stand behind a failure. -/
def LayerError.cutOff (cut : Option Layer.Failure) : LayerError → LayerError
  | .truncated field => cut.elim (.truncated field) (·.within field)
  | cause => cause

namespace Layer

open Source

variable {α : Type} {s t : Source} {cut : Option Failure}

/-- What a reading comes to when the bytes end in a failure. It fails if the end is what it found,
    as `atEnd` says of its value, or if bytes were missing. -/
def cutOff (cut : Option Failure) (atEnd : α → Bool) :
    Except LayerError α → Except LayerError α
  | .ok value => if atEnd value then cut.elim (.ok value) (.error <| .io ·.cause) else .ok value
  | .error cause => .error (cause.cutOff cut)

/-- Without a failure behind the bytes a reading comes to what it comes to. -/
theorem cutOff_none (atEnd : α → Bool) (result : Except LayerError α) :
    cutOff none atEnd result = result := by
  rcases result with cause | value
  · cases cause <;> rfl
  · exact ite_self _

/-- A reading from a source beside the same reading from one that ends where the other fails. -/
structure Agree (cut : Option Failure) (atEnd : α → Bool)
    (first second : Except LayerError α × Source) : Prop where
  result_eq : first.1 = cutOff cut atEnd second.1
  carries : first.2.Carries cut second.2

/-- A reading that never ends where its value begins gives the same value, or both fail. -/
theorem Agree.exists_eq {first second : Except LayerError α × Source}
    (hagree : Agree cut (fun _ => false) first second) :
    (∃ value s' t', first = (.ok value, s') ∧ second = (.ok value, t') ∧ s'.Carries cut t') ∨
      ∃ cause s' t', first = (.error (cause.cutOff cut), s') ∧ second = (.error cause, t') ∧
        s'.Carries cut t' := by
  obtain ⟨result, s'⟩ := first
  obtain ⟨cause | value, t'⟩ := second
  · obtain ⟨rfl, hcarries⟩ := hagree
    exact .inr ⟨cause, s', t', rfl, rfl, hcarries⟩
  · obtain ⟨rfl, hcarries⟩ := hagree
    exact .inl ⟨value, s', t', rfl, rfl, hcarries⟩

/-- The first token of a record is the same from either source, up to the failure. -/
theorem agree_firstToken (hcarries : s.Carries cut t) :
    Agree cut Option.isNone (firstToken s) (firstToken t) := by
  rw [firstToken_eq_fill, firstToken_eq_fill]
  obtain ⟨bytes, s', t', hs, ht, hrest⟩ | ⟨count, s', t', hs, ht, hrest⟩ := hcarries.fill
  · rw [hs, ht]
    exact ⟨rfl, hrest⟩
  · rw [hs, ht]
    cases cut <;> cases count <;> exact ⟨rfl, hrest⟩

/-- A later token is the same from either source, up to the failure. -/
theorem agree_token (hcarries : s.Carries cut t) {field : Field}
    (hfield : field ≠ .header .layerType) :
    Agree cut (fun _ => false) (token field s) (token field t) := by
  rw [token_eq_fill, token_eq_fill]
  obtain ⟨bytes, s', t', hs, ht, hrest⟩ | ⟨count, s', t', hs, ht, hrest⟩ := hcarries.fill
  · rw [hs, ht]
    exact ⟨rfl, hrest⟩
  · rw [hs, ht]
    refine ⟨?_, hrest⟩
    cases cut with
    | none => rfl
    | some failure => exact congrArg Except.error (failure.within_of_ne hfield).symm

theorem agree_readTokens (hcarries : s.Carries cut t) (field : Nat → Field) (count index : Nat)
    (hfield : ∀ i, index ≤ i → field i ≠ .header .layerType) (before : List Int) :
    Agree cut (fun _ => false) (readTokens field count index before s)
      (readTokens field count index before t) := by
  induction count generalizing index before s t with
  | zero => exact ⟨rfl, hcarries⟩
  | succ count ih =>
    obtain ⟨value, s', t', hs, ht, hrest⟩ | ⟨cause, s', t', hs, ht, hrest⟩ :=
      (agree_token hcarries (hfield index (Nat.le_refl index))).exists_eq
    · simp only [readTokens, hs, ht]
      exact ih hrest (index + 1) (fun i hi => hfield i (Nat.le_of_succ_le hi)) (value :: before)
    · simp only [readTokens, hs, ht]
      exact ⟨rfl, hrest⟩

theorem agree_readContents (hcarries : s.Carries cut t) (shape : Shape) :
    Agree cut (fun _ => false) (readContents shape s) (readContents shape t) := by
  obtain ⟨weights, s₁, t₁, hs, ht, hcarries₁⟩ | ⟨cause, s₁, t₁, hs, ht, hcarries₁⟩ :=
    (agree_readTokens hcarries .weight shape.weightCount 0 (fun _ _ => nofun) []).exists_eq
  · obtain ⟨biases, s₂, t₂, hs', ht', hcarries₂⟩ | ⟨cause, s₂, t₂, hs', ht', hcarries₂⟩ :=
      (agree_readTokens hcarries₁ .bias shape.outputChannels 0 (fun _ _ => nofun) []).exists_eq
    · simp only [readContents, hs, ht, hs', ht']
      exact ⟨rfl, hcarries₂⟩
    · simp only [readContents, hs, ht, hs', ht']
      exact ⟨rfl, hcarries₂⟩
  · simp only [readContents, hs, ht]
    exact ⟨rfl, hcarries₁⟩

/-- A result that does not say that bytes are missing. -/
def Whole (result : Except LayerError α) : Prop := ∀ field, result ≠ .error (.truncated field)

/-- Steps that never ask for bytes make one that does not. -/
theorem Whole.bind {β : Type} {x : Except LayerError α} {f : α → Except LayerError β}
    (hx : Whole x) (hf : ∀ value, Whole (f value)) : Whole (x >>= f) := by
  intro field hbind
  cases x with
  | error cause => exact hx field (congrArg Except.error (Except.error.inj hbind))
  | ok value => exact hf value field hbind

namespace Header

variable (h : Header) (field : HeaderField)

theorem whole_checkStride : Whole h.checkStride := by
  unfold checkStride
  split
  · exact nofun
  · split <;> exact nofun

theorem whole_nonNegative : Whole (h.nonNegative field) := by
  unfold nonNegative
  split <;> exact nofun

theorem whole_positive : Whole (h.positive field) := by
  unfold positive
  split
  · exact nofun
  · exact h.whole_nonNegative field

theorem whole_flag : Whole (h.flag field) := by
  unfold flag
  split
  · exact nofun
  · split <;> exact nofun

theorem whole_outputSide (axis : Axis) (input kernel padding : Nat) (pooled : Bool) :
    Whole (outputSide axis input kernel padding pooled) := by
  simp only [outputSide]
  split <;> exact nofun

/-- A header that is refused is refused for what it says. -/
theorem whole_check : Whole h.check := by
  refine .bind h.whole_checkStride fun _ => ?_
  refine .bind (h.whole_nonNegative _) fun _ => ?_
  refine .bind (h.whole_flag _) fun _ => .bind (h.whole_flag _) fun _ => ?_
  refine .bind (h.whole_flag _) fun _ => ?_
  refine .bind (h.whole_positive _) fun _ => .bind (h.whole_positive _) fun _ => ?_
  refine .bind (h.whole_positive _) fun _ => ?_
  refine .bind (h.whole_nonNegative _) fun _ => .bind (h.whole_nonNegative _) fun _ => ?_
  refine .bind (h.whole_nonNegative _) fun _ => ?_
  refine .bind (whole_outputSide _ _ _ _ _) fun _ => .bind (whole_outputSide _ _ _ _ _) fun _ => ?_
  dsimp only
  split <;> exact nofun

end Header

/-- A cut changes no answer that was not about missing bytes. -/
theorem Whole.cutOff {cause : LayerError} (hwhole : Whole (.error cause : Except LayerError α)) :
    cause.cutOff cut = cause := by
  cases cause with
  | truncated field => exact absurd rfl (hwhole field)
  | _ => rfl

theorem HeaderField.atPosition_ne_layerType {i : Nat} (hi : 1 ≤ i) :
    HeaderField.atPosition i ≠ .layerType := by
  match i, hi with
  | 1, _ | 2, _ | 3, _ | 4, _ | 5, _ | 6, _ | 7, _ | 8, _ | 9, _ | 10, _ => decide
  | i + 11, _ => exact nofun

theorem agree_readRecord (hcarries : s.Carries cut t) (layerType : Int) :
    Agree cut (fun _ => false) (readRecord layerType s) (readRecord layerType t) := by
  obtain ⟨tokens, s₁, t₁, hs, ht, hcarries₁⟩ | ⟨cause, s₁, t₁, hs, ht, hcarries₁⟩ :=
    (agree_readTokens hcarries (fun i => .header (.atPosition i)) (HeaderField.all.length - 1) 1
      (fun i hi => mt Field.header.inj (HeaderField.atPosition_ne_layerType hi))
      [layerType]).exists_eq
  · simp only [readRecord, hs, ht]
    cases hcheck : (Header.ofTokens tokens).check with
    | error cause =>
      have hwhole := (Header.ofTokens tokens).whole_check
      rw [hcheck] at hwhole
      exact ⟨congrArg Except.error hwhole.cutOff.symm, hcarries₁⟩
    | ok shape => exact agree_readContents hcarries₁ shape
  · simp only [readRecord, hs, ht]
    exact ⟨rfl, hcarries₁⟩

/-- A call is the same on either source, up to the failure. -/
theorem agree_next (hcarries : s.Carries cut t) :
    Agree cut Option.isNone (next s) (next t) := by
  obtain ⟨hresult, hcarries₁⟩ := agree_firstToken hcarries
  rcases hs : firstToken s with ⟨first, s₁⟩
  rcases ht : firstToken t with ⟨second, t₁⟩
  rw [hs, ht] at hresult hcarries₁
  obtain rfl : first = cutOff cut Option.isNone second := hresult
  rcases second with cause | _ | layerType
  · simp only [next, hs, ht, cutOff]
    exact ⟨rfl, hcarries₁⟩
  · cases cut <;> simp only [next, hs, ht] <;> exact ⟨rfl, hcarries₁⟩
  · have hs : firstToken s = (.ok (some layerType), s₁) := hs
    obtain ⟨layer, s₂, t₂, hs', ht', hcarries₂⟩ | ⟨cause, s₂, t₂, hs', ht', hcarries₂⟩ :=
      (agree_readRecord hcarries₁ layerType).exists_eq
    · simp only [next, hs, ht, hs', ht']
      exact ⟨rfl, hcarries₂⟩
    · simp only [next, hs, ht, hs', ht']
      exact ⟨rfl, hcarries₂⟩

/-- A call on the cut source gives the answer of the uncut one, cut off, and the sources still carry
    the same bytes. -/
theorem exists_next_eq (hcarries : s.Carries cut t) :
    ∃ result s' t', next s = (cutOff cut Option.isNone result, s') ∧ next t = (result, t') ∧
      s'.Carries cut t' := by
  obtain ⟨hresult, hcarries'⟩ := agree_next hcarries
  exact ⟨_, _, _, Prod.ext hresult rfl, rfl, hcarries'⟩

/-- The answer to a request for the next record, and the records returned and the bytes handed out
    by then. -/
structure Loader.Turn where
  result : Except LayerError (Option Layer)
  layersRead : Nat
  position : Nat

/-- The answers to so many requests, one after the other. -/
def Loader.turns (l : Loader) : Nat → List Turn
  | 0 => []
  | count + 1 =>
    match l.next with
    | (result, l) => ⟨result, l.layersRead, l.source.position⟩ :: l.turns count

/-- The same turn of a source that fails where the bytes end. -/
def Loader.Turn.cutOff (cut : Option Failure) (turn : Turn) : Turn :=
  { turn with result := Layer.cutOff cut Option.isNone turn.result }

theorem Loader.next_of_layer {l : Loader} {layer : Layer} {s : Source}
    (h : Layer.next l.source = (.ok (some layer), s)) :
    l.next = (.ok (some layer), ⟨s, l.layersRead + 1⟩) := by
  unfold Loader.next
  rw [h]

theorem Loader.next_of_no_layer {l : Loader} {result : Except LayerError (Option Layer)}
    {s : Source} (h : Layer.next l.source = (result, s))
    (hresult : ∀ layer, result ≠ .ok (some layer)) : l.next = (result, ⟨s, l.layersRead⟩) := by
  unfold Loader.next
  rw [h]
  split
  · next heq => exact absurd (Prod.mk.inj heq).1 (hresult _)
  · next heq =>
    obtain ⟨rfl, rfl⟩ := Prod.mk.inj heq
    rfl

theorem Loader.Turn.cutOff_none (turn : Turn) : turn.cutOff none = turn := by
  rw [Turn.cutOff, Layer.cutOff_none]

/-- A loader's turn, beside that of a loader whose source ends where the other's fails. -/
theorem exists_loader_next_eq {l l' : Loader} (hcarries : l.source.Carries cut l'.source)
    (hread : l.layersRead = l'.layersRead) :
    ∃ result after after', l.next = (cutOff cut Option.isNone result, after) ∧
      l'.next = (result, after') ∧ after.source.Carries cut after'.source ∧
      after.layersRead = after'.layersRead := by
  obtain ⟨result, s, s', hs, hs', hcarries'⟩ := exists_next_eq hcarries
  have hno_layer : (∀ layer, result ≠ .ok (some layer)) →
      ∀ layer, cutOff cut Option.isNone result ≠ .ok (some layer) := by
    rcases result with cause | _ | layer
    · exact fun _ _ => nofun
    · cases cut <;> exact fun _ _ => nofun
    · exact fun h => absurd rfl (h layer)
  by_cases hlayer : ∃ layer, result = .ok (some layer)
  · obtain ⟨layer, rfl⟩ := hlayer
    exact ⟨.ok (some layer), ⟨s, l.layersRead + 1⟩, ⟨s', l'.layersRead + 1⟩,
      Loader.next_of_layer hs, Loader.next_of_layer hs', hcarries', congrArg (· + 1) hread⟩
  · have hresult := not_exists.1 hlayer
    exact ⟨_, _, _, Loader.next_of_no_layer hs (hno_layer hresult),
      Loader.next_of_no_layer hs' hresult, hcarries', hread⟩

/-- Any number of calls on the cut source give the answers, counts and progress of the uncut one,
    cut off. -/
theorem turns_of_carries (l l' : Loader) (hcarries : l.source.Carries cut l'.source)
    (hread : l.layersRead = l'.layersRead) (count : Nat) :
    l.turns count = (l'.turns count).map (Loader.Turn.cutOff cut) := by
  induction count generalizing l l' with
  | zero => rfl
  | succ count ih =>
    obtain ⟨result, after, after', hl, hl', hcarries', hread'⟩ :=
      exists_loader_next_eq hcarries hread
    simp only [Loader.turns, hl, hl', List.map_cons, ih _ _ hcarries' hread', Loader.Turn.cutOff,
      hcarries'.position_eq, hread']

theorem readOne_of_carries (hcarries : s.Carries cut t) :
    readOne s = cutOff cut (fun _ => false) (readOne t) := by
  obtain ⟨result, s', t', hs, ht, -⟩ := exists_next_eq hcarries
  unfold readOne
  rw [hs, ht]
  rcases result with cause | _ | layer
  · rfl
  · cases cut <;> rfl
  · rfl

end Layer

namespace Network

open Layer

theorem readAll_eq (before : List Layer) (s : Source) :
    readAll before s =
      match next s with
      | (.error cause, _) => .error cause
      | (.ok none, _) => .ok before.reverse
      | (.ok (some layer), rest) => readAll (layer :: before) rest := by
  rw [readAll]
  split <;> simp only [*]

theorem readAll_of_carries {s t : Source} {cut : Option Failure}
    (hcarries : s.Carries cut t) (before : List Layer) :
    readAll before s = cutOff cut (fun _ => true) (readAll before t) := by
  rw [readAll_eq, readAll_eq]
  obtain ⟨result, s', t', hs, ht, hcarries'⟩ := exists_next_eq hcarries
  rw [hs, ht]
  rcases result with cause | _ | layer
  · rfl
  · cases cut <;> rfl
  -- Every record takes bytes off both sources.
  · exact readAll_of_carries hcarries' (layer :: before)
termination_by t.bytes.length
decreasing_by exact length_next_lt ht

/-- Reading a network from the cut source gives the answer of the uncut one, cut off. -/
theorem ofSource_of_carries {s t : Source} {cut : Option Failure}
    (hcarries : s.Carries cut t) :
    ofSource s = cutOff cut (fun _ => true) (ofSource t) := by
  rw [ofSource, ofSource, readAll_of_carries hcarries []]
  rcases readAll [] t with cause | layers
  · rfl
  · cases cut <;> rfl

end Network

namespace Layer

open Source

/-- The bytes ended inside a record, behind its first field. -/
def Loader.Turn.BreaksOff (turn : Turn) : Prop :=
  ∃ field, field ≠ .header .layerType ∧ turn.result = .error (.truncated field)

/-- Past the start of a record a failure is passed on unless it calls itself an end of file. -/
theorem Failure.inside_eq_io_iff (failure : Failure) (field : Field) :
    failure.inside field = .io failure.cause ↔ failure.kind = .other := by
  obtain ⟨_ | _, cause⟩ := failure
  · exact ⟨nofun, nofun⟩
  · exact ⟨fun _ => rfl, fun _ => rfl⟩

/-- A failure of either kind is told in the same way, unless the bytes end inside a record. -/
theorem Loader.Turn.cutOff_eq_cutOff_other_iff (turn : Turn) (failure : Failure) :
    turn.cutOff (some failure) = turn.cutOff (some ⟨.other, failure.cause⟩) ↔
      failure.kind = .other ∨ ¬turn.BreaksOff := by
  obtain ⟨(_ | _ | field | _ | _) | layer, layersRead, position⟩ := turn
  case error.truncated =>
    by_cases hfirst : field = .header .layerType
    · subst hfirst
      have hnot : ¬BreaksOff ⟨.error (.truncated (.header .layerType)), layersRead, position⟩ := by
        rintro ⟨field, hfield, hresult⟩
        cases hresult
        exact hfield rfl
      simp [hnot, Turn.cutOff, Layer.cutOff, LayerError.cutOff]
    · have hbreaks : BreaksOff ⟨.error (.truncated field), layersRead, position⟩ :=
        ⟨field, hfirst, rfl⟩
      simp [hbreaks, Turn.cutOff, Layer.cutOff, LayerError.cutOff, failure.within_of_ne hfirst,
        failure.inside_eq_io_iff]
  case ok => exact ⟨fun _ => .inr nofun, fun _ => rfl⟩
  all_goals exact ⟨fun _ => .inr nofun, fun _ => rfl⟩

/-- What is read from a source, and how far, does not depend on how it hands out its bytes. A source
    whose bytes end before it would fail is read as those bytes in one piece. One that fails is read
    as the bytes before its failure, save that where these end it fails. The failure takes the place
    of every end and of every record cut short, unless it says itself that the bytes ended. Then a
    record that is cut short behind its first field is still told to be so, although bytes may be
    left. -/
theorem reading_of_delivery (s : Source) :
    ((∀ place failure, s.failure = some (place, failure) →
        s.position + s.bytes.length < place) →
      (∀ layersRead count,
        Loader.turns ⟨s, layersRead⟩ count = Loader.turns ⟨s.whole, layersRead⟩ count) ∧
      readOne s = readOne s.whole ∧ Network.ofSource s = Network.ofSource s.whole) ∧
    ∀ place failure, s.failure = some (place, failure) → place ≤ s.position + s.bytes.length →
      (∀ layersRead count, Loader.turns ⟨s, layersRead⟩ count =
        (Loader.turns ⟨s.upTo place, layersRead⟩ count).map (Loader.Turn.cutOff (some failure))) ∧
      readOne s = cutOff (some failure) (fun _ => false) (readOne (s.upTo place)) ∧
      Network.ofSource s =
        cutOff (some failure) (fun _ => true) (Network.ofSource (s.upTo place)) ∧
      ∀ layersRead count, Loader.turns ⟨s, layersRead⟩ count =
          (Loader.turns ⟨s.upTo place, layersRead⟩ count).map
            (Loader.Turn.cutOff (some ⟨.other, failure.cause⟩)) ↔
        failure.kind = .other ∨
          ∀ turn ∈ Loader.turns ⟨s.upTo place, layersRead⟩ count, ¬turn.BreaksOff := by
  refine ⟨fun hbehind => ?_, fun place failure hends hplace => ?_⟩
  · have hcarries := carries_whole hbehind
    refine ⟨fun layersRead count => ?_, ?_, ?_⟩
    · rw [turns_of_carries ⟨s, layersRead⟩ ⟨s.whole, layersRead⟩ hcarries rfl count]
      exact (List.map_congr_left fun turn _ => turn.cutOff_none).trans (List.map_id _)
    · rw [readOne_of_carries hcarries, cutOff_none]
    · rw [Network.ofSource_of_carries hcarries, cutOff_none]
  · have hcarries := carries_upTo hends hplace
    have hturns (layersRead count : Nat) :=
      turns_of_carries ⟨s, layersRead⟩ ⟨s.upTo place, layersRead⟩ hcarries rfl count
    refine ⟨hturns, readOne_of_carries hcarries, Network.ofSource_of_carries hcarries,
      fun layersRead count => ?_⟩
    rw [hturns, List.map_inj_left]
    constructor
    · intro htold
      by_cases hkind : failure.kind = .other
      · exact .inl hkind
      · exact .inr fun turn hturn =>
          ((turn.cutOff_eq_cutOff_other_iff failure).1 (htold turn hturn)).resolve_left hkind
    · intro hwhole turn hturn
      exact (turn.cutOff_eq_cutOff_other_iff failure).2 (hwhole.imp_right (· turn hturn))

/-- Five bytes handed out one by one, with every second call interrupted. -/
def fiveBytes (place : Nat) (kind : FailureKind) : Source :=
  { bytes := [2, 0, 0, 0, 1], chunk := some 1, interruptEvery := 2,
    failure := some (place, ⟨kind, .file .brokenPipe⟩) }

/-- The five bytes are read as in one piece if the failure stands behind them, and fail with it if
    it stands behind the third. -/
theorem reading_of_fiveBytes :
    readOne (fiveBytes 6 .other) = readOne (fiveBytes 6 .other).whole ∧
      readOne (fiveBytes 6 .other) = .error (.truncated (.header (.atPosition 1))) ∧
      Network.ofSource (fiveBytes 3 .other) =
        cutOff (some ⟨.other, .file .brokenPipe⟩) (fun _ => true)
          (Network.ofSource ((fiveBytes 3 .other).upTo 3)) ∧
      readOne (fiveBytes 3 .other) = .error (.io (.file .brokenPipe)) := by
  have hbehind := (reading_of_delivery (fiveBytes 6 .other)).1 (by
    intro place failure hends
    cases hends
    decide)
  have hbefore :=
    (reading_of_delivery (fiveBytes 3 .other)).2 3 ⟨.other, .file .brokenPipe⟩ rfl (by decide)
  refine ⟨hbehind.2.1, ?_, hbefore.2.2.1, ?_⟩
  · cbv
  · cbv

/-- A failure behind the first field that says that the bytes ended is not reported: the record is
    cut short in its second field. -/
theorem not_reported_of_fiveBytes :
    ¬∀ (s : Source) (place : Nat) (failure : Failure), s.failure = some (place, failure) →
      place ≤ s.position + s.bytes.length → ∀ layersRead count,
        Loader.turns ⟨s, layersRead⟩ count =
          (Loader.turns ⟨s.upTo place, layersRead⟩ count).map
            (Loader.Turn.cutOff (some ⟨.other, failure.cause⟩)) := by
  intro hreported
  have hturns := hreported (fiveBytes 4 .unexpectedEnd) 4 ⟨.unexpectedEnd, .file .brokenPipe⟩ rfl
    (by decide) 0 1
  have hfirst := congrArg (·.map Loader.Turn.result) hturns
  have hcut : (Loader.turns ⟨fiveBytes 4 .unexpectedEnd, 0⟩ 1).map Loader.Turn.result =
      [.error (.truncated (.header .compression))] := by cbv
  have hclaimed : ((Loader.turns ⟨(fiveBytes 4 .unexpectedEnd).upTo 4, 0⟩ 1).map
      (Loader.Turn.cutOff (some ⟨.other, .file .brokenPipe⟩))).map Loader.Turn.result =
      [.error (.io (.file .brokenPipe))] := by cbv
  rw [hcut, hclaimed] at hfirst
  cases hfirst

end Layer

end DmaLink
