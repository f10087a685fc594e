import DmaLink.Settings.Override
import DmaLink.Proofs.Except

namespace DmaLink

namespace Settings

open Text

theorem orUnreadable_ok {α : Type} (v : Variable) (shown : String) (value : α) :
    orUnreadable v shown (.ok value) = .ok value := rfl

namespace Variable

/-- The values that a variable can give. -/
@[reducible]
def Value : Variable → Type
  | .registerAddress => UInt32
  | .sourceAddress => UInt32
  | .destinationAddress => UInt32
  | .timeout => UInt64
  | .sync => SyncMode
  | .resetLine => Option UInt32

/-- What the text of an address is read as. -/
def readAddress (v : Variable) (text : String) : Except LinkError UInt32 :=
  orUnreadable v (String.ofList (trim text.toList)) (parseAddress (trim text.toList))

/-- What the text of a variable is read as. -/
def read : (v : Variable) → String → Except LinkError v.Value
  | .registerAddress, text => readAddress .registerAddress text
  | .sourceAddress, text => readAddress .sourceAddress text
  | .destinationAddress, text => readAddress .destinationAddress text
  | .timeout, text =>
    (orUnreadable .timeout text (numeral 10 UInt64.size (trim text.toList))).map UInt64.ofNat
  | .sync, text => SyncMode.parse text
  | .resetLine, text =>
    (orUnreadable .resetLine (String.ofList (trim text.toList))
      (parseResetLine (trim text.toList))).map (Option.map UInt32.ofNat)

/-- The text of a variable can be read. -/
def Readable (v : Variable) (text : String) : Prop := ∃ value, v.read text = .ok value

end Variable

/-- The settings with the value that a variable gives, if it gives one. -/
def choose (settings : Settings) : (v : Variable) → Option v.Value → Settings
  | .registerAddress, address =>
    { settings with registerAddress := address.getD settings.registerAddress }
  | .sourceAddress, address =>
    { settings with sourceAddress := address.getD settings.sourceAddress }
  | .destinationAddress, address =>
    { settings with destinationAddress := address.getD settings.destinationAddress }
  | .timeout, count =>
    { settings with
      timeout := (count.map fun count => .ofMicroseconds count.toNat).getD settings.timeout }
  | .sync, mode => { settings with sync := mode.getD settings.sync }
  | .resetLine, line =>
    { settings with resetLine := (line.map (Option.map UInt32.toNat)).getD settings.resetLine }

@[simp]
theorem choose_none (settings : Settings) (v : Variable) : settings.choose v none = settings := by
  cases v <;> rfl

/-- A variable overrides the settings with what its text is read as. -/
theorem override_eq (settings : Settings) (v : Variable) (text : String) :
    settings.override v text = (v.read text).map fun value => settings.choose v (some value) := by
  cases v with
  | registerAddress => rfl
  | sourceAddress => rfl
  | destinationAddress => rfl
  | timeout =>
    simp only [override, Variable.read]
    cases hcount : numeral 10 UInt64.size (trim text.toList) with
    | error why => rfl
    | ok count =>
      have hfits : (UInt64.ofNat count).toNat = count :=
        UInt64.toNat_ofNat_of_lt (numeral_lt (by decide) hcount)
      simp only [orUnreadable_ok, Except.map, choose, Option.map_some, Option.getD_some, hfits]
  | sync => rfl
  | resetLine =>
    simp only [override, Variable.read, parseResetLine]
    split
    case isTrue => rfl
    case isFalse =>
      cases hline : numeral 10 UInt32.size (trim text.toList) with
      | error why => rfl
      | ok line =>
        have hfits : (UInt32.ofNat line).toNat = line :=
          UInt32.toNat_ofNat_of_lt (numeral_lt (by decide) hline)
        simp only [orUnreadable_ok, Except.map, choose, Option.map_some, Option.getD_some, hfits]

section Overriding

variable {lookup : String → Option String} {listed : List Variable} {settings : Settings}

/-- What a variable is set to and what it is read as, if it is set. -/
def Gives (lookup : String → Option String) (v : Variable) : Option v.Value → Prop
  | none => lookup v.name = none
  | some value => ∃ text, lookup v.name = some text ∧ v.read text = .ok value

/-- Where overriding stops: at the first variable whose text cannot be read. -/
structure StopsAt (lookup : String → Option String) (listed : List Variable) (v : Variable)
    (text : String) : Prop where
  found : lookup v.name = some text
  unreadable : ¬v.Readable text
  earlier : ∃ before after, listed = before ++ v :: after ∧
    ∀ u ∈ before, ∀ text, lookup u.name = some text → u.Readable text

theorem overrideAll_of_none {v : Variable} (hnone : lookup v.name = none) :
    overrideAll lookup (v :: listed) settings = overrideAll lookup listed settings := by
  rw [overrideAll, hnone]

/-- A variable whose value can be read overrides its setting. -/
theorem overrideAll_of_ok {v : Variable} {text : String} {value : v.Value}
    (hsome : lookup v.name = some text) (hread : v.read text = .ok value) :
    overrideAll lookup (v :: listed) settings =
      overrideAll lookup listed (settings.choose v (some value)) := by
  rw [overrideAll, hsome]
  dsimp only
  rw [override_eq, hread]
  rfl

/-- A variable whose value cannot be read ends the reading with its error. -/
theorem overrideAll_of_error {v : Variable} {text : String} {cause : LinkError}
    (hsome : lookup v.name = some text) (hread : v.read text = .error cause) :
    overrideAll lookup (v :: listed) settings = .error cause := by
  rw [overrideAll, hsome]
  dsimp only
  rw [override_eq, hread]
  rfl

/-- The values that the variables give are taken over one after the other. -/
theorem overrideAll_eq_ok {choice : (v : Variable) → Option v.Value}
    (hgives : ∀ v ∈ listed, Gives lookup v (choice v)) :
    overrideAll lookup listed settings =
      .ok (listed.foldl (fun settings v => settings.choose v (choice v)) settings) := by
  induction listed generalizing settings with
  | nil => rfl
  | cons v rest ih =>
    have hfirst := hgives v List.mem_cons_self
    have hrest := fun u hu => hgives u (List.mem_cons_of_mem v hu)
    rw [List.foldl_cons]
    cases hchoice : choice v with
    | none =>
      rw [hchoice] at hfirst
      rw [overrideAll_of_none hfirst, choose_none]
      exact ih hrest
    | some value =>
      rw [hchoice] at hfirst
      obtain ⟨text, hsome, hread⟩ := hfirst
      rw [overrideAll_of_ok hsome hread]
      exact ih hrest

/-- Overriding goes on behind a variable that can be read, or that is not set, and stops at any
    other. -/
theorem overrideAll_cons (v : Variable) :
    (∃ next, overrideAll lookup (v :: listed) settings = overrideAll lookup listed next ∧
        ∀ text, lookup v.name = some text → v.Readable text) ∨
      ∃ text cause, lookup v.name = some text ∧ v.read text = .error cause ∧
        overrideAll lookup (v :: listed) settings = .error cause := by
  cases hfound : lookup v.name with
  | none => exact .inl ⟨settings, overrideAll_of_none hfound, nofun⟩
  | some text =>
    cases hread : v.read text with
    | error cause => exact .inr ⟨text, cause, rfl, hread, overrideAll_of_error hfound hread⟩
    | ok value =>
      refine .inl ⟨_, overrideAll_of_ok hfound hread, fun other hother => ?_⟩
      rw [← Option.some.inj hother]
      exact ⟨value, hread⟩

/-- A variable that can be read puts off the place where the reading stops. -/
theorem StopsAt.cons {u v : Variable} {text : String} (hstops : StopsAt lookup listed v text)
    (hfirst : ∀ text, lookup u.name = some text → u.Readable text) :
    StopsAt lookup (u :: listed) v text := by
  obtain ⟨hfound, hunreadable, before, after, rfl, hearlier⟩ := hstops
  exact ⟨hfound, hunreadable, u :: before, after, rfl, List.forall_mem_cons.2 ⟨hfirst, hearlier⟩⟩

/-- A value that gives an error cannot be read. -/
theorem not_readable_of_error {v : Variable} {text : String} {cause : LinkError}
    (hread : v.read text = .error cause) : ¬v.Readable text := by
  rintro ⟨value, hvalue⟩
  rw [hread] at hvalue
  cases hvalue

/-- Overriding succeeds, and then every text can be read, or stops at the first variable whose text
    cannot, with the error of reading it. -/
theorem overrideAll_spec (lookup : String → Option String) (listed : List Variable)
    (settings : Settings) :
    ((∃ result, overrideAll lookup listed settings = .ok result) ∧
        ∀ v ∈ listed, ∀ text, lookup v.name = some text → v.Readable text) ∨
      ∃ v text cause, StopsAt lookup listed v text ∧ v.read text = .error cause ∧
        overrideAll lookup listed settings = .error cause := by
  induction listed generalizing settings with
  | nil => exact .inl ⟨⟨settings, rfl⟩, nofun⟩
  | cons v rest ih =>
    obtain ⟨next, hnext, hfirst⟩ | ⟨text, cause, hfound, hread, herror⟩ := overrideAll_cons v
    · obtain ⟨hresult, hrest⟩ | ⟨u, text, cause, hstops, hread, herror⟩ := ih next
      · exact .inl ⟨hnext ▸ hresult, List.forall_mem_cons.2 ⟨hfirst, hrest⟩⟩
      · exact .inr ⟨u, text, cause, hstops.cons hfirst, hread, hnext.trans herror⟩
    · exact .inr ⟨v, text, cause, ⟨hfound, not_readable_of_error hread, [], rest, rfl, nofun⟩,
        hread, herror⟩

end Overriding

end Settings

end DmaLink
