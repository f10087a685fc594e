import DmaLink.Proofs.Settings.Naming
import DmaLink.Proofs.Settings.Spelling

namespace DmaLink

namespace Settings

open Text

/-- An address in decimal, or in hexadecimal after `0x` or `0X`. Underscores may stand anywhere
    behind the prefix. -/
inductive Address (n : Nat) : List Char → Prop where
  | decimal {text : List Char} : Decimal n text → Address n text
  | hexadecimal {mark : Char} {digits : List Char} : mark = 'x' ∨ mark = 'X' →
      Hexadecimal n (digits.filter (· != '_')) → Address n ('0' :: mark :: digits)

namespace Variable

/-- The texts that a value of a variable may be written as, but for the blanks around them. -/
def Spells : (v : Variable) → v.Value → List Char → Prop
  | .registerAddress, address => Address address.toNat
  | .sourceAddress, address => Address address.toNat
  | .destinationAddress, address => Address address.toNat
  | .timeout, count => Decimal count.toNat
  | .sync, mode => Named mode.name
  | .resetLine, none => Named "none"
  | .resetLine, some line => Decimal line.toNat

/-- The texts of a number for a variable that takes numbers. -/
def Numeral : Variable → Nat → List Char → Prop
  | .registerAddress => Address
  | .sourceAddress => Address
  | .destinationAddress => Address
  | .timeout => Decimal
  | .sync => fun _ _ => False
  | .resetLine => Decimal

/-- The first number that there is no room for. -/
def bound : Variable → Nat
  | .registerAddress => UInt32.size
  | .sourceAddress => UInt32.size
  | .destinationAddress => UInt32.size
  | .timeout => UInt64.size
  | .sync => 0
  | .resetLine => UInt32.size

/-- The texts of the numbers that there is no room for. -/
def Exceeds (v : Variable) (text : List Char) : Prop := ∃ n, v.bound ≤ n ∧ v.Numeral n text

end Variable

/-- How a variable is set for a value, if it is to have one. -/
def Sets (lookup : String → Option String) (v : Variable) : Option v.Value → Prop
  | none => lookup v.name = none
  | some value => ∃ text, lookup v.name = some text ∧ Padded (v.Spells value) text

/-- The settings in which every variable has its value, or the default if it has none. -/
def chosen (choice : (v : Variable) → Option v.Value) : Settings :=
  { Settings.default with
    registerAddress := (choice .registerAddress).getD Settings.default.registerAddress
    sourceAddress := (choice .sourceAddress).getD Settings.default.sourceAddress
    destinationAddress := (choice .destinationAddress).getD Settings.default.destinationAddress
    timeout := ((choice .timeout).map fun count => .ofMicroseconds count.toNat).getD
      Settings.default.timeout
    sync := (choice .sync).getD Settings.default.sync
    resetLine := ((choice .resetLine).map (Option.map UInt32.toNat)).getD
      Settings.default.resetLine }

/-- Choosing for every variable in turn gives the settings of those choices. -/
theorem foldl_choose_default (choice : (v : Variable) → Option v.Value) :
    Variable.all.foldl (fun settings v => settings.choose v (choice v)) Settings.default =
      chosen choice := rfl

section Addresses

variable {n : Nat} {text : List Char}

/-- Neither prefix occurs in a decimal text. -/
theorem parseAddress_decimal (htext : Decimal n text) :
    parseAddress text = (numeral 10 UInt32.size text).map UInt32.ofNat := by
  have hdigit := (Denotes.of_decimal htext).exists_digitValue?
  have hplain (mark : Char) (digits : List Char) (hmark : digitValue? 10 mark = none) :
      text ≠ '0' :: mark :: digits := by
    rintro rfl
    obtain ⟨digit, hsome⟩ := hdigit mark (by simp)
    rw [hmark] at hsome
    cases hsome
  unfold parseAddress
  split
  · exact absurd rfl (hplain 'x' _ (by decide))
  · exact absurd rfl (hplain 'X' _ (by decide))
  · rfl

/-- A marked address is read in base sixteen, its underscores left out. -/
theorem parseAddress_hexadecimal {mark : Char} (hmark : mark = 'x' ∨ mark = 'X')
    (digits : List Char) : parseAddress ('0' :: mark :: digits) =
      (numeral 16 UInt32.size (digits.filter (· != '_'))).map UInt32.ofNat := by
  obtain rfl | rfl := hmark
  · rfl
  · rfl

/-- The text of an address is read as that address if it fits in a word, and is too large otherwise.
    -/
theorem parseAddress_address (htext : Address n text) :
    parseAddress text = if n < UInt32.size then .ok (UInt32.ofNat n) else .error .tooLarge := by
  cases htext with
  | decimal htext =>
    rw [parseAddress_decimal htext, (Denotes.of_decimal htext).numeral_eq (by decide)]
    split <;> rfl
  | hexadecimal hmark hdigits =>
    rw [parseAddress_hexadecimal hmark, (Denotes.of_hexadecimal hdigits).numeral_eq (by decide)]
    split <;> rfl

theorem Address.isBlank_eq_false (htext : Address n text) : ∀ c ∈ text, isBlank c = false := by
  cases htext with
  | decimal htext => exact (Denotes.of_decimal htext).isBlank_eq_false
  | @hexadecimal mark digits hmark hdigits =>
    have hbody : ∀ c ∈ digits, isBlank c = false := by
      intro c hc
      by_cases hunderscore : c = '_'
      · rw [hunderscore]
        decide
      · refine (Denotes.of_hexadecimal hdigits).isBlank_eq_false c (List.mem_filter.2 ⟨hc, ?_⟩)
        exact bne_iff_ne.2 hunderscore
    have hfront : isBlank mark = false := by
      obtain rfl | rfl := hmark
      · decide
      · decide
    exact List.forall_mem_cons.2 ⟨by decide, List.forall_mem_cons.2 ⟨hfront, hbody⟩⟩

end Addresses

/-- No letter is a decimal digit, so a number is no name. -/
theorem parseResetLine_decimal {n : Nat} {text : List Char} (htext : Decimal n text) :
    parseResetLine text = if n < UInt32.size then .ok (some n) else .error .tooLarge := by
  have hname : text.map Char.toLower ≠ "none".toList := by
    intro hnone
    have hmem : 'n' ∈ text.map Char.toLower := hnone ▸ (by decide : 'n' ∈ "none".toList)
    obtain ⟨c, hc, hlower⟩ := List.mem_map.1 hmem
    obtain ⟨digit, hdigit⟩ := (Denotes.of_decimal htext).exists_digitValue? c hc
    rw [← digitValue?_toLower, hlower] at hdigit
    cases hdigit
  rw [parseResetLine, if_neg hname, (Denotes.of_decimal htext).numeral_eq (by decide)]
  split <;> rfl

namespace Variable

variable {v : Variable} {text : String}

theorem isBlank_eq_false_of_spells {value : v.Value} {body : List Char}
    (hbody : v.Spells value body) : ∀ c ∈ body, isBlank c = false := by
  cases v with
  | registerAddress => exact Address.isBlank_eq_false hbody
  | sourceAddress => exact Address.isBlank_eq_false hbody
  | destinationAddress => exact Address.isBlank_eq_false hbody
  | timeout => exact (Denotes.of_decimal hbody).isBlank_eq_false
  | sync =>
    cases value with
    | poll => exact Named.isBlank_eq_false hbody (by decide)
    | interrupt => exact Named.isBlank_eq_false hbody (by decide)
  | resetLine =>
    cases value with
    | none => exact Named.isBlank_eq_false hbody (by decide)
    | some line => exact (Denotes.of_decimal hbody).isBlank_eq_false

theorem isBlank_eq_false_of_numeral {n : Nat} {body : List Char} (hbody : v.Numeral n body) :
    ∀ c ∈ body, isBlank c = false := by
  cases v with
  | registerAddress => exact Address.isBlank_eq_false hbody
  | sourceAddress => exact Address.isBlank_eq_false hbody
  | destinationAddress => exact Address.isBlank_eq_false hbody
  | timeout => exact (Denotes.of_decimal hbody).isBlank_eq_false
  | sync => exact hbody.elim
  | resetLine => exact (Denotes.of_decimal hbody).isBlank_eq_false

theorem readAddress_eq {n : Nat} (htext : Address n (trim text.toList)) :
    readAddress v text =
      if n < UInt32.size then .ok (UInt32.ofNat n)
      else .error
        (.configuration (.unreadable v.name (String.ofList (trim text.toList)) .tooLarge)) := by
  rw [readAddress, parseAddress_address htext]
  split <;> rfl

/-- The text of an address that fits is read as it, whatever the blanks around it. -/
theorem readAddress_of_address {address : UInt32}
    (htext : Address address.toNat (trim text.toList)) :
    readAddress v text = .ok address := by
  rw [readAddress_eq htext, if_pos address.toNat_lt, UInt32.ofNat_toNat]

/-- A value is read from any of its texts. -/
theorem read_of_spells {value : v.Value} (htext : Padded (v.Spells value) text) :
    v.read text = .ok value := by
  have hbody := htext.trim_toList fun _ => isBlank_eq_false_of_spells
  cases v with
  | registerAddress => exact readAddress_of_address hbody
  | sourceAddress => exact readAddress_of_address hbody
  | destinationAddress => exact readAddress_of_address hbody
  | timeout =>
    rw [read, (Denotes.of_decimal hbody).numeral_eq (by decide), if_pos value.toNat_lt]
    exact congrArg Except.ok UInt64.ofNat_toNat
  | sync =>
    have hname : (trim text.toList).map Char.toLower = value.name.toList := hbody
    rw [read, SyncMode.parse, hname]
    cases value with
    | poll => rfl
    | interrupt => rfl
  | resetLine =>
    cases value with
    | none =>
      have hname : (trim text.toList).map Char.toLower = "none".toList := hbody
      rw [read, parseResetLine, if_pos hname]
      rfl
    | some line =>
      rw [read, parseResetLine_decimal hbody, if_pos line.toNat_lt]
      exact congrArg (Except.ok ∘ some) UInt32.ofNat_toNat

/-- A number that there is no room for is reported. -/
theorem read_of_exceeds (htext : Padded v.Exceeds text) :
    ∃ shown, v.read text = .error (.configuration (.unreadable v.name shown .tooLarge)) := by
  obtain ⟨n, hbound, hbody⟩ :=
    htext.trim_toList fun _ hbody => isBlank_eq_false_of_numeral hbody.choose_spec.2
  cases v with
  | registerAddress => exact ⟨_, (readAddress_eq hbody).trans (if_neg (Nat.not_lt.2 hbound))⟩
  | sourceAddress => exact ⟨_, (readAddress_eq hbody).trans (if_neg (Nat.not_lt.2 hbound))⟩
  | destinationAddress => exact ⟨_, (readAddress_eq hbody).trans (if_neg (Nat.not_lt.2 hbound))⟩
  | timeout =>
    have hlarge : ¬n < UInt64.size := Nat.not_lt.2 hbound
    refine ⟨text, ?_⟩
    rw [read, (Denotes.of_decimal hbody).numeral_eq (by decide), if_neg hlarge]
    rfl
  | sync => exact hbody.elim
  | resetLine =>
    have hlarge : ¬n < UInt32.size := Nat.not_lt.2 hbound
    refine ⟨String.ofList (trim text.toList), ?_⟩
    rw [read, parseResetLine_decimal hbody, if_neg hlarge]
    rfl

end Variable

/-- A variable set to the text of a value gives that value. -/
theorem Sets.gives {lookup : String → Option String} {v : Variable} {choice : Option v.Value}
    (hsets : Sets lookup v choice) : Gives lookup v choice := by
  cases choice with
  | none => exact hsets
  | some value =>
    obtain ⟨text, hfound, htext⟩ := hsets
    exact ⟨text, hfound, Variable.read_of_spells htext⟩

theorem mem_all (v : Variable) : v ∈ Variable.all := by
  cases v <;> decide

/-- Values survive being written and read: whichever variables are set, each to a value in any of
    its spellings, the settings are these values and the defaults of all else. A number that there
    is no room for is refused, whatever the other variables hold. -/
theorem ofEnvironment_of_written (lookup : String → Option String) :
    (∀ choice : (v : Variable) → Option v.Value,
        (∀ v, Sets lookup v (choice v)) → ofEnvironment lookup = .ok (chosen choice)) ∧
      ∀ (v : Variable) (text : String), lookup v.name = some text → Padded v.Exceeds text →
        ∃ fault, ofEnvironment lookup = .error (.configuration fault) := by
  constructor
  · intro choice hsets
    have hgives : ∀ v ∈ Variable.all, Gives lookup v (choice v) := fun v _ => (hsets v).gives
    rw [ofEnvironment, overrideAll_eq_ok hgives, foldl_choose_default]
  · intro v text hfound htext
    obtain ⟨shown, hrefused⟩ := Variable.read_of_exceeds htext
    -- Another variable may be refused before this one.
    obtain ⟨-, hreadable⟩ | ⟨u, text', cause, -, hread, herror⟩ :=
      overrideAll_spec lookup Variable.all .default
    · exact absurd (hreadable v (mem_all v) text hfound) (not_readable_of_error hrefused)
    · obtain ⟨-, shown', why, rfl⟩ | ⟨-, rfl⟩ := read_eq_error hread
      · exact ⟨_, herror⟩
      · exact ⟨_, herror⟩

/-- An environment with four values in unusual spellings. -/
def spelled (name : String) : Option String :=
  if name = Variable.registerAddress.name then some "\t0X_4100__0000 "
  else if name = Variable.sourceAddress.name then some " 000268435456\n"
  else if name = Variable.sync.name then some "InterRupt"
  else if name = Variable.resetLine.name then some "NonE"
  else none

/-- The values that it gives. -/
def spelledChoice : (v : Variable) → Option v.Value
  | .registerAddress => some 0x41000000
  | .sourceAddress => some 268435456
  | .destinationAddress => none
  | .timeout => none
  | .sync => some .interrupt
  | .resetLine => some none

/-- An environment with an address of 33 bits. -/
def oversized (name : String) : Option String :=
  if name = Variable.destinationAddress.name then some "0x1_0000_0000" else none

/-- Four spelled values and an address that there is no room for. -/
theorem ofEnvironment_of_written_spelled :
    ofEnvironment spelled =
        .ok { Settings.default with
          registerAddress := 0x41000000
          sourceAddress := 0x10000000
          sync := .interrupt
          resetLine := none } ∧
      ∃ fault, ofEnvironment oversized = .error (.configuration fault) := by
  have hsets (v : Variable) : Sets spelled v (spelledChoice v) := by
    cases v with
    | registerAddress =>
      exact ⟨_, rfl, ['\t'], "0X_4100__0000".toList, [' '], rfl,
        List.forall_mem_singleton.2 (by decide), List.forall_mem_singleton.2 (by decide),
        .hexadecimal (.inr rfl) ⟨0, rfl⟩⟩
    | sourceAddress =>
      exact ⟨_, rfl, [' '], "000268435456".toList, ['\n'], rfl,
        List.forall_mem_singleton.2 (by decide), List.forall_mem_singleton.2 (by decide),
        .decimal ⟨3, rfl⟩⟩
    | destinationAddress => rfl
    | timeout => rfl
    | sync => exact ⟨_, rfl, [], "InterRupt".toList, [], rfl, nofun, nofun, rfl⟩
    | resetLine => exact ⟨_, rfl, [], "NonE".toList, [], rfl, nofun, nofun, rfl⟩
  have hexceeds : Padded Variable.destinationAddress.Exceeds "0x1_0000_0000" :=
    ⟨[], "0x1_0000_0000".toList, [], rfl, nofun, nofun, 0x100000000, by decide,
      .hexadecimal (.inl rfl) ⟨0, rfl⟩⟩
  exact ⟨(ofEnvironment_of_written spelled).1 spelledChoice hsets,
    (ofEnvironment_of_written oversized).2 .destinationAddress _ rfl hexceeds⟩

end Settings

end DmaLink
