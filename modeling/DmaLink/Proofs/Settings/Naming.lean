import Mathlib
import DmaLink.Proofs.Settings.Reading

namespace DmaLink

/-- A text that is no mode is reported in lower case, without its blanks. -/
theorem SyncMode.parse_eq_error {text : String} {cause : LinkError}
    (herror : SyncMode.parse text = .error cause) :
    cause = .configuration
      (.unknownSyncMode (String.ofList ((Text.trim text.toList).map Char.toLower))) := by
  simp only [SyncMode.parse] at herror
  split at herror
  · cases herror
  · exact (Except.error.inj herror).symm

namespace Settings

open Text

/-- A text in which a name occurs. -/
def Mentions (text name : String) : Prop := ∃ before after, text = before ++ name ++ after

/-- The message about a value that cannot be read mentions the variable. -/
theorem mentions_unreadable (name value : String) (why : NumeralError) :
    Mentions (ConfigurationFault.unreadable name value why).message name := by
  have hmessage : (ConfigurationFault.unreadable name value why).message =
      name ++ "=" ++ value ++ ": " ++ why.message := rfl
  refine ⟨"", "=" ++ value ++ ": " ++ why.message, ?_⟩
  simp only [hmessage, String.empty_append, String.append_assoc]

theorem mem_of_mentions {text name : String} {c : Char} (hmentions : Mentions text name)
    (hname : c ∈ name.toList) : c ∈ text.toList := by
  obtain ⟨before, after, rfl⟩ := hmentions
  simp only [String.toList_append, List.mem_append]
  exact .inl (.inr hname)

/-- The text of an unknown mode is reported in lower case, and so is all around it. -/
theorem not_mentions_unknownSyncMode (text : List Char) :
    ¬Mentions (ConfigurationFault.unknownSyncMode (String.ofList (text.map Char.toLower))).message
      Variable.sync.name := by
  intro hmentions
  have hmessage :
      (ConfigurationFault.unknownSyncMode (String.ofList (text.map Char.toLower))).message =
        "unknown sync mode '" ++ String.ofList (text.map Char.toLower) ++
          "' (expected poll or interrupt)" := rfl
  have hmem := mem_of_mentions hmentions (show 'Z' ∈ Variable.sync.name.toList by decide)
  simp only [hmessage, String.toList_append, String.toList_ofList, List.mem_append,
    List.mem_map] at hmem
  obtain (hbefore | ⟨c, -, hlower⟩) | hafter := hmem
  · exact absurd hbefore (by decide)
  · have hcase := c.isUpper_toLower_eq_false
    rw [hlower] at hcase
    exact absurd hcase (by decide)
  · exact absurd hafter (by decide)

/-- An unreadable number is reported with the name of its variable. -/
theorem exists_of_orUnreadable_eq_error {α : Type} {v : Variable} {shown : String}
    {result : Except NumeralError α} {cause : LinkError}
    (herror : orUnreadable v shown result = .error cause) :
    ∃ why, cause = .configuration (.unreadable v.name shown why) := by
  cases result with
  | error why => exact ⟨why, (Except.error.inj herror).symm⟩
  | ok value => cases herror

/-- What is reported of a text that cannot be read. -/
theorem read_eq_error {v : Variable} {text : String} {cause : LinkError}
    (herror : v.read text = .error cause) :
    (v ≠ .sync ∧ ∃ shown why, cause = .configuration (.unreadable v.name shown why)) ∨
      v = .sync ∧ cause = .configuration
        (.unknownSyncMode (String.ofList ((trim text.toList).map Char.toLower))) := by
  cases v with
  | registerAddress => exact .inl ⟨nofun, _, exists_of_orUnreadable_eq_error herror⟩
  | sourceAddress => exact .inl ⟨nofun, _, exists_of_orUnreadable_eq_error herror⟩
  | destinationAddress => exact .inl ⟨nofun, _, exists_of_orUnreadable_eq_error herror⟩
  | timeout =>
    exact .inl ⟨nofun, _, exists_of_orUnreadable_eq_error (eq_error_of_map_eq_error herror)⟩
  | sync => exact .inr ⟨rfl, SyncMode.parse_eq_error herror⟩
  | resetLine =>
    exact .inl ⟨nofun, _, exists_of_orUnreadable_eq_error (eq_error_of_map_eq_error herror)⟩

/-- Settings that cannot be read from the environment are reported with the first variable whose
    text cannot be read. The report holds its name unless it is the mode: then it holds nothing but
    the text. -/
theorem named_of_ofEnvironment_error {lookup : String → Option String} {cause : LinkError}
    (hfails : ofEnvironment lookup = .error cause) :
    ∃ v text fault, StopsAt lookup Variable.all v text ∧ cause = .configuration fault ∧
      (Mentions fault.message v.name ↔ v ≠ .sync) ∧
      (v = .sync →
        fault = .unknownSyncMode (String.ofList ((trim text.toList).map Char.toLower))) := by
  obtain ⟨⟨result, hok⟩, -⟩ | ⟨v, text, why, hstops, hread, herror⟩ :=
    overrideAll_spec lookup Variable.all .default
  · cases hok.symm.trans hfails
  · obtain rfl : why = cause := Except.error.inj (herror.symm.trans hfails)
    obtain ⟨hother, shown, numeral, rfl⟩ | ⟨rfl, rfl⟩ := read_eq_error hread
    · refine ⟨v, text, _, hstops, rfl, ?_, (absurd · hother)⟩
      exact iff_of_true (mentions_unreadable v.name shown numeral) hother
    · refine ⟨.sync, text, _, hstops, rfl, ?_, fun _ => rfl⟩
      exact iff_of_false (not_mentions_unknownSyncMode _) (absurd rfl)

/-- An environment that sets the mode alone, to a text that is none. -/
def unknownMode (name : String) : Option String :=
  if name = Variable.sync.name then some "Spin " else none

/-- The report of the text is exact, and the name of the variable does not occur in it. -/
theorem named_of_ofEnvironment_error_unknownMode :
    ofEnvironment unknownMode = .error (.configuration (.unknownSyncMode "spin")) ∧
      ¬Mentions (ConfigurationFault.unknownSyncMode "spin").message "ZS_DMA_SYNC" := by
  have hfails : ofEnvironment unknownMode = .error (.configuration (.unknownSyncMode "spin")) := rfl
  obtain ⟨v, text, fault, hstops, hcause, hmentions, -⟩ := named_of_ofEnvironment_error hfails
  obtain rfl : .unknownSyncMode "spin" = fault := LinkError.configuration.inj hcause
  have hfound := hstops.found
  -- No other variable is set.
  cases v with
  | sync => exact ⟨hfails, fun hmention => hmentions.1 hmention rfl⟩
  | registerAddress => cases hfound
  | sourceAddress => cases hfound
  | destinationAddress => cases hfound
  | timeout => cases hfound
  | resetLine => cases hfound

end Settings

end DmaLink
