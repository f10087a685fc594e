import DmaLink.Settings

namespace DmaLink.Settings

/-- The variables that override a default. -/
inductive Variable where
  | registerAddress
  | sourceAddress
  | destinationAddress
  | timeout
  | sync
  | resetLine
deriving DecidableEq, Repr

/-- The name of a variable in the environment. -/
def Variable.name : Variable → String
  | .registerAddress => "ZS_DMA_REGS_ADDR"
  | .sourceAddress => "ZS_DMA_SRC_ADDR"
  | .destinationAddress => "ZS_DMA_DST_ADDR"
  | .timeout => "ZS_DMA_TIMEOUT_US"
  | .sync => "ZS_DMA_SYNC"
  | .resetLine => "ZS_GPIO"

/-- The variables in the order they are read. -/
def Variable.all : List Variable :=
  [.registerAddress, .sourceAddress, .destinationAddress, .timeout, .sync, .resetLine]

/-- Reads an address: hexadecimal after `0x` or `0X`, where underscores may separate digits, and
    decimal otherwise. -/
def parseAddress (text : List Char) : Except Text.NumeralError UInt32 :=
  let value :=
    match text with
    | '0' :: 'x' :: digits => Text.numeral 16 UInt32.size (digits.filter (· != '_'))
    | '0' :: 'X' :: digits => Text.numeral 16 UInt32.size (digits.filter (· != '_'))
    | digits => Text.numeral 10 UInt32.size digits
  value.map UInt32.ofNat

/-- Reads a reset line: a decimal number, or `none` in any letter case. -/
def parseResetLine (text : List Char) : Except Text.NumeralError (Option Nat) :=
  if text.map Char.toLower = "none".toList then .ok none
  else (Text.numeral 10 UInt32.size text).map some

/-- Reports a value that cannot be read together with its variable. -/
def orUnreadable (overridden : Variable) (value : String) (result : Except Text.NumeralError α) :
    Except LinkError α :=
  result.mapError fun cause => .configuration (.unreadable overridden.name value cause)

/-- The settings after one variable has been given a value. Blanks around a value do not count;
    the wait limit is reported with its blanks and the other numbers without. -/
def override (settings : Settings) (overridden : Variable) (value : String) :
    Except LinkError Settings :=
  let text := Text.trim value.toList
  let shown := String.ofList text
  match overridden with
  | .registerAddress =>
    (orUnreadable overridden shown (parseAddress text)).map fun address =>
      { settings with registerAddress := address }
  | .sourceAddress =>
    (orUnreadable overridden shown (parseAddress text)).map fun address =>
      { settings with sourceAddress := address }
  | .destinationAddress =>
    (orUnreadable overridden shown (parseAddress text)).map fun address =>
      { settings with destinationAddress := address }
  | .timeout =>
    (orUnreadable overridden value (Text.numeral 10 UInt64.size text)).map fun count =>
      { settings with timeout := .ofMicroseconds count }
  | .sync => (SyncMode.parse value).map fun mode => { settings with sync := mode }
  | .resetLine =>
    (orUnreadable overridden shown (parseResetLine text)).map fun line =>
      { settings with resetLine := line }

/-- The settings after the listed variables have been read through `lookup`. -/
def overrideAll (lookup : String → Option String) :
    List Variable → Settings → Except LinkError Settings
  | [], settings => .ok settings
  | overridden :: rest, settings =>
    match lookup overridden.name with
    | none => overrideAll lookup rest settings
    | some value =>
      match settings.override overridden value with
      | .error cause => .error cause
      | .ok next => overrideAll lookup rest next

/-- The default settings with the overrides that `lookup` finds. -/
def ofEnvironment (lookup : String → Option String) : Except LinkError Settings :=
  overrideAll lookup Variable.all .default

end DmaLink.Settings
