import JvmCoupling.Text.Number

/-! # Log records

The operations of this library do not print: they return what there is to log as records, and a level
decides which of them become lines.

* `Log.Record` — a message with key/value fields;
* `Log.Record.line` — its line of text;
* `Log.text` — the lines that a level lets through;
* `Log.Hub` — loggers that share levels and carry fields of their own.
-/

namespace JvmCoupling.Log

/-! ## Levels -/

/-- How important a record is. -/
inductive Severity where
  | debug
  | info
  | warn
  | error
deriving DecidableEq, Repr, Inhabited

/-- The level of a severity: levels are numbers, and a logger shows what reaches its own. -/
def Severity.level : Severity → Int
  | debug => 0
  | info => 1
  | warn => 2
  | error => 3

/-- The level at which nothing is shown. -/
def silent : Int := 4

/-- The name of a level. -/
def levelName (level : Int) : String :=
  if level = 0 then "DEBUG"
  else if level = 1 then "INFO"
  else if level = 2 then "WARN"
  else if level = 3 then "ERROR"
  else if level = 4 then "SILENT"
  else "UNKNOWN"

/-- A record of this severity passes a logger of the given level. -/
def shows (level : Int) (severity : Severity) : Bool := level ≤ severity.level && level ≠ silent

/-! ## Records -/

/-- The value of a field. -/
inductive Value where
  | text (s : Bytes)
  | int (n : Int)
  | bool (b : Bool)
  | absent
  | list (items : List Value)
deriving Repr, Inhabited

mutual

/-- A value as text; a list stands in brackets, its items divided by spaces. -/
def Value.render : Value → Bytes
  | .text s => s
  | .int n => Text.decimalInt n
  | .bool b => utf8 (if b then "true" else "false")
  | .absent => utf8 "<nil>"
  | .list items => utf8 "[" ++ renderItems items ++ utf8 "]"

/-- The items of a list, divided by spaces. -/
def renderItems : List Value → Bytes
  | [] => []
  | [item] => item.render
  | item :: items => item.render ++ utf8 " " ++ renderItems items

end

/-- A key with its value. -/
structure Field where
  key : Bytes
  value : Value
deriving Repr, Inhabited

/-- A message and its fields. -/
structure Record where
  severity : Severity
  message : Bytes
  fields : List Field := []
deriving Repr, Inhabited

/-- A field with a text value. -/
def textField (key : String) (s : Bytes) : Field := ⟨utf8 key, .text s⟩

/-- A field with a number. -/
def countField (key : String) (n : Nat) : Field := ⟨utf8 key, .int n⟩

/-- The record with further fields in front of its own. -/
def Record.under (outer : List Field) (r : Record) : Record := { r with fields := outer ++ r.fields }

/-- The line of a record: the level in brackets, the message, and after a bar the fields. -/
def Record.line (r : Record) : Bytes :=
  utf8 "[" ++ utf8 (levelName r.severity.level) ++ utf8 "] " ++ r.message
    ++ (if r.fields.isEmpty then []
      else utf8 " |" ++ r.fields.flatMap fun f => utf8 " " ++ f.key ++ utf8 "=" ++ f.value.render)
    ++ utf8 "\n"

/-- What a logger of the given level writes; without a level nothing is logged. -/
def text (level? : Option Int) (records : List Record) : Bytes :=
  match level? with
  | none => []
  | some level => (records.filter fun r => shows level r.severity).flatMap Record.line

/-! ## Loggers -/

/-- A logger: the number of the level it shares with its relatives, and the fields it adds. -/
structure Logger where
  channel : Nat
  fields : List Field
deriving Repr, Inhabited

/-- Loggers by number and the levels they share.  A channel without a level writes nowhere. -/
structure Hub where
  levels : List (Option Int)
  loggers : List Logger
deriving Repr, Inhabited

namespace Hub

/-- One logger of the given level. -/
def new (level : Int) : Hub := ⟨[some level], [⟨0, []⟩]⟩

/-- What one can do with a hub. -/
inductive Step where
  /-- Log a record on a logger. -/
  | write (on : Nat) (record : Record)
  /-- Append a logger that adds fields to those of another and shares its level. -/
  | derive (on : Nat) (fields : List Field)
  /-- Change the level that a logger shares with its relatives. -/
  | setLevel (on : Nat) (level : Int)
  /-- Append a logger that writes nowhere. -/
  | silent
deriving Repr, Inhabited

/-- The level of a channel; none if it writes nowhere. -/
def level? (hub : Hub) (channel : Nat) : Option Int := (hub.levels[channel]?).join

/-- Carries out a step; the result is what it writes. -/
def run (hub : Hub) (step : Step) : Hub × Bytes :=
  match step with
  | .write on record =>
    match hub.loggers[on]? with
    | some logger => (hub, text (hub.level? logger.channel) [record.under logger.fields])
    | none => (hub, [])
  | .derive on fields =>
    match hub.loggers[on]? with
    | some logger => ({ hub with loggers := hub.loggers ++ [⟨logger.channel, logger.fields ++ fields⟩] }, [])
    | none => (hub, [])
  | .setLevel on level =>
    match hub.loggers[on]? with
    | some logger =>
      ({ hub with levels := hub.levels.modify logger.channel fun old? => old?.map fun _ => level }, [])
    | none => (hub, [])
  | .silent => (⟨hub.levels ++ [none], hub.loggers ++ [⟨hub.levels.length, []⟩]⟩, [])

end Hub

end JvmCoupling.Log
