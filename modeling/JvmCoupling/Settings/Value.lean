import JvmCoupling.Number.Integer
import JvmCoupling.Settings.Flag
import JvmCoupling.Text.Blank
import JvmCoupling.Yaml.Value

/-! # Values of settings

A setting may come from a flag, a variable or a file, and is read as a text, a number, a truth value or a
list of texts.  What does not suit is read as the empty value of its kind.
-/

namespace JvmCoupling.Settings

open JvmCoupling.Yaml

/-- The value of a text. -/
def textValue (s : Bytes) : Value := .scalar (.text s)

/-- The text of a scalar. -/
def scalarText : Scalar → Bytes
  | .null => []
  | .bool b => utf8 (if b then "true" else "false")
  | .int n => Text.decimalInt n
  | .float x => x.render
  | .time t => t.render
  | .text s => s

/-- The text of a value, if it is a scalar. -/
def textOf? : Value → Option Bytes
  | .scalar s => some (scalarText s)
  | _ => none

/-- The value as a text. -/
def asText (value? : Option Value) : Bytes := (value?.bind textOf?).getD []

/-- The part of a decimal number in front of its point; any other text as it stands. -/
def wholePart (text : Bytes) : Bytes :=
  let (sign, body) : Bytes × Bytes :=
    match text with
    | 0x2B :: rest => ([0x2B], rest)
    | 0x2D :: rest => ([0x2D], rest)
    | rest => ([], rest)
  let (whole, fraction) := body.span Bytes.isDigit
  let isDecimal : Bool :=
    match fraction with
    | [] => true
    | b :: digits => b = Bytes.dot && digits.all Bytes.isDigit
  if isDecimal then sign ++ (if whole = [] then utf8 "0" else whole) else text

/-- The value as a whole number of 64 bits. -/
def asInt : Option Value → Int
  | some (.scalar s) =>
    match s with
    | .int n => Int.bmod n (1 <<< 64)
    | .float x => x.toInt64
    | .bool b => if b then 1 else 0
    | .text s => (Number.parseAnyInt (wholePart s)).toOption.getD 0
    | .null | .time _ => 0
  | _ => 0

/-- The value as a truth value. -/
def asBool : Option Value → Bool
  | some (.scalar s) =>
    match s with
    | .bool b => b
    | .int n => n ≠ 0
    | .float x => x.isNonzero
    | .text s => (boolOf? s).getD false
    | .null | .time _ => false
  | _ => false

/-- The value as a list of texts: a text falls into words, and a list that holds anything but scalars is
empty. -/
def asTexts : Option Value → List Bytes
  | some (.scalar .null) | none => []
  | some (.scalar (.text s)) => Text.words s
  | some (.scalar s) => [scalarText s]
  | some (.list items) => (items.mapM textOf?).getD []
  | some (.map _) => []

/-- The value that a flag gives to a setting.  A list takes the way through its written form, on which a
single empty item is lost. -/
def flagValue : FlagValue → Value
  | .text s => textValue s
  | .int n => .scalar (.int n)
  | .bool b => .scalar (.bool b)
  | .list items => .list (((Csv.readRecord (Csv.record items)).toOption.getD []).map textValue)

end JvmCoupling.Settings
