import JvmCoupling.Number.Double
import JvmCoupling.Number.Integer
import JvmCoupling.Number.Timestamp

/-! # The meaning of plain scalars

A YAML scalar without quotes may stand for more than its text.

* `Scalar` — null, a truth value, a number, a point in time, or text;
* `Scalar.resolve` — what a plain scalar stands for.
-/

namespace JvmCoupling.Yaml

open JvmCoupling.Number

/-- The value of a scalar. -/
inductive Scalar where
  | null
  | bool (b : Bool)
  | int (n : Int)
  | float (x : Double)
  | time (t : Timestamp)
  | text (s : Bytes)
deriving DecidableEq, Repr, Inhabited

/-- The words that stand for a value. -/
def wordValues : List (String × Scalar) := [
  ("", .null), ("~", .null), ("null", .null), ("Null", .null), ("NULL", .null),
  ("true", .bool true), ("True", .bool true), ("TRUE", .bool true),
  ("false", .bool false), ("False", .bool false), ("FALSE", .bool false),
  (".nan", .float .notANumber), (".NaN", .float .notANumber), (".NAN", .float .notANumber),
  (".inf", .float (.infinite false)), (".Inf", .float (.infinite false)), (".INF", .float (.infinite false)),
  ("+.inf", .float (.infinite false)), ("+.Inf", .float (.infinite false)),
  ("+.INF", .float (.infinite false)),
  ("-.inf", .float (.infinite true)), ("-.Inf", .float (.infinite true)), ("-.INF", .float (.infinite true))]

/-- The value of a word. -/
def wordValue? (text : Bytes) : Option Scalar :=
  (wordValues.find? fun (word, _) => utf8 word = text).map (·.2)

/-- The value of a reading that succeeds. -/
def asInt? (r : Except IntegerError Int) : Option Scalar := r.toOption.map .int

/-- The value of an unsigned reading that succeeds. -/
def asNat? (r : Except IntegerError Nat) : Option Scalar := r.toOption.map fun n => .int n

/-- An integer in a base after its mark: signed, or unsigned if it is too large for that. -/
def based? (base : Nat) (digits : Bytes) : Option Scalar :=
  (asInt? (parseInt base digits)).orElse fun _ => asNat? (parseNat base digits)

/-- An integer after the mark of a base, which may stand behind a minus sign. -/
def marked? (mark : String) (base : Nat) (text : Bytes) : Option Scalar :=
  if (utf8 mark).isPrefixOf text then based? base (text.drop 2)
  else if (utf8 "-" ++ utf8 mark).isPrefixOf text then
    asInt? (parseInt base (Bytes.dash :: text.drop 3))
  else none

/-- The value of a text that starts with a digit or a sign: a point in time, or, underscores dropped, an
integer or a decimal number. -/
def numberValue? (text : Bytes) : Option Scalar :=
  let plain := text.filter (· ≠ Bytes.underscore)
  (Timestamp.parse? text).map .time
  <|> asInt? (parseAnyInt plain)
  <|> asNat? (parseAnyNat plain)
  <|> (Double.parse? plain).map .float
  <|> marked? "0b" 2 plain
  <|> marked? "0o" 8 plain

/-- Every underscore stands between two digits. -/
def underscoresBetweenDigits : Bytes → Bool
  | a :: b :: rest =>
    (if b = Bytes.underscore then
      Bytes.isDigit a && (rest.head?.map Bytes.isDigit).getD false
    else true) && underscoresBetweenDigits (b :: rest)
  | _ => true

/-- The value of a text that starts with a point: a decimal number. -/
def fractionValue? (text : Bytes) : Option Scalar :=
  if underscoresBetweenDigits text then
    (Double.parse? (text.filter (· ≠ Bytes.underscore))).map .float
  else none

/-- What a plain scalar stands for; the first byte tells what it can be. -/
def Scalar.resolve (text : Bytes) : Scalar :=
  let value? : Option Scalar :=
    match text with
    | [] => some .null
    | b :: _ =>
      (wordValue? text).orElse fun _ =>
        if Bytes.isDigit b || b = 0x2B || b = 0x2D then numberValue? text
        else if b = Bytes.dot then fractionValue? text
        else none
  value?.getD (.text text)

/-- Read as a word of older versions of the format, a truth value. -/
def isOldBool (text : Bytes) : Bool :=
  ["y", "Y", "yes", "Yes", "YES", "on", "On", "ON", "n", "N", "no", "No", "NO", "off", "Off", "OFF"].any
    fun word => utf8 word = text

/-- One part of a number in base sixty: one or two digits, the first of two below six. -/
def isSixtiesPart : Bytes → Bool
  | [a] => Bytes.isDigit a
  | [a, b] => 0x30 ≤ a && a ≤ 0x35 && Bytes.isDigit b
  | _ => false

/-- Digits and underscores. -/
def isDigits (text : Bytes) : Bool := text.all fun b => Bytes.isDigit b || b = Bytes.underscore

/-- Read as a number in base sixty by older versions of the format: parts divided by colons, the last of
which may have a fraction. -/
def isBase60 (text : Bytes) : Bool :=
  let unsigned :=
    match text with
    | 0x2B :: rest => rest
    | 0x2D :: rest => rest
    | rest => rest
  match Bytes.piecesBy (· = Bytes.colon) unsigned with
  | [] | [_] => false
  | first :: parts =>
    let last := parts.getLastD []
    let (last, fraction) := last.span (· ≠ Bytes.dot)
    (first.head?.map Bytes.isDigit).getD false && isDigits first
      && (parts.dropLast ++ [last]).all isSixtiesPart && isDigits (fraction.drop 1)

end JvmCoupling.Yaml
