import JvmCoupling.Bytes

/-! # Reading integers

Integers of 64 bits in text: in a given base, or in the base that a leading zero announces.

* `parseNat` — without a sign;
* `parseInt` — with an optional sign.
-/

namespace JvmCoupling.Number

/-- Why a text is no integer. -/
inductive IntegerError where
  | malformed
  | outOfRange
deriving DecidableEq, Repr, Inhabited

/-- The value of a digit or letter. -/
def digitValue? (b : UInt8) : Option Nat :=
  if Bytes.isDigit b then some (b.toNat - 0x30)
  else if 0x61 ≤ b && b ≤ 0x7A then some (b.toNat - 0x57)
  else if 0x41 ≤ b && b ≤ 0x5A then some (b.toNat - 0x37)
  else none

/-- Reads digits after a number; whichever comes first, a byte that is no digit of the base or a value that
does not fit, decides the error. -/
def readDigits (base : Nat) (n : Nat) : Bytes → Except IntegerError Nat
  | [] => .ok n
  | b :: rest =>
    match digitValue? b with
    | none => .error .malformed
    | some d =>
      if base ≤ d then .error .malformed
      else if 1 <<< 64 ≤ n * base + d then .error .outOfRange
      else readDigits base (n * base + d) rest

/-- The number that digits of a base stand for. -/
def parseNat (base : Nat) (text : Bytes) : Except IntegerError Nat :=
  if text = [] then .error .malformed else readDigits base 0 text

/-- The base that the first bytes announce, and the rest. -/
def splitBase : Bytes → Nat × Bytes
  | 0x30 :: letter :: b :: rest =>
    if letter = 0x62 || letter = 0x42 then (2, b :: rest)
    else if letter = 0x6F || letter = 0x4F then (8, b :: rest)
    else if letter = 0x78 || letter = 0x58 then (16, b :: rest)
    else (8, letter :: b :: rest)
  | 0x30 :: rest => (8, rest)
  | text => (10, text)

/-- Underscores stand one by one between digits; `afterDigit` tells whether one may come next. -/
def underscoresFit (afterDigit : Bool) : Bytes → Bool
  | [] => true
  | [b] => b ≠ Bytes.underscore
  | b :: rest =>
    if b = Bytes.underscore then afterDigit && underscoresFit false rest else underscoresFit true rest

/-- The number that a text in the base of its own stands for.  Underscores may divide its digits, also from
the mark of the base. -/
def parseAnyNat (text : Bytes) : Except IntegerError Nat :=
  if text = [] then .error .malformed
  else
    let (base, digits) := splitBase text
    match readDigits base 0 (digits.filter (· ≠ Bytes.underscore)) with
    | .error e => .error e
    | .ok n =>
      if underscoresFit (base ≠ 10) digits then .ok n else .error .malformed

/-- Puts a sign in front of a number; negative numbers reach one further. -/
def signed (negative : Bool) (n : Nat) : Except IntegerError Int :=
  if negative then (if 1 <<< 63 < n then .error .outOfRange else .ok (-n))
  else if 1 <<< 63 ≤ n then .error .outOfRange
  else .ok n

/-- Splits off a sign. -/
def splitSign : Bytes → Bool × Bytes
  | 0x2D :: rest => (true, rest)
  | 0x2B :: rest => (false, rest)
  | text => (false, text)

/-- The integer in a given base. -/
def parseInt (base : Nat) (text : Bytes) : Except IntegerError Int := do
  let (negative, digits) := splitSign text
  signed negative (← parseNat base digits)

/-- The integer in the base of its own. -/
def parseAnyInt (text : Bytes) : Except IntegerError Int := do
  let (negative, digits) := splitSign text
  signed negative (← parseAnyNat digits)

end JvmCoupling.Number
