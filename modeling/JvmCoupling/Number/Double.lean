import JvmCoupling.Text.Number

/-! # Numbers of double precision

Settings may be given as decimal fractions, which are kept with the precision of 53 bits.

* `Double.ofDecimal` — the double nearest to a decimal number;
* `Double.parse?` — a decimal number in text;
* `Double.shortest` — the fewest digits that read back;
* `Double.render` — those digits in positional notation.
-/

namespace JvmCoupling.Number

/-- A number of double precision: mantissa times a power of two, an infinity, or no number. -/
inductive Double where
  | finite (negative : Bool) (mantissa : Nat) (exponent : Int)
  | infinite (negative : Bool)
  | notANumber
deriving DecidableEq, Repr, Inhabited

/-- The least exponent. -/
def minExponent : Int := -1074

/-- The greatest exponent. -/
def maxExponent : Int := 971

/-- The quotient rounded to the nearest integer, ties to the even one. -/
def roundedQuotient (num den : Nat) : Nat :=
  let q := num / den
  let r := num % den
  if 2 * r < den then q
  else if den < 2 * r then q + 1
  else q + q % 2

/-- The quotient of two numbers scaled by a power of two, as numerator and denominator. -/
def scaled (num den : Nat) (exponent : Int) : Nat × Nat :=
  if 0 ≤ exponent then (num, den <<< exponent.toNat) else (num <<< (-exponent).toNat, den)

namespace Double

/-- The double nearest to a positive fraction. -/
def ofFraction (negative : Bool) (num den : Nat) : Double :=
  let estimate : Int := (num.log2 : Int) - den.log2 - 52
  -- the estimate is at most one too high
  let (n, d) := scaled num den estimate
  let exponent := max minExponent (if n < d <<< 52 then estimate - 1 else estimate)
  let (n, d) := scaled num den exponent
  let mantissa := roundedQuotient n d
  let (mantissa, exponent) := if mantissa = 1 <<< 53 then (1 <<< 52, exponent + 1) else (mantissa, exponent)
  if maxExponent < exponent then .infinite negative else .finite negative mantissa exponent

/-- The double nearest to `digits * 10 ^ exponent`. -/
def ofDecimal (negative : Bool) (digits : Nat) (exponent : Int) : Double :=
  let places : Int := (Text.decimal digits).length + exponent
  if digits = 0 ∨ places < -330 then .finite negative 0 minExponent
  else if 310 < places then .infinite negative
  else if 0 ≤ exponent then ofFraction negative (digits * Nat.pow 10 exponent.toNat) 1
  else ofFraction negative digits (Nat.pow 10 (-exponent).toNat)

/-- The number of a list of decimal digits. -/
def digitsValue (digits : Bytes) : Nat := digits.foldl (fun n b => 10 * n + (b.toNat - 0x30)) 0

/-- The exponent after a mantissa: a letter e, a sign and digits, or nothing at all. -/
def exponent? : Bytes → Option Int
  | [] => some 0
  | e :: rest =>
    if e = 0x65 || e = 0x45 then
      let (negative, digits) : Bool × Bytes :=
        match rest with
        | 0x2D :: digits => (true, digits)
        | 0x2B :: digits => (false, digits)
        | digits => (false, digits)
      if digits = [] || !digits.all Bytes.isDigit then none
      else if negative then some (-(digitsValue digits : Int)) else some (digitsValue digits)
    else none

/-- A decimal number: digits with a point among them or at either end, and an exponent. -/
def parseUnsigned? (negative : Bool) (text : Bytes) : Option Double :=
  let (whole, rest) := text.span Bytes.isDigit
  let (fraction, rest) : Bytes × Bytes :=
    match rest with
    | 0x2E :: rest => rest.span Bytes.isDigit
    | rest => ([], rest)
  if whole ++ fraction = [] then none
  else
    (exponent? rest).map fun exponent =>
      ofDecimal negative (digitsValue (whole ++ fraction)) (exponent - fraction.length)

/-- The double that a decimal number stands for; none if the text is no number or is out of range. -/
def parse? (text : Bytes) : Option Double :=
  let result :=
    match text with
    | 0x2D :: rest => parseUnsigned? true rest
    | 0x2B :: rest => parseUnsigned? false rest
    | rest => parseUnsigned? false rest
  match result with
  | some (.infinite _) => none
  | other => other

/-! ## Fewest digits -/

/-- A double and the reals that round to it, over a common denominator; the ends belong to it if its
mantissa is even. -/
structure Neighbourhood where
  low : Nat
  value : Nat
  high : Nat
  den : Nat
  closed : Bool
deriving DecidableEq, Repr, Inhabited

/-- The neighbourhood of a positive finite double.  Below a power of two the grid is twice as fine. -/
def neighbourhood (mantissa : Nat) (exponent : Int) : Neighbourhood :=
  let below := if mantissa = 1 <<< 52 ∧ minExponent < exponent then 4 * mantissa - 1 else 4 * mantissa - 2
  -- quarters of the last place
  let (factor, den) := scaled 1 1 (2 - exponent)
  ⟨below * factor, 4 * mantissa * factor, (4 * mantissa + 2) * factor, den, mantissa % 2 = 0⟩

/-- A decimal number lies in a neighbourhood. -/
def Neighbourhood.contains (h : Neighbourhood) (digits : Nat) (exponent : Int) : Bool :=
  let (n, d) : Nat × Nat :=
    if 0 ≤ exponent then (digits * Nat.pow 10 exponent.toNat, 1) else (digits, Nat.pow 10 (-exponent).toNat)
  let x := n * h.den
  if h.closed then h.low * d ≤ x && x ≤ h.high * d else h.low * d < x && x < h.high * d

/-- The position after the last digit in front of the decimal point: the least k with value below 10^k. -/
def magnitude (num den : Nat) : Nat → Int → Int
  | 0, k => k
  | fuel + 1, k =>
    let below : Bool := if 0 ≤ k then num < den * Nat.pow 10 k.toNat else num * Nat.pow 10 (-k).toNat < den
    if below then magnitude num den fuel (k - 1) else k + 1

/-- The two neighbours of the value among the multiples of a power of ten, and the nearer one of those that
lie in the neighbourhood. -/
def Neighbourhood.onGrid (h : Neighbourhood) (exponent : Int) : Option Nat :=
  let (n, d) : Nat × Nat :=
    if 0 ≤ exponent then (h.value, h.den * Nat.pow 10 exponent.toNat)
    else (h.value * Nat.pow 10 (-exponent).toNat, h.den)
  let down := n / d
  let nearest := roundedQuotient n d
  if h.contains nearest exponent then some nearest
  else if h.contains down exponent then some down
  else if h.contains (down + 1) exponent then some (down + 1)
  else none

/-- Tries ever finer grids; seventeen digits always suffice. -/
def Neighbourhood.shortestFrom (h : Neighbourhood) : Nat → Int → Nat × Int
  | 0, exponent => (0, exponent)
  | fuel + 1, exponent =>
    match h.onGrid exponent with
    | some digits => (digits, exponent)
    | none => h.shortestFrom fuel (exponent - 1)

/-- The fewest digits that read back as the double, with their exponent. -/
def shortest (mantissa : Nat) (exponent : Int) : Nat × Int :=
  let h := neighbourhood mantissa exponent
  h.shortestFrom 20 (magnitude h.value h.den 700 310 - 1)

/-- A decimal number in positional notation without superfluous zeros behind the point. -/
def positional (digits : Nat) (exponent : Int) : Bytes :=
  if 0 ≤ exponent then Text.decimal (digits * Nat.pow 10 exponent.toNat)
  else
    let places := (-exponent).toNat
    let text := Text.decimal digits
    let text : Bytes := List.replicate (places + 1 - text.length) 0x30 ++ text
    let whole := text.take (text.length - places)
    let fraction := ((text.drop (text.length - places)).reverse.dropWhile (· = 0x30)).reverse
    if fraction = [] then whole else whole ++ Bytes.dot :: fraction

/-- The text of a double. -/
def render : Double → Bytes
  | notANumber => utf8 "NaN"
  | infinite negative => utf8 (if negative then "-Inf" else "+Inf")
  | finite negative mantissa exponent =>
    let (digits, exponent) := if mantissa = 0 then (0, 0) else shortest mantissa exponent
    (if negative then [Bytes.dash] else []) ++ positional digits exponent

/-- A double that is not zero. -/
def isNonzero : Double → Bool
  | finite _ mantissa _ => mantissa ≠ 0
  | _ => true

/-- The integer part as an integer of 64 bits; what does not fit becomes the least one. -/
def toInt64 : Double → Int
  | finite negative mantissa exponent =>
    let n : Nat := if 0 ≤ exponent then mantissa <<< exponent.toNat else mantissa >>> (-exponent).toNat
    let n : Int := if negative then -n else n
    if Int64.minValue.toInt ≤ n ∧ n ≤ Int64.maxValue.toInt then n else Int64.minValue.toInt
  | _ => Int64.minValue.toInt

end Double

end JvmCoupling.Number
