import JvmCoupling.Bytes

/-! # Numbers in text

* `decimal`, `decimalInt` — the usual decimal form;
* `hexLower`, `hexUpper` — hexadecimal with leading zeros, in either letter case.
-/

namespace JvmCoupling.Text

/-- The decimal digits of a number, without leading zeros. -/
def decimal (n : Nat) : Bytes :=
  if n < 10 then [0x30 + n.toUInt8] else decimal (n / 10) ++ [0x30 + (n % 10).toUInt8]
termination_by n

/-- A decimal number with a minus sign if it is negative. -/
def decimalInt : Int → Bytes
  | .ofNat n => decimal n
  | .negSucc n => Bytes.dash :: decimal (n + 1)

/-- One hexadecimal digit; `letters` is the code of the digit ten. -/
def hexDigit (letters : UInt8) (n : Nat) : UInt8 :=
  if n < 10 then 0x30 + n.toUInt8 else letters + (n - 10).toUInt8

/-- The last `width` hexadecimal digits of a number. -/
def hexDigits (letters : UInt8) : Nat → Nat → Bytes
  | 0, _ => []
  | width + 1, n => hexDigits letters width (n / 16) ++ [hexDigit letters (n % 16)]

/-- Lower-case hexadecimal, `width` digits. -/
def hexLower (width n : Nat) : Bytes := hexDigits 0x61 width n

/-- Upper-case hexadecimal, `width` digits. -/
def hexUpper (width n : Nat) : Bytes := hexDigits 0x41 width n

end JvmCoupling.Text
