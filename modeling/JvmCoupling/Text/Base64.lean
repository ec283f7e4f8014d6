import JvmCoupling.Bytes

/-! # Base 64

Bytes as printable text: three bytes become four characters, and the last group is filled up with equals
signs.

* `base64` — bytes in base 64;
* `decodeBase64?` — the bytes of a text in base 64.
-/

namespace JvmCoupling.Text

/-- The character for six bits. -/
def base64Char (n : Nat) : UInt8 :=
  if n < 26 then 0x41 + n.toUInt8
  else if n < 52 then 0x61 + (n - 26).toUInt8
  else if n < 62 then 0x30 + (n - 52).toUInt8
  else if n = 62 then 0x2B
  else 0x2F

/-- The characters of a group of three bytes, given as one number. -/
def base64Group (n : Nat) : Bytes :=
  [base64Char (n >>> 18), base64Char (n >>> 12 % 64), base64Char (n >>> 6 % 64), base64Char (n % 64)]

/-- Bytes in base 64. -/
def base64 : Bytes → Bytes
  | a :: b :: c :: rest => base64Group (a.toNat <<< 16 + b.toNat <<< 8 + c.toNat) ++ base64 rest
  | [a, b] => (base64Group (a.toNat <<< 16 + b.toNat <<< 8)).take 3 ++ [Bytes.equals]
  | [a] => (base64Group (a.toNat <<< 16)).take 2 ++ [Bytes.equals, Bytes.equals]
  | [] => []

/-- A text cut into lines of a length, each ended by a line feed. -/
def cutLines (length : Nat) : Nat → Bytes → Bytes
  | 0, _ => []
  | fuel + 1, text =>
    if text = [] then []
    else text.take length ++ Bytes.lineFeed :: cutLines length fuel (text.drop length)

/-- The six bits of a character. -/
def base64Value? (b : UInt8) : Option Nat :=
  if 0x41 ≤ b && b ≤ 0x5A then some (b.toNat - 0x41)
  else if 0x61 ≤ b && b ≤ 0x7A then some (b.toNat - 0x61 + 26)
  else if Bytes.isDigit b then some (b.toNat - 0x30 + 52)
  else if b = 0x2B then some 62
  else if b = 0x2F then some 63
  else none

/-- The first bytes of a number of three bytes. -/
def groupBytes (count n : Nat) : Bytes :=
  [(n >>> 16).toUInt8, (n >>> 8 % 256).toUInt8, (n % 256).toUInt8].take count

/-- The bytes of groups of four characters, of which only the last may be filled up. -/
def decodeGroups? : Bytes → Option Bytes
  | [] => some []
  | a :: b :: c :: d :: rest => do
    let high := (← base64Value? a) <<< 18 + (← base64Value? b) <<< 12
    if c = Bytes.equals && d = Bytes.equals && rest = [] then some (groupBytes 1 high)
    else
      let high := high + (← base64Value? c) <<< 6
      if d = Bytes.equals && rest = [] then some (groupBytes 2 high)
      else return groupBytes 3 (high + (← base64Value? d)) ++ (← decodeGroups? rest)
  | _ => none

/-- The bytes of a text in base 64; line breaks in it do not count. -/
def decodeBase64? (text : Bytes) : Option Bytes :=
  decodeGroups? (text.filter fun b => b ≠ Bytes.lineFeed && b ≠ Bytes.carriageReturn)

end JvmCoupling.Text
