import JvmCoupling.Text.Number
import JvmCoupling.Text.Printable
import JvmCoupling.Text.Utf8

/-! # Quoted text

Error messages show what the user typed between quotes, with everything that is not printable escaped, so
that a message stays on one line and shows which bytes it was given.

* `quoted` — a text between double quotes;
* `quotedChar` — one character between single quotes.
-/

namespace JvmCoupling.Text

/-- The letter that stands for a control character after a backslash. -/
def controlLetter? (n : Nat) : Option UInt8 :=
  match n with
  | 0x07 => some 0x61
  | 0x08 => some 0x62
  | 0x0C => some 0x66
  | 0x0A => some 0x6E
  | 0x0D => some 0x72
  | 0x09 => some 0x74
  | 0x0B => some 0x76
  | _ => none

/-- A character inside quotes: the quote mark and the backslash are escaped, printable characters stand
for themselves, and the others are written by letter or by code. -/
def escapedChar (mark : Char) (c : Char) : Bytes :=
  if c = mark || c = '\\' then utf8 "\\" ++ String.utf8EncodeChar c
  else if isPrintable c then String.utf8EncodeChar c
  else
    match controlLetter? c.toNat with
    | some letter => utf8 "\\" ++ [letter]
    | none =>
      if c.toNat < 0x20 || c.toNat = 0x7F then utf8 "\\x" ++ hexLower 2 c.toNat
      else if c.toNat < 0x10000 then utf8 "\\u" ++ hexLower 4 c.toNat
      else utf8 "\\U" ++ hexLower 8 c.toNat

/-- A text between double quotes; stray bytes are written in hexadecimal. -/
def quoted (s : Bytes) : Bytes :=
  utf8 "\"" ++ (pieces s).flatMap (fun
    | .char c => escapedChar '"' c
    | .stray b => utf8 "\\x" ++ hexLower 2 b.toNat) ++ utf8 "\""

/-- One character between single quotes. -/
def quotedChar (c : Char) : Bytes := utf8 "'" ++ escapedChar '\'' c ++ utf8 "'"

end JvmCoupling.Text
