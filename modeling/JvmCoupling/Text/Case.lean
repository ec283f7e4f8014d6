import JvmCoupling.Text.Utf8

/-! # Letter case

Keywords, file extensions and setting keys are compared without regard to case.  All of them are ASCII,
so only characters whose lower-case form is ASCII matter.

* `lower` — lower case, for comparison with an ASCII word;
* `asciiLower` — lower case of the letters A to Z alone;
* `asciiUpper` — upper case of the letters a to z alone.
-/

namespace JvmCoupling.Text

/-- The lower-case letter of a character, where that is an ASCII letter: besides A to Z these are the
capital I with a dot and the Kelvin sign. -/
def lowerChar (c : Char) : Char :=
  if c.toNat = 0x130 then 'i' else if c.toNat = 0x212A then 'k' else c.toLower

/-- Lower case, as far as the result is ASCII. -/
def lower (s : Bytes) : Bytes :=
  (pieces s).flatMap fun
    | .char c => String.utf8EncodeChar (lowerChar c)
    | .stray b => [b]

/-- Lower case of ASCII letters, byte by byte. -/
def asciiLower (s : Bytes) : Bytes :=
  s.map fun b => if 0x41 ≤ b && b ≤ 0x5A then b + 0x20 else b

/-- Upper case of ASCII letters, byte by byte. -/
def asciiUpper (s : Bytes) : Bytes :=
  s.map fun b => if 0x61 ≤ b && b ≤ 0x7A then b - 0x20 else b

end JvmCoupling.Text
