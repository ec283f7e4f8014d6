import JvmCoupling.Text.Utf8

/-! # Blank characters

Settings, class path fields and format names are trimmed of Unicode white space.

* `isBlank` — the white space characters;
* `trim` — without blanks at either end;
* `words` — the maximal runs of non-blank characters.
-/

namespace JvmCoupling.Text

/-- White space: the ASCII blanks, NEL, the no-break space and the space separators of Unicode.  Zero
width characters are not blank. -/
def isBlank (c : Char) : Bool :=
  let n := c.toNat
  (0x09 ≤ n && n ≤ 0x0D) || n = 0x20 || n = 0x85 || n = 0xA0 || n = 0x1680
    || (0x2000 ≤ n && n ≤ 0x200A) || n = 0x2028 || n = 0x2029 || n = 0x202F || n = 0x205F || n = 0x3000

/-- A blank character; stray bytes are never blank. -/
def Piece.isBlank : Piece → Bool
  | .char c => Text.isBlank c
  | .stray _ => false

/-- The string without blanks at its two ends. -/
def trim (s : Bytes) : Bytes :=
  let body := (pieces s).dropWhile Piece.isBlank
  ((body.reverse.dropWhile Piece.isBlank).reverse).flatMap Piece.bytes

/-- Collects the words of a list of pieces; `word` is the one being read. -/
def wordsFrom (word : Bytes) : List Piece → List Bytes
  | [] => if word = [] then [] else [word]
  | p :: rest =>
    if p.isBlank then
      if word = [] then wordsFrom [] rest else word :: wordsFrom [] rest
    else wordsFrom (word ++ p.bytes) rest

/-- The words of a text: its maximal runs without blanks. -/
def words (s : Bytes) : List Bytes := wordsFrom [] (pieces s)

end JvmCoupling.Text
