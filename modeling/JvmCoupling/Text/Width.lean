import JvmCoupling.Text.Utf8

/-! # Display width

How many columns a text takes on a screen: two for wide characters, none for marks that join the character
in front of them and for control characters.
-/

namespace JvmCoupling.Text

/-- The ranges of characters that take two columns. -/
def wideRanges : List (Nat × Nat) := [
  (0x1100, 0x115F), (0x2E80, 0x303E), (0x3041, 0x33FF), (0x3400, 0x4DBF), (0x4E00, 0x9FFF), (0xA000, 0xA4CF),
  (0xA960, 0xA97C), (0xAC00, 0xD7A3), (0xF900, 0xFAFF), (0xFE30, 0xFE6F), (0xFF01, 0xFF60), (0xFFE0, 0xFFE6),
  (0x1F300, 0x1F64F), (0x1F680, 0x1F6FF), (0x1F900, 0x1F9FF), (0x20000, 0x3FFFD)]

/-- The ranges of characters that take no column. -/
def zeroRanges : List (Nat × Nat) := [
  (0x0, 0x1F), (0x7F, 0x9F), (0x300, 0x36F), (0x483, 0x489), (0x591, 0x5BD), (0x610, 0x61A), (0x64B, 0x65F),
  (0x1AB0, 0x1AFF), (0x1DC0, 0x1DFF), (0x200B, 0x200F), (0x2028, 0x202E), (0x2060, 0x2064), (0x20D0, 0x20FF),
  (0xFE00, 0xFE0F), (0xFE20, 0xFE2F), (0xFEFF, 0xFEFF)]

/-- A number lies in one of the ranges. -/
def inRanges (ranges : List (Nat × Nat)) (n : Nat) : Bool := ranges.any fun (low, high) => low ≤ n && n ≤ high

/-- The columns of a piece of text. -/
def Piece.width : Piece → Nat
  | .char c => if inRanges zeroRanges c.toNat then 0 else if inRanges wideRanges c.toNat then 2 else 1
  | .stray _ => 1

/-- The columns of a line. -/
def width (s : Bytes) : Nat := (pieces s).foldl (fun n p => n + p.width) 0

end JvmCoupling.Text
