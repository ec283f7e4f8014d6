/-! # Byte strings

Class names, paths, log lines and report files are byte strings: a class file stores its names as raw
bytes and nothing downstream decodes them.  This module fixes the type and the few operations that the
rest of the library shares.

* `Bytes` — a list of bytes, compared and ordered bytewise;
* `utf8` — the bytes of a text of this library;
* `Bytes.fieldsBy`, `Bytes.splitAtFirst?` — cutting at separator bytes;
* `firstSeen` — a list without repetitions.
-/

namespace JvmCoupling

/-- A byte string. -/
abbrev Bytes := List UInt8

/-- The UTF-8 bytes of a text. -/
def utf8 (s : String) : Bytes := s.toList.flatMap String.utf8EncodeChar

namespace Bytes

/-! ## Bytes with a meaning in paths and names -/

def slash : UInt8 := 0x2F
def dot : UInt8 := 0x2E
def space : UInt8 := 0x20
def lineFeed : UInt8 := 0x0A
def carriageReturn : UInt8 := 0x0D
def comma : UInt8 := 0x2C
def quote : UInt8 := 0x22
def colon : UInt8 := 0x3A
def semicolon : UInt8 := 0x3B
def dash : UInt8 := 0x2D
def equals : UInt8 := 0x3D
def underscore : UInt8 := 0x5F

/-- An ASCII decimal digit. -/
def isDigit (b : UInt8) : Bool := 0x30 ≤ b && b ≤ 0x39

/-! ## Cutting -/

/-- The pieces between separator bytes, empty ones included: one more piece than separators. -/
def piecesBy (isSep : UInt8 → Bool) : Bytes → List Bytes
  | [] => [[]]
  | b :: rest =>
    if isSep b then [] :: piecesBy isSep rest
    else
      match piecesBy isSep rest with
      | [] => [[b]]
      | piece :: pieces => (b :: piece) :: pieces

/-- The non-empty pieces between separator bytes. -/
def fieldsBy (isSep : UInt8 → Bool) (s : Bytes) : List Bytes :=
  (piecesBy isSep s).filter (· ≠ [])

/-- The part after the last occurrence of a byte; the whole string if it does not occur. -/
def afterLast (b : UInt8) (s : Bytes) : Bytes :=
  (s.reverse.takeWhile (· ≠ b)).reverse

/-- The part before the first occurrence of a byte and the part after it, if it occurs. -/
def splitAtFirst? (b : UInt8) (s : Bytes) : Option (Bytes × Bytes) :=
  match s.span (· ≠ b) with
  | (_, []) => none
  | (before, _ :: after) => some (before, after)

end Bytes

/-- The first occurrences of the elements of a list, in order. -/
def firstSeen {α : Type} [BEq α] (xs : List α) : List α :=
  xs.foldl (fun seen x => if seen.contains x then seen else seen ++ [x]) []

end JvmCoupling
