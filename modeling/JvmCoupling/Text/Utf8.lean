import JvmCoupling.Bytes

/-! # Characters in a byte string

A byte string need not be valid UTF-8.  Reading it from the left gives *pieces*: a character where the
bytes are a shortest-form encoding of a Unicode scalar value, and otherwise a single stray byte.

* `decodeChar?` — the character at the front and the number of its bytes;
* `pieces` — the whole string cut into pieces, which concatenate to it again.
-/

namespace JvmCoupling.Text

/-- A character, or a byte that is no part of a well-formed encoding. -/
inductive Piece where
  | char (c : Char)
  | stray (b : UInt8)
deriving DecidableEq, Repr

/-- The bytes a piece was read from. -/
def Piece.bytes : Piece → Bytes
  | .char c => String.utf8EncodeChar c
  | .stray b => [b]

def isTail (b : UInt8) : Bool := 0x80 ≤ b && b ≤ 0xBF

/-- The character at the front of a byte string and the length of its encoding.  The second byte is
restricted after some first bytes, which rules out overlong forms, surrogates and values past U+10FFFF. -/
def decodeChar? : Bytes → Option (Char × Nat)
  | [] => none
  | a :: rest =>
    if a < 0x80 then some (.ofNat a.toNat, 1)
    else if 0xC2 ≤ a && a ≤ 0xDF then
      match rest with
      | b :: _ =>
        if isTail b then some (.ofNat ((a.toNat - 0xC0) * 0x40 + (b.toNat - 0x80)), 2) else none
      | _ => none
    else if 0xE0 ≤ a && a ≤ 0xEF then
      match rest with
      | b :: c :: _ =>
        let low : UInt8 := if a = 0xE0 then 0xA0 else 0x80
        let high : UInt8 := if a = 0xED then 0x9F else 0xBF
        if low ≤ b && b ≤ high && isTail c then
          some (.ofNat (((a.toNat - 0xE0) * 0x40 + (b.toNat - 0x80)) * 0x40 + (c.toNat - 0x80)), 3)
        else none
      | _ => none
    else if 0xF0 ≤ a && a ≤ 0xF4 then
      match rest with
      | b :: c :: d :: _ =>
        let low : UInt8 := if a = 0xF0 then 0x90 else 0x80
        let high : UInt8 := if a = 0xF4 then 0x8F else 0xBF
        if low ≤ b && b ≤ high && isTail c && isTail d then
          some (.ofNat ((((a.toNat - 0xF0) * 0x40 + (b.toNat - 0x80)) * 0x40 + (c.toNat - 0x80)) * 0x40
            + (d.toNat - 0x80)), 4)
        else none
      | _ => none
    else none

/-- The pieces of a byte string, where the first `skip` bytes belong to a character already read. -/
def piecesFrom : Nat → Bytes → List Piece
  | _, [] => []
  | skip + 1, _ :: rest => piecesFrom skip rest
  | 0, b :: rest =>
    match decodeChar? (b :: rest) with
    | some (c, n) => .char c :: piecesFrom (n - 1) rest
    | none => .stray b :: piecesFrom 0 rest

/-- The pieces of a byte string. -/
def pieces (s : Bytes) : List Piece := piecesFrom 0 s

/-- The characters of a well-formed byte string. -/
def chars? (s : Bytes) : Option (List Char) :=
  (pieces s).mapM fun
    | .char c => some c
    | .stray _ => none

/-- The bytes of a list of characters. -/
def ofChars (cs : List Char) : Bytes := cs.flatMap String.utf8EncodeChar

end JvmCoupling.Text
