import JvmCoupling.ClassFile.Fault

/-! # Reading big-endian binary data

A cursor walks over a byte string.  The first read that asks for more bytes than are left fails, and that
failure sticks: later reads neither move the cursor nor replace the failure, and they yield zero or
nothing.  Callers may therefore read several fields in a row and look at the failure once.

* `Cursor.take` — the next `n` bytes;
* `Cursor.u1`, `Cursor.u2`, `Cursor.u4` — unsigned big-endian numbers;
* `Cursor.skipAttributes` — past a counted table of attributes.
-/

namespace JvmCoupling.ClassFile

/-- A position in a byte string.  `rest` are the unread bytes, `pos` counts the read ones, and `failedAt`
is the position of the first read that went past the end. -/
structure Cursor where
  rest : Bytes
  pos : Nat := 0
  failedAt : Option Nat := none
deriving DecidableEq, Repr, Inhabited

/-- The number with the given big-endian bytes. -/
def bigEndian (bytes : Bytes) : Nat := bytes.foldl (fun n b => n * 256 + b.toNat) 0

namespace Cursor

/-- The failure of the first read past the end. -/
def fault? (c : Cursor) : Option Fault := c.failedAt.map .truncated

/-- The next `n` bytes.  A negative `n` fails like one that is too large. -/
def take (c : Cursor) (n : Int) : Bytes × Cursor :=
  if c.failedAt.isSome then ([], c)
  else
    let taken := c.rest.take n.toNat
    if 0 ≤ n ∧ taken.length = n.toNat then
      (taken, { c with rest := c.rest.drop n.toNat, pos := c.pos + n.toNat })
    else ([], { c with failedAt := some c.pos })

/-- The next byte. -/
def u1 (c : Cursor) : UInt8 × Cursor :=
  let (bytes, c) := c.take 1
  (.ofNat (bigEndian bytes), c)

/-- The next two bytes as a number. -/
def u2 (c : Cursor) : UInt16 × Cursor :=
  let (bytes, c) := c.take 2
  (.ofNat (bigEndian bytes), c)

/-- The next four bytes as a number. -/
def u4 (c : Cursor) : UInt32 × Cursor :=
  let (bytes, c) := c.take 4
  (.ofNat (bigEndian bytes), c)

/-- Past `n` bytes. -/
def skip (c : Cursor) (n : Int) : Cursor := (c.take n).2

/-- Past one attribute: a name index, a length and as many bytes. -/
def skipAttribute (c : Cursor) : Cursor :=
  let (size, c) := (c.skip 2).u4
  c.skip size.toNat

/-- Past `n` attributes, or up to the first failure. -/
def skipEachAttribute : Nat → Cursor → Cursor
  | 0, c => c
  | n + 1, c => if c.failedAt.isSome then c else skipEachAttribute n c.skipAttribute

/-- Past a counted table of attributes. -/
def skipAttributes (c : Cursor) : Cursor :=
  let (count, c) := c.u2
  skipEachAttribute count.toNat c

end Cursor

end JvmCoupling.ClassFile
