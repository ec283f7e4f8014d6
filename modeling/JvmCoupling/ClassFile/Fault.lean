import JvmCoupling.Text.Number

/-! # What can be wrong with a class file

* `Fault` — the causes, each with the place it was found at;
* `ParseError` — a fault, and the method in whose code it was found;
* `ParseError.message` — the wording.
-/

namespace JvmCoupling.ClassFile

/-- A defect of a class file. -/
inductive Fault where
  /-- A read that starts at `offset` needs more bytes than there are. -/
  | truncated (offset : Nat)
  /-- The file starts with another word than the magic number. -/
  | badMagic (word : UInt32)
  /-- The constant for a pool slot has a tag that is not known. -/
  | unknownTag (tag : UInt8) (slot : Nat)
  /-- An index is zero or lies past the constant pool. -/
  | noConstant (index : UInt16)
  /-- An index refers to a constant of another kind than the one required. -/
  | wrongConstant (index : UInt16) (tag : UInt8)
  /-- The code ends inside the fixed part of a switch. -/
  | truncatedSwitch (pc : Nat)
  /-- A lookup switch announces a negative number of pairs. -/
  | negativePairs (pc : Nat)
  /-- A table switch whose highest key is below its lowest key. -/
  | emptyRange (pc : Nat)
  /-- The code ends after the widening opcode. -/
  | truncatedWide (pc : Nat)
  /-- A byte that is no opcode. -/
  | unknownOpcode (op : UInt8) (pc : Nat)
  /-- An instruction ends past the code. -/
  | overrun (pc : Nat)
  /-- A table was read outside its bounds.  The length checks in front of every such read rule this out. -/
  | outOfBounds (index : Nat)
deriving DecidableEq, Repr, Inhabited

/-- The description of a fault. -/
def Fault.message : Fault → Bytes
  | .truncated offset => utf8 "truncated at offset " ++ Text.decimal offset
  | .badMagic word => utf8 "bad magic 0x" ++ Text.hexUpper 8 word.toNat
  | .unknownTag tag slot =>
    utf8 "unknown constant pool tag " ++ Text.decimal tag.toNat ++ utf8 " at index " ++ Text.decimal slot
  | .noConstant index => utf8 "constant pool index " ++ Text.decimal index.toNat ++ utf8 " out of range"
  | .wrongConstant index tag =>
    utf8 "constant pool index " ++ Text.decimal index.toNat ++ utf8 " has tag " ++ Text.decimal tag.toNat
  | .truncatedSwitch pc => utf8 "truncated switch at pc " ++ Text.decimal pc
  | .negativePairs pc => utf8 "negative lookupswitch size at pc " ++ Text.decimal pc
  | .emptyRange pc => utf8 "tableswitch high < low at pc " ++ Text.decimal pc
  | .truncatedWide pc => utf8 "truncated wide at pc " ++ Text.decimal pc
  | .unknownOpcode op pc =>
    utf8 "unknown opcode 0x" ++ Text.hexLower 2 op.toNat ++ utf8 " at pc " ++ Text.decimal pc
  | .overrun pc => utf8 "instruction at pc " ++ Text.decimal pc ++ utf8 " overruns code"
  | .outOfBounds index => utf8 "index " ++ Text.decimal index ++ utf8 " out of bounds"

/-- A fault, with the signature of the method whose code it was found in. -/
structure ParseError where
  fault : Fault
  method : Option Bytes := none
deriving DecidableEq, Repr, Inhabited

/-- The full text of an error.  It names the source the bytes came from, unless that is empty; an error in
a method's code names the method instead. -/
def ParseError.message (e : ParseError) (source : Bytes) : Bytes :=
  match e.method with
  | some signature => utf8 "method " ++ signature ++ utf8 ": invalid class file: " ++ e.fault.message
  | none =>
    if source = [] then utf8 "invalid class file: " ++ e.fault.message
    else utf8 "invalid class file " ++ source ++ utf8 ": " ++ e.fault.message

end JvmCoupling.ClassFile
