import JvmCoupling.ClassFile.Cursor
import JvmCoupling.Model

/-! # The constant pool

Everything a class file refers to by name stands in its constant pool, a table of tagged constants that
refer to each other by index.  Slot 0 is unused, and an eight-byte constant takes two slots.

* `Constant` — one slot;
* `ConstantPool.read` — the pool at a cursor;
* `ConstantPool.text`, `className`, `nameAndType` — names behind an index;
* `ConstantPool.methodSite`, `dynamicSite` — the call sites behind an index.
-/

namespace JvmCoupling.ClassFile

/-- A slot of the constant pool.  Numeric constants are kept without their value. -/
inductive Constant where
  /-- Slot 0, or the second slot of an eight-byte constant. -/
  | vacant
  | utf8 (text : Bytes)
  | integer
  | float
  | long
  | double
  | classRef (name : UInt16)
  | string (text : UInt16)
  | fieldRef (owner nameAndType : UInt16)
  | methodRef (owner nameAndType : UInt16)
  | interfaceMethodRef (owner nameAndType : UInt16)
  | nameAndType (name descriptor : UInt16)
  | methodHandle (reference : UInt16)
  | methodType (descriptor : UInt16)
  | dynamic (bootstrap nameAndType : UInt16)
  | invokeDynamic (bootstrap nameAndType : UInt16)
  | moduleRef (name : UInt16)
  | packageRef (name : UInt16)
deriving DecidableEq, Repr, Inhabited

namespace Constant

/-- The tag that announces a constant; 0 for a vacant slot. -/
def tag : Constant → UInt8
  | vacant => 0
  | utf8 _ => 1
  | integer => 3
  | float => 4
  | long => 5
  | double => 6
  | classRef _ => 7
  | string _ => 8
  | fieldRef _ _ => 9
  | methodRef _ _ => 10
  | interfaceMethodRef _ _ => 11
  | nameAndType _ _ => 12
  | methodHandle _ => 15
  | methodType _ => 16
  | dynamic _ _ => 17
  | invokeDynamic _ _ => 18
  | moduleRef _ => 19
  | packageRef _ => 20

/-- The indices a constant refers to, zero where it has none. -/
def indices : Constant → UInt16 × UInt16
  | classRef a | string a | methodHandle a | methodType a | moduleRef a | packageRef a => (a, 0)
  | fieldRef a b | methodRef a b | interfaceMethodRef a b | nameAndType a b | dynamic a b
  | invokeDynamic a b => (a, b)
  | vacant | utf8 _ | integer | float | long | double => (0, 0)

/-- The text of a text constant, nothing for the others. -/
def content : Constant → Bytes
  | utf8 text => text
  | _ => []

/-- An eight-byte constant, which takes two slots. -/
def isWide : Constant → Bool
  | long | double => true
  | _ => false

/-- The index that follows. -/
def readIndex (make : UInt16 → Constant) (c : Cursor) : Constant × Cursor :=
  let (a, c) := c.u2
  (make a, c)

/-- The pair of indices that follows. -/
def readIndices (make : UInt16 → UInt16 → Constant) (c : Cursor) : Constant × Cursor :=
  let (a, c) := c.u2
  let (b, c) := c.u2
  (make a b, c)

/-- The text that follows: its length and its bytes. -/
def readText (c : Cursor) : Constant × Cursor :=
  let (size, c) := c.u2
  let (text, c) := c.take size.toNat
  (utf8 text, c)

/-- The payload of a constant with the given tag; nothing if the tag is not known. -/
def read? (tag : UInt8) (c : Cursor) : Option (Constant × Cursor) :=
  match tag with
  | 1 => some (readText c)
  | 3 => some (integer, c.skip 4)
  | 4 => some (float, c.skip 4)
  | 5 => some (long, c.skip 8)
  | 6 => some (double, c.skip 8)
  | 7 => some (readIndex classRef c)
  | 8 => some (readIndex string c)
  | 9 => some (readIndices fieldRef c)
  | 10 => some (readIndices methodRef c)
  | 11 => some (readIndices interfaceMethodRef c)
  | 12 => some (readIndices nameAndType c)
  | 15 => some (readIndex methodHandle (c.skip 1))
  | 16 => some (readIndex methodType c)
  | 17 => some (readIndices dynamic c)
  | 18 => some (readIndices invokeDynamic c)
  | 19 => some (readIndex moduleRef c)
  | 20 => some (readIndex packageRef c)
  | _ => none

end Constant

/-- The slots of a constant pool, from slot 0 on. -/
abbrev ConstantPool := Array Constant

namespace ConstantPool

/-- Reads constants until `count` slots are filled.  After an eight-byte constant the failure of the
cursor is not looked at, so that one which ends the pool may be cut short. -/
def readSlots (count : Nat) (slots : ConstantPool) (c : Cursor) : Except Fault (ConstantPool × Cursor) :=
  if slots.size < count then
    let (tag, c) := c.u1
    match Constant.read? tag c with
    | none => .error (c.fault?.getD (.unknownTag tag slots.size))
    | some (constant, c) =>
      if constant.isWide then
        if slots.size + 1 < count then readSlots count ((slots.push constant).push .vacant) c
        else .ok (slots.push constant, c)
      else
        match c.fault? with
        | some fault => .error fault
        | none => readSlots count (slots.push constant) c
  else .ok (slots, c)
termination_by count - slots.size
decreasing_by all_goals simp only [Array.size_push]; omega

/-- The constant pool at a cursor: the number of slots, then the constants. -/
def read (c : Cursor) : Except Fault (ConstantPool × Cursor) :=
  let (count, c) := c.u2
  match c.fault? with
  | some fault => .error fault
  | none => readSlots count.toNat (if count = 0 then #[] else #[.vacant]) c

/-! ## Names behind an index -/

/-- The constant at an index.  Index 0 never refers to a constant. -/
def constant (pool : ConstantPool) (index : UInt16) : Except Fault Constant :=
  if index = 0 ∨ pool.size ≤ index.toNat then .error (.noConstant index)
  else
    match pool[index.toNat]? with
    | some constant => .ok constant
    | none => .error (.outOfBounds index.toNat)

/-- The text at an index. -/
def text (pool : ConstantPool) (index : UInt16) : Except Fault Bytes := do
  match ← pool.constant index with
  | .utf8 text => .ok text
  | other => .error (.wrongConstant index other.tag)

/-- The slash separated name of the class at an index. -/
def className (pool : ConstantPool) (index : UInt16) : Except Fault Bytes := do
  match ← pool.constant index with
  | .classRef name => pool.text name
  | other => .error (.wrongConstant index other.tag)

/-- Name and descriptor, put together, of the member at an index. -/
def nameAndType (pool : ConstantPool) (index : UInt16) : Except Fault Bytes := do
  match ← pool.constant index with
  | .nameAndType name descriptor =>
    let name ← pool.text name
    let descriptor ← pool.text descriptor
    .ok (name ++ descriptor)
  | other => .error (.wrongConstant index other.tag)

/-! ## Call sites behind an index -/

/-- The call of a method of a class.  An array has no class to couple to, so its owner stays unknown. -/
def memberSite (pool : ConstantPool) (owner member : UInt16) : Except Fault CallSite := do
  let owner ← pool.className owner
  let method ← pool.nameAndType member
  if (JvmCoupling.utf8 "[").isPrefixOf owner then .ok ⟨[], method⟩ else .ok ⟨dotted owner, method⟩

/-- The call that a method reference at an index stands for. -/
def methodSite (pool : ConstantPool) (index : UInt16) : Except Fault CallSite := do
  match ← pool.constant index with
  | .methodRef owner member | .interfaceMethodRef owner member => pool.memberSite owner member
  | other => .error (.wrongConstant index other.tag)

/-- The call that a dynamic call site at an index stands for: its owner is not known. -/
def dynamicSite (pool : ConstantPool) (index : UInt16) : Except Fault CallSite := do
  match ← pool.constant index with
  | .invokeDynamic _ member => return ⟨[], ← pool.nameAndType member⟩
  | other => .error (.wrongConstant index other.tag)

end ConstantPool

end JvmCoupling.ClassFile
