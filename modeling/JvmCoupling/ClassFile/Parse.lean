import JvmCoupling.ClassFile.Instruction

/-! # Class files

A class file holds a constant pool, the class's own names, its fields and its methods; the code of a
method stands in an attribute of it.  Bytes after the last method are not looked at.

* `codeOf` — the instructions inside a code attribute;
* `readMethod` — one method with the calls in its code;
* `parse` — a whole class file.
-/

namespace JvmCoupling.ClassFile

/-- The first four bytes of every class file. -/
def magic : UInt32 := 0xCAFEBABE

/-- The access flag of interfaces. -/
def interfaceFlag : UInt16 := 0x0200

/-- A fault outside the code of a method. -/
def outsideCode {α : Type} (result : Except Fault α) : Except ParseError α :=
  result.mapError fun fault => { fault }

/-- The failure of a cursor, if there is one. -/
def checked (c : Cursor) : Except ParseError Unit :=
  match c.fault? with
  | some fault => .error { fault }
  | none => .ok ()

/-- The instructions inside the body of a code attribute. -/
def codeOf (body : Bytes) : Except Fault Bytes :=
  let (size, c) := (Cursor.skip ⟨body, 0, none⟩ 4).u4
  let (code, c) := c.take size.toNat
  match c.fault? with
  | some fault => .error fault
  | none => .ok code

/-- The calls in the body of a code attribute of a method. -/
def callsIn (pool : ConstantPool) (signature body : Bytes) : Except ParseError (List CallSite) := do
  let code ← outsideCode (codeOf body)
  (callSites pool code.toArray).mapError fun fault => { fault, method := some signature }

/-- Reads `n` attributes of a method and collects the calls in its code. -/
def readAttributes (pool : ConstantPool) (signature : Bytes) :
    Nat → Array CallSite → Cursor → Except ParseError (Array CallSite × Cursor)
  | 0, calls, c => .ok (calls, c)
  | n + 1, calls, c =>
    if c.failedAt.isSome then .ok (calls, c)
    else do
      let (nameIndex, c) := c.u2
      let name ← outsideCode (pool.text nameIndex)
      let (size, c) := c.u4
      let (body, c) := c.take size.toNat
      if c.failedAt.isSome ∨ name ≠ utf8 "Code" then readAttributes pool signature n calls c
      else
        let found ← callsIn pool signature body
        readAttributes pool signature n (calls ++ found) c

/-- A method: flags, name, descriptor and attributes. -/
def readMethod (pool : ConstantPool) (c : Cursor) : Except ParseError (Method × Cursor) := do
  let (nameIndex, c) := (c.skip 2).u2
  let (descriptorIndex, c) := c.u2
  checked c
  let name ← outsideCode (pool.text nameIndex)
  let descriptor ← outsideCode (pool.text descriptorIndex)
  let (count, c) := c.u2
  let (calls, c) ← readAttributes pool (name ++ descriptor) count.toNat #[] c
  checked c
  return (⟨name, descriptor, calls.toList⟩, c)

/-- Reads `n` interface indices. -/
def readInterfaces (pool : ConstantPool) :
    Nat → Array Bytes → Cursor → Except ParseError (Array Bytes × Cursor)
  | 0, names, c => .ok (names, c)
  | n + 1, names, c =>
    if c.failedAt.isSome then .ok (names, c)
    else do
      let (index, c) := c.u2
      let name ← outsideCode (pool.className index)
      readInterfaces pool n (names.push (dotted name)) c

/-- Passes over `n` fields. -/
def skipFields : Nat → Cursor → Cursor
  | 0, c => c
  | n + 1, c => if c.failedAt.isSome then c else skipFields n (c.skip 6).skipAttributes

/-- Reads `n` methods. -/
def readMethods (pool : ConstantPool) :
    Nat → Array Method → Cursor → Except ParseError (Array Method × Cursor)
  | 0, methods, c => .ok (methods, c)
  | n + 1, methods, c =>
    if c.failedAt.isSome then .ok (methods, c)
    else do
      let (method, c) ← readMethod pool c
      readMethods pool n (methods.push method) c

/-- The dotted name of the superclass; none for index 0. -/
def superclassName (pool : ConstantPool) (index : UInt16) : Except ParseError Bytes :=
  if index = 0 then .ok [] else outsideCode ((pool.className index).map dotted)

/-- The magic number at the start of a file. -/
def readMagic (c : Cursor) : Except ParseError Cursor :=
  let (word, c) := c.u4
  if word = magic then .ok c else .error { fault := c.fault?.getD (.badMagic word) }

/-- The class that a class file describes. -/
def parse (data : Bytes) : Except ParseError ClassInfo := do
  let c ← readMagic ⟨data, 0, none⟩
  let (pool, c) ← outsideCode (ConstantPool.read (c.skip 4))
  let (access, c) := c.u2
  let (thisIndex, c) := c.u2
  let (superIndex, c) := c.u2
  checked c
  let name ← outsideCode (pool.className thisIndex)
  let superclass ← superclassName pool superIndex
  let (interfaceCount, c) := c.u2
  let (interfaces, c) ← readInterfaces pool interfaceCount.toNat #[] c
  let (fieldCount, c) := c.u2
  let c := skipFields fieldCount.toNat c
  let (methodCount, c) := c.u2
  let (methods, c) ← readMethods pool methodCount.toNat #[] c
  checked c
  return {
    name := dotted name
    superclass
    interfaces := interfaces.toList
    isInterface := access &&& interfaceFlag ≠ 0
    methods := methods.toList }

end JvmCoupling.ClassFile
