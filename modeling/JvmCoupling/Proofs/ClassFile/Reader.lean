import JvmCoupling.ClassFile.Parse

/-! # Reading by position

A cursor drops the bytes it has read.  A `Reader` keeps all bytes and a position among them, a signed 64-bit
word, and cuts slices out of the bytes; the constant pool is allocated once and filled slot by slot.  Here a
slice, a byte and a slot have bounds, and an access outside of them is a fault; so is a walk over a method
body that does not move on.

* `slice`, `ConstantPool.store` — accesses with bounds;
* `payload?` — what follows the tag of a constant;
* `Reader` — reading by position, up to `Reader.parse`.
-/

namespace JvmCoupling.ClassFile

/-! ## Accesses with bounds -/

/-- The bytes from position `low` up to position `high`. -/
def slice (data : Bytes) (low high : Int64) : Except Fault Bytes :=
  if 0 ≤ low.toInt ∧ low.toInt ≤ high.toInt ∧ high.toInt ≤ data.length then
    .ok ((data.drop low.toInt.toNat).take (high.toInt - low.toInt).toNat)
  else .error (.outOfBounds high.toInt.toNat)

def Code.wordAt (code : Code) (i : Nat) : Except Fault UInt32 := do
  let a ← code.byteAt i
  let b ← code.byteAt (i + 1)
  let c ← code.byteAt (i + 2)
  let d ← code.byteAt (i + 3)
  return .ofNat (bigEndian [a, b, c, d])

def ConstantPool.store (pool : ConstantPool) (slot : Nat) (constant : Constant) : Except Fault ConstantPool :=
  if slot < pool.size then .ok (pool.setIfInBounds slot constant) else .error (.outOfBounds slot)

/-! ## The payload of a constant -/

/-- What follows the tag of a constant. -/
inductive Payload where
  | text
  | number (width : UInt8) (constant : Constant)
  | index (make : UInt16 → Constant)
  /-- An index behind a byte that is not kept. -/
  | kindAndIndex (make : UInt16 → Constant)
  | indices (make : UInt16 → UInt16 → Constant)

/-- The tags with the payloads that they announce. -/
def payloads : List (UInt8 × Payload) := [
  (1, .text),
  (3, .number 4 .integer), (4, .number 4 .float), (5, .number 8 .long), (6, .number 8 .double),
  (7, .index .classRef), (8, .index .string),
  (9, .indices .fieldRef), (10, .indices .methodRef), (11, .indices .interfaceMethodRef),
  (12, .indices .nameAndType),
  (15, .kindAndIndex .methodHandle), (16, .index .methodType),
  (17, .indices .dynamic), (18, .indices .invokeDynamic),
  (19, .index .moduleRef), (20, .index .packageRef)]

def payload? (tag : UInt8) : Option Payload := payloads.lookup tag

def Payload.read (c : Cursor) : Payload → Constant × Cursor
  | text => Constant.readText c
  | number width constant => (constant, c.skip width.toNat)
  | index make => Constant.readIndex make c
  | kindAndIndex make => Constant.readIndex make (c.skip 1)
  | indices make => Constant.readIndices make c

theorem read?_eq_payload (tag : UInt8) (c : Cursor) :
    Constant.read? tag c = (payload? tag).map (Payload.read c) := by
  unfold Constant.read?
  split
  case h_18 =>
    have absent : payload? tag = none := by
      rw [payload?, List.lookup_eq_none_iff]
      simp_all [payloads]
    rw [absent, Option.map_none]
  all_goals rfl

/-! ## Readers -/

/-- A position among bytes, and the first failure. -/
structure Reader where
  data : Bytes
  pos : Int64 := 0
  failure : Option Fault := none

namespace Reader

/-- The next `n` bytes, or nothing after a failure. -/
def take (r : Reader) (n : Int64) : Except ParseError (Option Bytes × Reader) :=
  if r.failure.isSome then .ok (none, r)
  -- the sum is one of words and could wrap
  else if n < 0 ∨ Int64.ofNat r.data.length < r.pos + n then
    .ok (none, { r with failure := some (.truncated r.pos.toInt.toNat) })
  else do
    let bytes ← outsideCode (slice r.data r.pos (r.pos + n))
    return (some bytes, { r with pos := r.pos + n })

/-- The next `n` bytes, none after a failure. -/
def bytes (r : Reader) (n : Nat) : Except ParseError (Bytes × Reader) := do
  let (bytes?, r) ← r.take (.ofNat n)
  return (bytes?.getD [], r)

def skip (r : Reader) (n : Nat) : Except ParseError Reader := do
  let (_, r) ← r.take (.ofNat n)
  return r

/-- The number in the next `n` bytes, zero after a failure. -/
def number {α : Type} (zero : α) (decode : Code → Except Fault α) (n : Nat) (r : Reader) :
    Except ParseError (α × Reader) := do
  let (bytes?, r) ← r.take (.ofNat n)
  match bytes? with
  | none => return (zero, r)
  | some bytes => return (← outsideCode (decode bytes.toArray), r)

def u1 (r : Reader) : Except ParseError (UInt8 × Reader) := r.number 0 (·.byteAt 0) 1

def u2 (r : Reader) : Except ParseError (UInt16 × Reader) := r.number 0 (·.indexAt 0) 2

def u4 (r : Reader) : Except ParseError (UInt32 × Reader) := r.number 0 (·.wordAt 0) 4

def checked (r : Reader) : Except ParseError Unit :=
  match r.failure with
  | some fault => .error { fault }
  | none => .ok ()

/-- `n` rounds of a step that gathers results, up to the first failure. -/
def rounds {β : Type} (step : Array β → Reader → Except ParseError (Array β × Reader)) :
    Nat → Array β → Reader → Except ParseError (Array β × Reader)
  | 0, found, r => .ok (found, r)
  | n + 1, found, r =>
    if r.failure.isSome then .ok (found, r)
    else do
      let (found, r) ← step found r
      rounds step n found r

/-- The step of a table in which every item has one result. -/
def gather {β : Type} (read : Reader → Except ParseError (β × Reader)) (found : Array β) (r : Reader) :
    Except ParseError (Array β × Reader) := do
  let (result, r) ← read r
  return (found.push result, r)

def skipping (skip : Reader → Except ParseError Reader) : Nat → Reader → Except ParseError Reader
  | 0, r => .ok r
  | n + 1, r => if r.failure.isSome then .ok r else do skipping skip n (← skip r)

def skipAttribute (r : Reader) : Except ParseError Reader := do
  let r ← r.skip 2
  let (size, r) ← r.u4
  r.skip size.toNat

def skipAttributes (r : Reader) : Except ParseError Reader := do
  let (count, r) ← r.u2
  skipping skipAttribute count.toNat r

def skipField (r : Reader) : Except ParseError Reader := do
  let r ← r.skip 6
  r.skipAttributes

def payload (r : Reader) : Payload → Except ParseError (Constant × Reader)
  | .text => do
    let (size, r) ← r.u2
    let (text, r) ← r.bytes size.toNat
    return (.utf8 text, r)
  | .number width constant => do
    let r ← r.skip width.toNat
    return (constant, r)
  | .index make => do
    let (a, r) ← r.u2
    return (make a, r)
  | .kindAndIndex make => do
    let r ← r.skip 1
    let (a, r) ← r.u2
    return (make a, r)
  | .indices make => do
    let (a, r) ← r.u2
    let (b, r) ← r.u2
    return (make a b, r)

/-- Reads constants into the slots from `slot` on.  The slot behind an eight-byte constant is left as it
is. -/
def readSlots (count slot : Nat) (pool : ConstantPool) (r : Reader) : Except ParseError (ConstantPool × Reader) :=
  if slot < count then do
    let (tag, r) ← r.u1
    match payload? tag with
    | none => .error { fault := r.failure.getD (.unknownTag tag slot) }
    | some payload =>
      let (constant, r) ← r.payload payload
      if constant.isWide then
        let pool ← outsideCode (pool.store slot constant)
        readSlots count (slot + 2) pool r
      else
        r.checked
        let pool ← outsideCode (pool.store slot constant)
        readSlots count (slot + 1) pool r
  else .ok (pool, r)
termination_by count - slot

def readPool (r : Reader) : Except ParseError (ConstantPool × Reader) := do
  let (count, r) ← r.u2
  r.checked
  readSlots count.toNat 1 (Array.replicate count.toNat .vacant) r

def codeOf (body : Bytes) : Except ParseError Bytes := do
  let r ← Reader.skip ⟨body, 0, none⟩ 4
  let (size, r) ← r.u4
  let (code, r) ← r.bytes size.toNat
  r.checked
  return code

/-- Walks over the instructions from `pc` on.  The only check of a length is that against the code; to stand
still because of a length that is not positive is a fault like an access out of bounds. -/
def callSitesFrom (pool : ConstantPool) (code : Code) (pc : Nat) (found : Array CallSite) :
    Except Fault (Array CallSite) :=
  if pc < code.size then
    match instructionLength code pc with
    | .error fault => .error fault
    | .ok n =>
      if code.size < pc + n then .error (.overrun pc)
      else if n = 0 then .error (.outOfBounds pc)
      else
        match callAt pool code pc with
        | .error fault => .error fault
        | .ok none => callSitesFrom pool code (pc + n) found
        | .ok (some site) => callSitesFrom pool code (pc + n) (found.push site)
  else .ok found
termination_by code.size - pc

def callsIn (pool : ConstantPool) (signature body : Bytes) : Except ParseError (List CallSite) := do
  let code ← codeOf body
  ((callSitesFrom pool code.toArray 0 #[]).map Array.toList).mapError fun fault => { fault, method := some signature }

def attributeStep (pool : ConstantPool) (signature : Bytes) (calls : Array CallSite) (r : Reader) :
    Except ParseError (Array CallSite × Reader) := do
  let (nameIndex, r) ← r.u2
  let name ← outsideCode (pool.text nameIndex)
  let (size, r) ← r.u4
  let (body, r) ← r.bytes size.toNat
  if r.failure.isSome ∨ name ≠ utf8 "Code" then return (calls, r)
  else
    let found ← callsIn pool signature body
    return (calls ++ found, r)

def readMethod (pool : ConstantPool) (r : Reader) : Except ParseError (Method × Reader) := do
  let r ← r.skip 2
  let (nameIndex, r) ← r.u2
  let (descriptorIndex, r) ← r.u2
  r.checked
  let name ← outsideCode (pool.text nameIndex)
  let descriptor ← outsideCode (pool.text descriptorIndex)
  let (count, r) ← r.u2
  let (calls, r) ← rounds (attributeStep pool (name ++ descriptor)) count.toNat #[] r
  r.checked
  return (⟨name, descriptor, calls.toList⟩, r)

def readInterface (pool : ConstantPool) (r : Reader) : Except ParseError (Bytes × Reader) := do
  let (index, r) ← r.u2
  let name ← outsideCode (pool.className index)
  return (dotted name, r)

def readMagic (r : Reader) : Except ParseError Reader := do
  let (word, r) ← r.u4
  if word = magic then return r else .error { fault := r.failure.getD (.badMagic word) }

def parse (data : Bytes) : Except ParseError ClassInfo := do
  let r ← readMagic ⟨data, 0, none⟩
  let r ← r.skip 4
  let (pool, r) ← r.readPool
  let (access, r) ← r.u2
  let (thisIndex, r) ← r.u2
  let (superIndex, r) ← r.u2
  r.checked
  let name ← outsideCode (pool.className thisIndex)
  let superclass ← superclassName pool superIndex
  let (interfaceCount, r) ← r.u2
  let (interfaces, r) ← rounds (gather (readInterface pool)) interfaceCount.toNat #[] r
  let (fieldCount, r) ← r.u2
  let r ← skipping skipField fieldCount.toNat r
  let (methodCount, r) ← r.u2
  let (methods, r) ← rounds (gather (readMethod pool)) methodCount.toNat #[] r
  r.checked
  return {
    name := dotted name
    superclass
    interfaces := interfaces.toList
    isInterface := access &&& interfaceFlag ≠ 0
    methods := methods.toList }

end Reader

end JvmCoupling.ClassFile
