import JvmCoupling.ClassFile.ConstantPool

/-! # Instructions

A method body is a sequence of instructions without separators, so finding the calls in it takes the
exact length of every instruction.  Most lengths follow from the opcode; a widened instruction depends on
the opcode it widens, and a switch on its padding and on the number of its cases.

* `operandBytes?` — the operand length of the opcodes that have a fixed one;
* `instructionLength` — the length of the instruction at a position;
* `callSites` — the calls in a method body, in code order.
-/

namespace JvmCoupling.ClassFile

/-! ## Opcodes -/

namespace Opcode

def iinc : UInt8 := 0x84
def tableswitch : UInt8 := 0xAA
def lookupswitch : UInt8 := 0xAB
def invokevirtual : UInt8 := 0xB6
def invokespecial : UInt8 := 0xB7
def invokestatic : UInt8 := 0xB8
def invokeinterface : UInt8 := 0xB9
def invokedynamic : UInt8 := 0xBA
def wide : UInt8 := 0xC4

end Opcode

/-- Ranges of opcodes, both ends included, with the number of operand bytes. -/
def fixedOperands : List (UInt8 × UInt8 × Nat) := [
  (0x00, 0x0F, 0),  -- nop .. dconst_1
  (0x10, 0x10, 1),  -- bipush
  (0x11, 0x11, 2),  -- sipush
  (0x12, 0x12, 1),  -- ldc
  (0x13, 0x14, 2),  -- ldc_w, ldc2_w
  (0x15, 0x19, 1),  -- iload .. aload
  (0x1A, 0x35, 0),  -- xload_n, xaload
  (0x36, 0x3A, 1),  -- istore .. astore
  (0x3B, 0x83, 0),  -- xstore_n, xastore, stack operations, arithmetic
  (0x84, 0x84, 2),  -- iinc
  (0x85, 0x98, 0),  -- conversions, comparisons
  (0x99, 0xA8, 2),  -- if*, goto, jsr
  (0xA9, 0xA9, 1),  -- ret
  (0xAC, 0xB1, 0),  -- returns
  (0xB2, 0xB8, 2),  -- fields, invokevirtual, invokespecial, invokestatic
  (0xB9, 0xBA, 4),  -- invokeinterface, invokedynamic
  (0xBB, 0xBB, 2),  -- new
  (0xBC, 0xBC, 1),  -- newarray
  (0xBD, 0xBD, 2),  -- anewarray
  (0xBE, 0xBF, 0),  -- arraylength, athrow
  (0xC0, 0xC1, 2),  -- checkcast, instanceof
  (0xC2, 0xC3, 0),  -- monitorenter, monitorexit
  (0xC5, 0xC5, 3),  -- multianewarray
  (0xC6, 0xC7, 2),  -- ifnull, ifnonnull
  (0xC8, 0xC9, 4),  -- goto_w, jsr_w
  (0xCA, 0xCA, 0),  -- breakpoint
  (0xFE, 0xFF, 0)]  -- impdep1, impdep2

/-- The number of operand bytes of an opcode of fixed length. -/
def operandBytes? (op : UInt8) : Option Nat :=
  (fixedOperands.find? fun (low, high, _) => low ≤ op && op ≤ high).map fun (_, _, n) => n

/-! ## Lengths -/

/-- The instruction bytes of a method body. -/
abbrev Code := Array UInt8

/-- The byte at a position. -/
def Code.byteAt (code : Code) (i : Nat) : Except Fault UInt8 :=
  match code[i]? with
  | some b => .ok b
  | none => .error (.outOfBounds i)

/-- The two-byte number at a position. -/
def Code.indexAt (code : Code) (i : Nat) : Except Fault UInt16 := do
  let a ← code.byteAt i
  let b ← code.byteAt (i + 1)
  return .ofNat (bigEndian [a, b])

/-- The signed four-byte number at a position, as a 64-bit word. -/
def Code.signedAt (code : Code) (i : Nat) : Except Fault Int64 := do
  let a ← code.byteAt i
  let b ← code.byteAt (i + 1)
  let c ← code.byteAt (i + 2)
  let d ← code.byteAt (i + 3)
  return (UInt32.ofNat (bigEndian [a, b, c, d])).toInt32.toInt64

/-- The operands of a switch start at the next multiple of four. -/
def switchOperands (pc : Nat) : Nat := pc + 1 + (4 - (pc + 1) % 4) % 4

/-- The length of a switch at `pc` that ends at `stop`. -/
def switchLength (code : Code) (pc : Nat) (stop : Int64) : Except Fault Nat :=
  if Int64.ofNat code.size < stop then .error (.overrun pc) else .ok (stop.toInt.toNat - pc)

/-- The length of a table switch: twelve bytes, and four for every key between the lowest and the
highest. -/
def tableSwitchLength (code : Code) (pc : Nat) : Except Fault Nat := do
  let p := switchOperands pc
  if code.size < p + 12 then .error (.truncatedSwitch pc)
  else
    let low ← code.signedAt (p + 4)
    let high ← code.signedAt (p + 8)
    if high < low then .error (.emptyRange pc)
    else switchLength code pc (Int64.ofNat (p + 12) + 4 * (high - low + 1))

/-- The length of a lookup switch: eight bytes, and eight for every pair. -/
def lookupSwitchLength (code : Code) (pc : Nat) : Except Fault Nat := do
  let p := switchOperands pc
  if code.size < p + 8 then .error (.truncatedSwitch pc)
  else
    let pairs ← code.signedAt (p + 4)
    if pairs < 0 then .error (.negativePairs pc)
    else switchLength code pc (Int64.ofNat (p + 8) + 8 * pairs)

/-- The length of a widened instruction: an increment takes a second two-byte operand. -/
def wideLength (code : Code) (pc : Nat) : Except Fault Nat := do
  if code.size ≤ pc + 1 then .error (.truncatedWide pc)
  else
    let widened ← code.byteAt (pc + 1)
    return if widened = Opcode.iinc then 6 else 4

/-- The length of the instruction at `pc`.  An instruction of fixed length may end past the code. -/
def instructionLength (code : Code) (pc : Nat) : Except Fault Nat := do
  let op ← code.byteAt pc
  if op = Opcode.tableswitch then tableSwitchLength code pc
  else if op = Opcode.lookupswitch then lookupSwitchLength code pc
  else if op = Opcode.wide then wideLength code pc
  else
    match operandBytes? op with
    | some n => .ok (1 + n)
    | none => .error (.unknownOpcode op pc)

/-! ## Calls -/

/-- The call made by the instruction at `pc`, if it is an invocation. -/
def callAt (pool : ConstantPool) (code : Code) (pc : Nat) : Except Fault (Option CallSite) := do
  let op ← code.byteAt pc
  if op = Opcode.invokevirtual ∨ op = Opcode.invokespecial ∨ op = Opcode.invokestatic
      ∨ op = Opcode.invokeinterface then
    return some (← pool.methodSite (← code.indexAt (pc + 1)))
  else if op = Opcode.invokedynamic then
    return some (← pool.dynamicSite (← code.indexAt (pc + 1)))
  else return none

/-- Walks over the instructions from `pc` on and adds their calls to `found`.  Every instruction has to
end inside the code. -/
def callSitesFrom (pool : ConstantPool) (code : Code) (pc : Nat) (found : Array CallSite) :
    Except Fault (Array CallSite) :=
  if pc < code.size then
    match instructionLength code pc with
    | .error fault => .error fault
    | .ok n =>
      if 0 < n ∧ pc + n ≤ code.size then
        match callAt pool code pc with
        | .error fault => .error fault
        | .ok none => callSitesFrom pool code (pc + n) found
        | .ok (some site) => callSitesFrom pool code (pc + n) (found.push site)
      else .error (.overrun pc)
  else .ok found
termination_by code.size - pc

/-- The calls in a method body, in code order. -/
def callSites (pool : ConstantPool) (code : Code) : Except Fault (List CallSite) :=
  (callSitesFrom pool code 0 #[]).map Array.toList

end JvmCoupling.ClassFile
