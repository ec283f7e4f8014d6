import JvmCoupling.Proofs.ClassFile.Reading
import Mathlib.Algebra.Group.Int.Defs

/-! # The instructions of a method body

A method body is a concatenation of instructions, and where one ends is known only from its own bytes.
This module gives the instructions a syntax of their own and shows that the walk over a body accepts
exactly the concatenations of instructions, each placed where the one before it ends, whose call
references can be resolved.  A body has at most one such decomposition, so the calls that the walk reports
are those of the instructions and never read from operand or padding bytes.

* `Instr`, `Instr.encode`, `Instr.Fits` — instructions, their bytes, and where they may stand;
* `Placed` — instructions one after the other;
* `Reference` — what an invocation refers to.
-/

namespace JvmCoupling.ClassFile

/-! ## The instruction set -/

/-- Opcodes with one operand byte. -/
def oneByteOpcodes : List UInt8 := [
  0x10, 0x12,                          -- bipush, ldc
  0x15, 0x16, 0x17, 0x18, 0x19,        -- iload, lload, fload, dload, aload
  0x36, 0x37, 0x38, 0x39, 0x3A,        -- istore, lstore, fstore, dstore, astore
  0xA9, 0xBC]                          -- ret, newarray

/-- Opcodes with two operand bytes. -/
def twoByteOpcodes : List UInt8 := [
  0x11, 0x13, 0x14, 0x84,              -- sipush, ldc_w, ldc2_w, iinc
  0x99, 0x9A, 0x9B, 0x9C, 0x9D, 0x9E,  -- ifeq, ifne, iflt, ifge, ifgt, ifle
  0x9F, 0xA0, 0xA1, 0xA2, 0xA3, 0xA4,  -- if_icmpeq, _icmpne, _icmplt, _icmpge, _icmpgt, _icmple
  0xA5, 0xA6, 0xA7, 0xA8,              -- if_acmpeq, if_acmpne, goto, jsr
  0xB2, 0xB3, 0xB4, 0xB5,              -- getstatic, putstatic, getfield, putfield
  0xB6, 0xB7, 0xB8,                    -- invokevirtual, invokespecial, invokestatic
  0xBB, 0xBD, 0xC0, 0xC1,              -- new, anewarray, checkcast, instanceof
  0xC6, 0xC7]                          -- ifnull, ifnonnull

/-- Opcodes with four operand bytes. -/
def fourByteOpcodes : List UInt8 := [
  0xB9, 0xBA,                          -- invokeinterface, invokedynamic
  0xC8, 0xC9]                          -- goto_w, jsr_w

/-- The number of operand bytes of an opcode of fixed length.  The three opcodes of variable length have
none; of the opcodes past `jsr_w` only the reserved ones, `breakpoint` and `impdep`, are instructions. -/
def operandCount (op : UInt8) : Option Nat :=
  if op ∈ [0xAA, 0xAB, 0xC4] then none  -- tableswitch, lookupswitch, wide
  else if op ∈ oneByteOpcodes then some 1
  else if op ∈ twoByteOpcodes then some 2
  else if op = 0xC5 then some 3  -- multianewarray
  else if op ∈ fourByteOpcodes then some 4
  else if op ≤ 0xC9 ∨ op ∈ [0xCA, 0xFE, 0xFF] then some 0
  else none

/-- The ranges of opcodes that the walk uses agree with the instruction set. -/
theorem operandBytes?_eq (op : UInt8) : operandBytes? op = operandCount op := by
  have all : ∀ n : Fin 256, operandBytes? (.ofNat n) = operandCount (.ofNat n) := by decide +kernel
  simpa using all ⟨op.toNat, op.toNat_lt⟩

/-! ## Instructions -/

/-- The four bytes of a signed number. -/
def s4Bytes (x : Int32) : Bytes := u4Bytes x.toUInt32

/-- An instruction. -/
inductive Instr where
  /-- An opcode of fixed length with its operand bytes. -/
  | plain (op : UInt8) (operands : Bytes)
  /-- A widened increment. -/
  | wideIncrement (operands : Bytes)
  /-- Another widened instruction. -/
  | wide (op : UInt8) (operands : Bytes)
  /-- A jump table for all keys from `low` to `high`. -/
  | tableSwitch (padding : Bytes) (fallback low high : Int32) (jumps : List Int32)
  /-- A jump table of keys and jumps. -/
  | lookupSwitch (padding : Bytes) (fallback : Int32) (branches : List (Int32 × Int32))

/-- A key of a lookup switch and its jump. -/
def branchBytes (branch : Int32 × Int32) : Bytes := s4Bytes branch.1 ++ s4Bytes branch.2

/-- What an invocation refers to. -/
inductive Reference where
  | method (index : UInt16)
  | dynamic (index : UInt16)

/-- The call site behind a reference. -/
def Reference.resolve (pool : ConstantPool) : Reference → Except Fault CallSite
  | method index => pool.methodSite index
  | dynamic index => pool.dynamicSite index

namespace Instr

/-- The bytes of an instruction. -/
def encode : Instr → Bytes
  | plain op operands => op :: operands
  | wideIncrement operands => 0xC4 :: 0x84 :: operands
  | wide op operands => 0xC4 :: op :: operands
  | tableSwitch padding fallback low high jumps =>
    0xAA :: (padding ++ (s4Bytes fallback ++ (s4Bytes low ++ (s4Bytes high ++ jumps.flatMap s4Bytes))))
  | lookupSwitch padding fallback branches =>
    0xAB :: (padding ++ (s4Bytes fallback ++ (s4Bytes (.ofNat branches.length) ++ branches.flatMap branchBytes)))

/-- Padding that brings the operands behind the opcode at `pc` to a multiple of four. -/
def Aligns (pc : Nat) (padding : Bytes) : Prop := padding.length ≤ 3 ∧ 4 ∣ pc + 1 + padding.length

/-- An instruction is well formed at `pc`. -/
def Fits (pc : Nat) : Instr → Prop
  | plain op operands => operandCount op = some operands.length
  | wideIncrement operands => operands.length = 4
  | wide op operands => op ≠ 0x84 ∧ operands.length = 2
  | tableSwitch padding _ low high jumps =>
    Aligns pc padding ∧ low.toInt ≤ high.toInt ∧ (jumps.length : Int) = high.toInt - low.toInt + 1
  | lookupSwitch padding _ branches => Aligns pc padding ∧ branches.length < 2 ^ 31

/-- What an instruction refers to if it is an invocation: the index in its first two operand bytes. -/
def reference? : Instr → Option Reference
  | plain op (a :: b :: _) =>
    let index : UInt16 := .ofNat (a.toNat * 256 + b.toNat)
    if op ∈ [0xB6, 0xB7, 0xB8, 0xB9] then some (.method index)  -- virtual, special, static, interface
    else if op = 0xBA then some (.dynamic index)
    else none
  | _ => none

end Instr

/-- Instructions one after the other from `pc` on. -/
def Placed : Nat → List Instr → Prop
  | _, [] => True
  | pc, i :: instrs => i.Fits pc ∧ Placed (pc + i.encode.length) instrs

/-! ## Bytes at a position -/

namespace Code

theorem byteAt_eq {code : Code} {i : Nat} {b : UInt8} {rest : Bytes} (here : code.toList.drop i = b :: rest) :
    code.byteAt i = .ok b := by
  have found : code[i]? = some b := by
    rw [← Array.getElem?_toList, ← List.head?_drop, here, List.head?_cons]
  simp [byteAt, found]

theorem drop_of_byteAt {code : Code} {i : Nat} {b : UInt8} (run : code.byteAt i = .ok b) :
    ∃ rest, code.toList.drop i = b :: rest := by
  unfold byteAt at run
  split at run
  · next found =>
    obtain rfl := Except.ok.inj run
    rw [← Array.getElem?_toList, ← List.head?_drop] at found
    exact List.head?_eq_some_iff.1 found
  · simp at run

theorem drop_add {code : Code} {i : Nat} (front : Bytes) {rest : Bytes}
    (here : code.toList.drop i = front ++ rest) : code.toList.drop (i + front.length) = rest := by
  rw [← List.drop_drop, here, List.drop_left]

theorem length_of_drop {code : Code} {pc : Nat} {bytes : Bytes} (here : code.toList.drop pc = bytes)
    (inside : bytes ≠ []) : code.size = pc + bytes.length := by
  have length := congrArg List.length here
  have positive : 0 < bytes.length := List.length_pos_of_ne_nil inside
  rw [List.length_drop, Array.length_toList] at length
  omega

theorem indexAt_eq {code : Code} {i : Nat} {a b : UInt8} {rest : Bytes}
    (here : code.toList.drop i = a :: b :: rest) :
    code.indexAt i = .ok (.ofNat (a.toNat * 256 + b.toNat)) := by
  have second : code.toList.drop (i + 1) = b :: rest := drop_add [a] here
  simp [indexAt, byteAt_eq here, byteAt_eq second, bigEndian, pure, Except.pure]

theorem signedAt_eq {code : Code} {i : Nat} {x : Int32} {rest : Bytes}
    (here : code.toList.drop i = s4Bytes x ++ rest) : code.signedAt i = .ok x.toInt64 := by
  obtain ⟨a, b, c, d, bytes⟩ : ∃ a b c d, u4Bytes x.toUInt32 = [a, b, c, d] := ⟨_, _, _, _, rfl⟩
  have value : UInt32.ofNat (bigEndian [a, b, c, d]) = x.toUInt32 := by
    rw [← bytes, ofNat_bigEndian_u4Bytes]
  rw [s4Bytes, bytes] at here
  have second : code.toList.drop (i + 1) = b :: c :: d :: rest := drop_add [a] here
  have third : code.toList.drop (i + 2) = c :: d :: rest := drop_add [a, b] here
  have fourth : code.toList.drop (i + 3) = d :: rest := drop_add [a, b, c] here
  simp only [signedAt, byteAt_eq here, byteAt_eq second, byteAt_eq third, byteAt_eq fourth, ok_bind, value]
  rfl

end Code

@[simp] theorem length_s4Bytes (x : Int32) : (s4Bytes x).length = 4 := rfl

theorem s4Bytes_injective {x y : Int32} (equal : s4Bytes x = s4Bytes y) : x = y :=
  congrArg UInt32.toInt32 (u4Bytes_injective equal)

/-- Bytes that are long enough start with a signed number. -/
theorem exists_s4Bytes {bytes : Bytes} (enough : 4 ≤ bytes.length) :
    ∃ x rest, bytes = s4Bytes x ++ rest := by
  obtain ⟨x, front⟩ := exists_u4Bytes (by simp; omega : (bytes.take 4).length = 4)
  refine ⟨x.toInt32, bytes.drop 4, ?_⟩
  rw [s4Bytes, UInt32.toUInt32_toInt32, ← front, List.take_append_drop]

@[simp] theorem length_branchBytes (branch : Int32 × Int32) : (branchBytes branch).length = 8 := rfl

theorem branchBytes_injective {x y : Int32 × Int32} (equal : branchBytes x = branchBytes y) : x = y := by
  obtain ⟨first, second⟩ := List.append_inj equal (by simp)
  exact Prod.ext (s4Bytes_injective first) (s4Bytes_injective second)

theorem exists_branchBytes {bytes : Bytes} (enough : 8 ≤ bytes.length) :
    ∃ branch rest, bytes = branchBytes branch ++ rest := by
  obtain ⟨key, rest, rfl⟩ := exists_s4Bytes (by omega : 4 ≤ bytes.length)
  obtain ⟨jump, rest, rfl⟩ := exists_s4Bytes (by simp at enough; omega : 4 ≤ rest.length)
  exact ⟨(key, jump), rest, by simp [branchBytes]⟩

section Words

variable {α : Type} {word : α → Bytes} {width : Nat} (sized : ∀ x, (word x).length = width)

include sized

theorem length_flatMap_word (xs : List α) : (xs.flatMap word).length = width * xs.length := by
  induction xs with
  | nil => simp
  | cons x xs ih => simp [sized, ih, Nat.mul_add, Nat.add_comm]

/-- Words of one size can be told apart in their concatenation. -/
theorem flatMap_word_injective (injective : ∀ {x y}, word x = word y → x = y) {xs ys : List α}
    (length : xs.length = ys.length) (equal : xs.flatMap word = ys.flatMap word) : xs = ys := by
  induction xs generalizing ys with
  | nil => exact (List.length_eq_zero_iff.1 length.symm).symm
  | cons x xs ih =>
    cases ys with
    | nil => simp at length
    | cons y ys =>
      obtain ⟨first, others⟩ := List.append_inj equal (by rw [sized, sized])
      rw [injective first, ih (by simpa using length) others]

/-- Bytes of the right length are the concatenation of words. -/
theorem exists_flatMap_word
    (split : ∀ {bytes : Bytes}, width ≤ bytes.length → ∃ x rest, bytes = word x ++ rest)
    {bytes : Bytes} {n : Nat} (length : bytes.length = width * n) :
    ∃ xs : List α, xs.length = n ∧ bytes = xs.flatMap word := by
  induction n generalizing bytes with
  | zero => exact ⟨[], rfl, by simpa using length⟩
  | succ n ih =>
    rw [Nat.mul_add_one] at length
    obtain ⟨x, rest, rfl⟩ := split (by omega : width ≤ bytes.length)
    have shorter : rest.length = width * n := by
      rw [List.length_append, sized] at length
      omega
    obtain ⟨xs, rfl, rfl⟩ := ih shorter
    exact ⟨x :: xs, rfl, rfl⟩

end Words

/-! ## Switches -/

theorem switchOperands_eq {pc : Nat} {padding : Bytes} (aligns : Instr.Aligns pc padding) :
    switchOperands pc = pc + 1 + padding.length := by
  obtain ⟨short, k, aligned⟩ := aligns
  unfold switchOperands
  omega

/-- The padding that a switch at `pc` needs. -/
theorem exists_aligns {pc : Nat} {bytes : Bytes} (enough : switchOperands pc ≤ pc + 1 + bytes.length) :
    ∃ padding rest, Instr.Aligns pc padding ∧ bytes = padding ++ rest := by
  refine ⟨bytes.take (switchOperands pc - (pc + 1)), bytes.drop (switchOperands pc - (pc + 1)), ?_,
    (List.take_append_drop _ _).symm⟩
  unfold Instr.Aligns
  rw [List.length_take]
  unfold switchOperands at enough ⊢
  omega

theorem bmod_word {x : Int} (above : -2 ^ 63 ≤ x) (below : x < 2 ^ 63) : x.bmod (2 ^ 64) = x :=
  Int.bmod_eq_of_le (by omega) (by omega)

/-- Where a table switch ends does not overflow: its keys are 32-bit numbers. -/
theorem toInt_tableStop {p : Nat} {low high : Int32} (small : p ≤ 2 ^ 62) :
    (Int64.ofNat p + 4 * (high.toInt64 - low.toInt64 + 1)).toInt =
      p + 4 * (high.toInt - low.toInt + 1) := by
  have lowAbove := low.le_toInt
  have lowBelow := low.toInt_lt
  have highAbove := high.le_toInt
  have highBelow := high.toInt_lt
  have start : (Int64.ofNat p).toInt = p := Int64.toInt_ofNat_of_lt (by omega)
  have four : (4 : Int64).toInt = 4 := rfl
  have one : (1 : Int64).toInt = 1 := rfl
  simp only [Int64.toInt_add, Int64.toInt_mul, Int64.toInt_sub, Int32.toInt_toInt64, start, four, one]
  -- no intermediate value leaves the range of a word
  rw [bmod_word (x := high.toInt - low.toInt) (by omega) (by omega),
    bmod_word (x := high.toInt - low.toInt + 1) (by omega) (by omega),
    bmod_word (x := 4 * (high.toInt - low.toInt + 1)) (by omega) (by omega), bmod_word (by omega) (by omega)]

/-- Where a lookup switch ends does not overflow either. -/
theorem toInt_lookupStop {p : Nat} {pairs : Int32} (small : p ≤ 2 ^ 62) :
    (Int64.ofNat p + 8 * pairs.toInt64).toInt = p + 8 * pairs.toInt := by
  have above := pairs.le_toInt
  have below := pairs.toInt_lt
  have start : (Int64.ofNat p).toInt = p := Int64.toInt_ofNat_of_lt (by omega)
  have eight : (8 : Int64).toInt = 8 := rfl
  simp only [Int64.toInt_add, Int64.toInt_mul, Int32.toInt_toInt64, start, eight]
  rw [bmod_word (x := 8 * pairs.toInt) (by omega) (by omega), bmod_word (by omega) (by omega)]

theorem switchLength_eq {code : Code} {pc : Nat} {stop : Int64} (small : code.size < 2 ^ 62) :
    switchLength code pc stop =
      if (code.size : Int) < stop.toInt then .error (.overrun pc) else .ok (stop.toInt.toNat - pc) := by
  have size : (Int64.ofNat code.size).toInt = code.size := Int64.toInt_ofNat_of_lt (by omega)
  simp only [switchLength, Int64.lt_iff_toInt_lt, size]

/-- Behind the padding and the first operand of a switch. -/
theorem drop_switchOperands {code : Code} {pc : Nat} {op : UInt8} {padding rest : Bytes} {fallback : Int32}
    (aligns : Instr.Aligns pc padding) (here : code.toList.drop pc = op :: (padding ++ (s4Bytes fallback ++ rest))) :
    code.toList.drop (switchOperands pc + 4) = rest ∧ code.size = switchOperands pc + 4 + rest.length := by
  have size := Code.length_of_drop here (by simp)
  simp only [List.length_cons, List.length_append, length_s4Bytes] at size
  have operands := switchOperands_eq aligns
  have shift : switchOperands pc + 4 = pc + (op :: (padding ++ s4Bytes fallback)).length := by
    simp only [List.length_cons, List.length_append, length_s4Bytes]
    omega
  refine ⟨?_, by omega⟩
  rw [shift]
  exact Code.drop_add _ (by simpa using here)

/-- The length of a table switch whose fixed part lies inside the code. -/
theorem tableSwitchLength_eq {code : Code} {pc : Nat} {op : UInt8} {padding rest : Bytes}
    {fallback low high : Int32} (small : code.size < 2 ^ 62) (aligns : Instr.Aligns pc padding)
    (here : code.toList.drop pc =
      op :: (padding ++ (s4Bytes fallback ++ (s4Bytes low ++ (s4Bytes high ++ rest))))) :
    tableSwitchLength code pc =
      if high.toInt < low.toInt then .error (.emptyRange pc)
      else if (rest.length : Int) < 4 * (high.toInt - low.toInt + 1) then .error (.overrun pc)
      else .ok (1 + padding.length + 12 + (4 * (high.toInt - low.toInt + 1)).toNat) := by
  have operands := switchOperands_eq aligns
  obtain ⟨atLow, size⟩ := drop_switchOperands aligns here
  have atHigh : code.toList.drop (switchOperands pc + 8) = s4Bytes high ++ rest :=
    Code.drop_add (s4Bytes low) atLow
  simp only [List.length_append, length_s4Bytes] at size
  have inside : ¬code.size < switchOperands pc + 12 := by omega
  simp only [tableSwitchLength, if_neg inside, Code.signedAt_eq atLow, Code.signedAt_eq atHigh, ok_bind,
    Int64.lt_iff_toInt_lt, Int32.toInt_toInt64, switchLength_eq small]
  split
  · rfl
  · next order =>
    rw [toInt_tableStop (by omega)]
    split
    · next long => rw [if_pos (by omega)]
    · next short =>
      rw [if_neg (by omega)]
      congr 1
      omega

/-- The length of a lookup switch whose fixed part lies inside the code. -/
theorem lookupSwitchLength_eq {code : Code} {pc : Nat} {op : UInt8} {padding rest : Bytes}
    {fallback pairs : Int32} (small : code.size < 2 ^ 62) (aligns : Instr.Aligns pc padding)
    (here : code.toList.drop pc = op :: (padding ++ (s4Bytes fallback ++ (s4Bytes pairs ++ rest)))) :
    lookupSwitchLength code pc =
      if pairs.toInt < 0 then .error (.negativePairs pc)
      else if (rest.length : Int) < 8 * pairs.toInt then .error (.overrun pc)
      else .ok (1 + padding.length + 8 + (8 * pairs.toInt).toNat) := by
  have operands := switchOperands_eq aligns
  obtain ⟨atPairs, size⟩ := drop_switchOperands aligns here
  rw [List.length_append, length_s4Bytes] at size
  have inside : ¬code.size < switchOperands pc + 8 := by omega
  have zero : (0 : Int64).toInt = 0 := rfl
  simp only [lookupSwitchLength, if_neg inside, Code.signedAt_eq atPairs, ok_bind, Int64.lt_iff_toInt_lt,
    Int32.toInt_toInt64, zero, switchLength_eq small]
  split
  · rfl
  · next order =>
    rw [toInt_lookupStop (by omega)]
    split
    · next long => rw [if_pos (by omega)]
    · next short =>
      rw [if_neg (by omega)]
      congr 1
      omega

/-- Where the first operand of a switch lies inside the code, padding and that operand can be read off. -/
theorem exists_switchOperands {code : Code} {pc : Nat} {op : UInt8} {tail : Bytes}
    (here : code.toList.drop pc = op :: tail) (inside : switchOperands pc + 4 ≤ code.size) :
    ∃ padding fallback rest, Instr.Aligns pc padding ∧ tail = padding ++ (s4Bytes fallback ++ rest) ∧
      code.size = switchOperands pc + 4 + rest.length := by
  have size := Code.length_of_drop here (by simp)
  rw [List.length_cons] at size
  obtain ⟨padding, tail, aligns, rfl⟩ := exists_aligns (by omega : switchOperands pc ≤ pc + 1 + tail.length)
  rw [List.length_append] at size
  have operands := switchOperands_eq aligns
  obtain ⟨fallback, rest, rfl⟩ := exists_s4Bytes (by omega : 4 ≤ tail.length)
  exact ⟨padding, fallback, rest, aligns, rfl, (drop_switchOperands aligns here).2⟩

/-! ## One instruction -/

theorem operandCount_wide : operandCount 0xC4 = none := by decide

theorem operandCount_tableswitch : operandCount 0xAA = none := by decide

theorem operandCount_lookupswitch : operandCount 0xAB = none := by decide

theorem wideLength_eq {code : Code} {pc : Nat} {op : UInt8} {rest : Bytes}
    (second : code.toList.drop (pc + 1) = op :: rest) :
    wideLength code pc = .ok (if op = Opcode.iinc then 6 else 4) := by
  have size := Code.length_of_drop second (by simp)
  rw [List.length_cons] at size
  have inside : ¬code.size ≤ pc + 1 := by omega
  simp only [wideLength, if_neg inside, Code.byteAt_eq second, ok_bind]
  rfl

/-- The walk finds the length of an instruction that stands at its position. -/
theorem instructionLength_eq {code : Code} {pc : Nat} {i : Instr} {rest : Bytes} (small : code.size < 2 ^ 62)
    (fits : i.Fits pc) (here : code.toList.drop pc = i.encode ++ rest) :
    instructionLength code pc = .ok i.encode.length := by
  cases i with
  | plain op operands =>
    -- an opcode with a fixed number of operands is none of the three that are looked at first
    have notTable : op ≠ Opcode.tableswitch := by
      rintro rfl
      cases operandCount_tableswitch.symm.trans fits
    have notLookup : op ≠ Opcode.lookupswitch := by
      rintro rfl
      cases operandCount_lookupswitch.symm.trans fits
    have notWide : op ≠ Opcode.wide := by
      rintro rfl
      cases operandCount_wide.symm.trans fits
    have operandsEq : operandBytes? op = some operands.length := (operandBytes?_eq op).trans fits
    simp only [instructionLength, Code.byteAt_eq here, ok_bind, notTable, notLookup, notWide, if_false,
      operandsEq, Instr.encode, List.length_cons, Nat.add_comm]
  | wideIncrement operands =>
    have wide : wideLength code pc = .ok 6 := wideLength_eq (Code.drop_add [0xC4] here)
    have length : operands.length = 4 := fits
    simpa [instructionLength, Code.byteAt_eq here, Instr.encode, length, Opcode.tableswitch,
      Opcode.lookupswitch, Opcode.wide] using wide
  | wide op operands =>
    obtain ⟨notIncrement, length⟩ := fits
    have notIncrement : op ≠ Opcode.iinc := notIncrement
    have wide := wideLength_eq (Code.drop_add [0xC4] here)
    rw [if_neg notIncrement] at wide
    simpa [instructionLength, Code.byteAt_eq here, Instr.encode, length, Opcode.tableswitch,
      Opcode.lookupswitch, Opcode.wide] using wide
  | tableSwitch padding fallback low high jumps =>
    obtain ⟨aligns, order, length⟩ := fits
    have jumpsLength := length_flatMap_word length_s4Bytes jumps
    simp only [Instr.encode, List.cons_append, List.append_assoc] at here
    have table := tableSwitchLength_eq small aligns here
    rw [if_neg (by omega), if_neg (by rw [List.length_append]; omega)] at table
    simp only [instructionLength, Code.byteAt_eq here, ok_bind, Opcode.tableswitch, if_true, table, Instr.encode,
      List.length_cons, List.length_append, length_s4Bytes, jumpsLength]
    congr 1
    omega
  | lookupSwitch padding fallback branches =>
    obtain ⟨aligns, bound⟩ := fits
    have branchesLength := length_flatMap_word length_branchBytes branches
    have pairs : (Int32.ofNat branches.length).toInt = branches.length := Int32.toInt_ofNat_of_lt bound
    simp only [Instr.encode, List.cons_append, List.append_assoc] at here
    have lookup := lookupSwitchLength_eq small aligns here
    rw [if_neg (by omega), if_neg (by rw [List.length_append]; omega)] at lookup
    have notTable : (0xAB : UInt8) ≠ Opcode.tableswitch := by decide
    simp only [instructionLength, Code.byteAt_eq here, ok_bind, notTable, if_false, Opcode.lookupswitch, if_true,
      lookup, Instr.encode, List.length_cons, List.length_append, length_s4Bytes, branchesLength]
    congr 1
    omega

theorem exists_tableSwitch {code : Code} {pc n : Nat} {tail : Bytes} (small : code.size < 2 ^ 62)
    (here : code.toList.drop pc = 0xAA :: tail) (run : tableSwitchLength code pc = .ok n) :
    ∃ (i : Instr) (rest : Bytes), i.Fits pc ∧ code.toList.drop pc = i.encode ++ rest := by
  have inside : ¬code.size < switchOperands pc + 12 := by
    intro short
    simp [tableSwitchLength, short] at run
  obtain ⟨padding, fallback, tail, aligns, rfl, size⟩ := exists_switchOperands here (by omega)
  obtain ⟨low, tail, rfl⟩ := exists_s4Bytes (by omega : 4 ≤ tail.length)
  rw [List.length_append, length_s4Bytes] at size
  obtain ⟨high, tail, rfl⟩ := exists_s4Bytes (by omega : 4 ≤ tail.length)
  rw [tableSwitchLength_eq small aligns here] at run
  split at run
  · simp at run
  · next order =>
    split at run
    · simp at run
    · next enough =>
      -- one jump for each key of the range
      obtain ⟨k, keys⟩ : ∃ k : Nat, (k : Int) = high.toInt - low.toInt + 1 :=
        ⟨(high.toInt - low.toInt + 1).toNat, by omega⟩
      obtain ⟨jumps, length, front⟩ := exists_flatMap_word length_s4Bytes exists_s4Bytes
        (by rw [List.length_take]; omega : (tail.take (4 * k)).length = 4 * k)
      refine ⟨.tableSwitch padding fallback low high jumps, tail.drop (4 * k), ⟨aligns, by omega, by omega⟩, ?_⟩
      rw [here]
      simp only [Instr.encode, ← front, List.cons_append, List.append_assoc, List.take_append_drop]

theorem exists_lookupSwitch {code : Code} {pc n : Nat} {tail : Bytes} (small : code.size < 2 ^ 62)
    (here : code.toList.drop pc = 0xAB :: tail) (run : lookupSwitchLength code pc = .ok n) :
    ∃ (i : Instr) (rest : Bytes), i.Fits pc ∧ code.toList.drop pc = i.encode ++ rest := by
  have inside : ¬code.size < switchOperands pc + 8 := by
    intro short
    simp [lookupSwitchLength, short] at run
  obtain ⟨padding, fallback, tail, aligns, rfl, size⟩ := exists_switchOperands here (by omega)
  obtain ⟨pairs, tail, rfl⟩ := exists_s4Bytes (by omega : 4 ≤ tail.length)
  rw [lookupSwitchLength_eq small aligns here] at run
  have below := pairs.toInt_lt
  split at run
  · simp at run
  · next order =>
    split at run
    · simp at run
    · next enough =>
      obtain ⟨k, count⟩ : ∃ k : Nat, (k : Int) = pairs.toInt := ⟨pairs.toInt.toNat, by omega⟩
      obtain ⟨branches, length, front⟩ := exists_flatMap_word length_branchBytes exists_branchBytes
        (by rw [List.length_take]; omega : (tail.take (8 * k)).length = 8 * k)
      have pairsEq : Int32.ofNat branches.length = pairs := by
        apply Int32.toInt_inj.1
        rw [Int32.toInt_ofNat_of_lt (by omega)]
        omega
      refine ⟨.lookupSwitch padding fallback branches, tail.drop (8 * k), ⟨aligns, by omega⟩, ?_⟩
      rw [here]
      simp only [Instr.encode, pairsEq, ← front, List.cons_append, List.append_assoc, List.take_append_drop]

theorem exists_wide {code : Code} {pc n : Nat} {tail : Bytes} (here : code.toList.drop pc = 0xC4 :: tail)
    (run : wideLength code pc = .ok n) (inside : pc + n ≤ code.size) :
    ∃ (i : Instr) (rest : Bytes), i.Fits pc ∧ code.toList.drop pc = i.encode ++ rest := by
  have size := Code.length_of_drop here (by simp)
  rw [List.length_cons] at size
  cases tail with
  | nil =>
    have short : code.size ≤ pc + 1 := by simp at size; omega
    simp [wideLength, short] at run
  | cons op tail =>
    rw [wideLength_eq (Code.drop_add [0xC4] here), Except.ok.injEq] at run
    rw [List.length_cons] at size
    by_cases increment : op = Opcode.iinc
    · rw [if_pos increment] at run
      refine ⟨.wideIncrement (tail.take 4), tail.drop 4, ?_, by simp [here, increment, Instr.encode, Opcode.iinc]⟩
      simp only [Instr.Fits, List.length_take]
      omega
    · rw [if_neg increment] at run
      refine ⟨.wide op (tail.take 2), tail.drop 2, ⟨increment, ?_⟩, by simp [here, Instr.encode]⟩
      rw [List.length_take]
      omega

/-- Where the walk finds a length that lies inside the code, an instruction stands. -/
theorem exists_instr {code : Code} {pc n : Nat} (small : code.size < 2 ^ 62)
    (run : instructionLength code pc = .ok n) (inside : pc + n ≤ code.size) :
    ∃ (i : Instr) (rest : Bytes), i.Fits pc ∧ code.toList.drop pc = i.encode ++ rest := by
  simp only [instructionLength, bind_eq_ok] at run
  obtain ⟨op, readOp, run⟩ := run
  obtain ⟨tail, here⟩ := Code.drop_of_byteAt readOp
  split at run
  · next table =>
    subst table
    exact exists_tableSwitch small here run
  · split at run
    · next lookup =>
      subst lookup
      exact exists_lookupSwitch small here run
    · split at run
      · next wide =>
        subst wide
        exact exists_wide here run inside
      · rw [operandBytes?_eq] at run
        split at run
        · next k operands =>
          obtain rfl := Except.ok.inj run
          have size := Code.length_of_drop here (by simp)
          rw [List.length_cons] at size
          refine ⟨.plain op (tail.take k), tail.drop k, ?_, by simp [here, Instr.encode]⟩
          rw [Instr.Fits, List.length_take, operands, Nat.min_eq_left (by omega)]
        · simp at run

/-- The length that the walk finds is that of the instruction. -/
theorem exists_instr_of_length {code : Code} {pc n : Nat} (small : code.size < 2 ^ 62)
    (run : instructionLength code pc = .ok n) (inside : pc + n ≤ code.size) :
    ∃ (i : Instr) (rest : Bytes), i.Fits pc ∧ code.toList.drop pc = i.encode ++ rest ∧ i.encode.length = n := by
  obtain ⟨i, rest, fits, here⟩ := exists_instr small run inside
  exact ⟨i, rest, fits, here, Except.ok.inj ((instructionLength_eq small fits here).symm.trans run)⟩

/-! ## Unique decomposition -/

theorem Instr.Aligns.length_eq {pc : Nat} {padding padding' : Bytes} (aligns : Aligns pc padding)
    (aligns' : Aligns pc padding') : padding.length = padding'.length := by
  obtain ⟨short, k, aligned⟩ := aligns
  obtain ⟨short', k', aligned'⟩ := aligns'
  omega

/-- At a position, bytes start with at most one instruction. -/
theorem Instr.eq_of_append_eq {pc : Nat} {i j : Instr} {rest rest' : Bytes} (fits : i.Fits pc)
    (fits' : j.Fits pc) (equal : i.encode ++ rest = j.encode ++ rest') : i = j ∧ rest = rest' := by
  cases i <;> cases j <;> simp only [encode, List.cons_append, List.cons.injEq] at equal
  case plain.plain op operands op' operands' =>
    obtain ⟨rfl, equal⟩ := equal
    have length : operands.length = operands'.length := Option.some.inj (fits.symm.trans fits')
    obtain ⟨rfl, rfl⟩ := List.append_inj equal length
    exact ⟨rfl, rfl⟩
  case wideIncrement.wideIncrement operands operands' =>
    obtain ⟨rfl, rfl⟩ := List.append_inj equal.2.2 (Eq.trans fits fits'.symm)
    exact ⟨rfl, rfl⟩
  case wide.wide op operands op' operands' =>
    obtain ⟨-, rfl, equal⟩ := equal
    obtain ⟨rfl, rfl⟩ := List.append_inj equal (fits.2.trans fits'.2.symm)
    exact ⟨rfl, rfl⟩
  case tableSwitch.tableSwitch padding fallback low high jumps padding' fallback' low' high' jumps' =>
    obtain ⟨aligns, order, count⟩ := fits
    obtain ⟨aligns', order', count'⟩ := fits'
    simp only [List.append_assoc] at equal
    obtain ⟨rfl, operands⟩ := List.append_inj equal.2 (aligns.length_eq aligns')
    obtain ⟨fallbackEq, keys⟩ := List.append_inj operands rfl
    obtain ⟨lowEq, keys⟩ := List.append_inj keys rfl
    obtain ⟨highEq, table⟩ := List.append_inj keys rfl
    obtain rfl := s4Bytes_injective fallbackEq
    obtain rfl := s4Bytes_injective lowEq
    obtain rfl := s4Bytes_injective highEq
    have length : jumps.length = jumps'.length := by omega
    obtain ⟨jumpsEq, rfl⟩ := List.append_inj table (by
      rw [length_flatMap_word length_s4Bytes, length_flatMap_word length_s4Bytes, length])
    obtain rfl := flatMap_word_injective length_s4Bytes s4Bytes_injective length jumpsEq
    exact ⟨rfl, rfl⟩
  case lookupSwitch.lookupSwitch padding fallback branches padding' fallback' branches' =>
    obtain ⟨aligns, bound⟩ := fits
    obtain ⟨aligns', bound'⟩ := fits'
    simp only [List.append_assoc] at equal
    obtain ⟨rfl, operands⟩ := List.append_inj equal.2 (aligns.length_eq aligns')
    obtain ⟨fallbackEq, pairs⟩ := List.append_inj operands rfl
    obtain ⟨countEq, table⟩ := List.append_inj pairs rfl
    obtain rfl := s4Bytes_injective fallbackEq
    -- the count is written down, and it was not cut off
    have length : branches.length = branches'.length := by
      have count := congrArg Int32.toInt (s4Bytes_injective countEq)
      rw [Int32.toInt_ofNat_of_lt bound, Int32.toInt_ofNat_of_lt bound'] at count
      omega
    obtain ⟨branchesEq, rfl⟩ := List.append_inj table (by
      rw [length_flatMap_word length_branchBytes, length_flatMap_word length_branchBytes, length])
    obtain rfl := flatMap_word_injective length_branchBytes branchBytes_injective length branchesEq
    exact ⟨rfl, rfl⟩
  -- instructions of different kinds differ in their opcode, or in the one that is widened
  case wideIncrement.plain | wide.plain | tableSwitch.plain | lookupSwitch.plain =>
    rw [Fits, ← equal.1] at fits'
    simp [operandCount_wide, operandCount_tableswitch, operandCount_lookupswitch] at fits'
  all_goals simp_all [Fits, operandCount_wide, operandCount_tableswitch, operandCount_lookupswitch]

theorem Instr.encode_ne_nil (i : Instr) : i.encode ≠ [] := by
  cases i <;> simp [encode]

/-- A body has at most one decomposition into instructions. -/
theorem Placed.eq_of_flatMap_eq {pc : Nat} {instrs instrs' : List Instr} (placed : Placed pc instrs)
    (placed' : Placed pc instrs') (equal : instrs.flatMap Instr.encode = instrs'.flatMap Instr.encode) :
    instrs = instrs' := by
  induction instrs generalizing pc instrs' with
  | nil =>
    cases instrs' with
    | nil => rfl
    | cons j instrs' => simp [j.encode_ne_nil] at equal
  | cons i instrs ih =>
    cases instrs' with
    | nil => simp [i.encode_ne_nil] at equal
    | cons j instrs' =>
      obtain ⟨rfl, others⟩ := Instr.eq_of_append_eq placed.1 placed'.1 equal
      rw [ih placed.2 placed'.2 others]

/-! ## Calls -/

/-- The call of the instruction at a position. -/
def Instr.site (pool : ConstantPool) (i : Instr) : Except Fault (Option CallSite) :=
  match i.reference? with
  | none => .ok none
  | some reference => (reference.resolve pool).map some

theorem Instr.site_eq_none {pool : ConstantPool} {i : Instr} :
    i.site pool = .ok none ↔ i.reference? = none := by
  unfold site
  cases i.reference? with
  | none => simp
  | some reference => simp [map_eq_ok]

theorem Instr.site_eq_some {pool : ConstantPool} {i : Instr} {site : CallSite} :
    i.site pool = .ok (some site) ↔ ∃ reference, i.reference? = some reference ∧ reference.resolve pool = .ok site := by
  unfold Instr.site
  cases i.reference? with
  | none => simp
  | some reference => simp [map_eq_ok]

/-- Invocations have an index in front of their other operands. -/
theorem exists_operands_of_invocation {op : UInt8} {operands : Bytes}
    (invocation : op ∈ [0xB6, 0xB7, 0xB8, 0xB9, 0xBA]) (count : operandCount op = some operands.length) :
    ∃ a b others, operands = a :: b :: others := by
  have enough : 2 ≤ operands.length := by
    have known : ∀ op ∈ [0xB6, 0xB7, 0xB8, 0xB9, 0xBA], operandCount op = some 2 ∨ operandCount op = some 4 := by
      decide +kernel
    rcases known op invocation with two | four
    · have length := Option.some.inj (count.symm.trans two)
      omega
    · have length := Option.some.inj (count.symm.trans four)
      omega
  match operands, enough with
  | a :: b :: others, _ => exact ⟨a, b, others, rfl⟩

/-- An opcode that is no invocation makes no call. -/
theorem callAt_other {pool : ConstantPool} {code : Code} {pc : Nat} {op : UInt8} {rest : Bytes}
    (other : op ∉ [0xB6, 0xB7, 0xB8, 0xB9, 0xBA]) (here : code.toList.drop pc = op :: rest) :
    callAt pool code pc = .ok none := by
  simp only [List.mem_cons, List.not_mem_nil, or_false, not_or] at other
  simp [callAt, Code.byteAt_eq here, Opcode.invokevirtual, Opcode.invokespecial, Opcode.invokestatic,
    Opcode.invokeinterface, Opcode.invokedynamic, other, pure, Except.pure]

theorem callAt_eq {pool : ConstantPool} {code : Code} {pc : Nat} {i : Instr} {rest : Bytes} (fits : i.Fits pc)
    (here : code.toList.drop pc = i.encode ++ rest) : callAt pool code pc = i.site pool := by
  cases i with
  | plain op operands =>
    by_cases invocation : op ∈ [0xB6, 0xB7, 0xB8, 0xB9, 0xBA]
    · obtain ⟨a, b, others, rfl⟩ := exists_operands_of_invocation invocation fits
      have index := Code.indexAt_eq (Code.drop_add [op] here)
      simp only [List.length_singleton] at index
      -- dynamic invocations are resolved by a constant of another kind
      by_cases dynamic : op = 0xBA
      · subst dynamic
        have notMethod : ¬((0xBA : UInt8) = Opcode.invokevirtual ∨ (0xBA : UInt8) = Opcode.invokespecial ∨
            (0xBA : UInt8) = Opcode.invokestatic ∨ (0xBA : UInt8) = Opcode.invokeinterface) := by decide
        have isDynamic : (0xBA : UInt8) = Opcode.invokedynamic := rfl
        simp only [callAt, Code.byteAt_eq here, ok_bind, if_neg notMethod, if_pos isDynamic, index]
        rfl
      · have method : op ∈ [0xB6, 0xB7, 0xB8, 0xB9] := by simp_all
        have isMethod : op = Opcode.invokevirtual ∨ op = Opcode.invokespecial ∨ op = Opcode.invokestatic ∨
            op = Opcode.invokeinterface := by
          simp only [List.mem_cons, List.not_mem_nil, or_false] at method
          exact method
        simp only [callAt, Code.byteAt_eq here, ok_bind, if_pos isMethod, index, Instr.site, Instr.reference?,
          if_pos method]
        rfl
    · have noReference : (Instr.plain op operands).reference? = none := by
        simp only [List.mem_cons, List.not_mem_nil, or_false, not_or] at invocation
        unfold Instr.reference?
        split <;> simp_all
      rw [callAt_other invocation here, Instr.site, noReference]
  | wideIncrement operands => exact callAt_other (by decide) here
  | wide op operands => exact callAt_other (by decide) here
  | tableSwitch padding fallback low high jumps => exact callAt_other (by decide) here
  | lookupSwitch padding fallback branches => exact callAt_other (by decide) here

/-- What the instructions of a body refer to, in order. -/
def references (instrs : List Instr) : List Reference := instrs.filterMap Instr.reference?

/-- References and the call sites behind them. -/
def Resolve (pool : ConstantPool) : List Reference → List CallSite → Prop :=
  List.Forall₂ fun reference site => reference.resolve pool = .ok site

/-- The walk from a position inside the code reads instructions up to the end. -/
theorem callSitesFrom_sound {pool : ConstantPool} {code : Code} {pc : Nat} {found result : Array CallSite}
    (small : code.size < 2 ^ 62) (run : callSitesFrom pool code pc found = .ok result) :
    ∃ instrs sites, Placed pc instrs ∧ code.toList.drop pc = instrs.flatMap Instr.encode ∧
      Resolve pool (references instrs) sites ∧ result.toList = found.toList ++ sites := by
  fun_induction callSitesFrom pool code pc found with
  | case1 | case2 | case5 => simp at run
  | case3 pc found more n lengthRun bounds callRun ih =>
    obtain ⟨i, rest, fits, here, rfl⟩ := exists_instr_of_length small lengthRun bounds.2
    obtain ⟨instrs, sites, placed, body, resolve, gathered⟩ := ih run
    rw [callAt_eq fits here, Instr.site_eq_none] at callRun
    refine ⟨i :: instrs, sites, ⟨fits, placed⟩, ?_, ?_, gathered⟩
    · rw [here, List.flatMap_cons, ← body, Code.drop_add _ here]
    · rwa [references, List.filterMap_cons_none callRun]
  | case4 pc found more n lengthRun bounds site callRun ih =>
    obtain ⟨i, rest, fits, here, rfl⟩ := exists_instr_of_length small lengthRun bounds.2
    obtain ⟨instrs, sites, placed, body, resolve, gathered⟩ := ih run
    rw [callAt_eq fits here, Instr.site_eq_some] at callRun
    obtain ⟨reference, refers, resolved⟩ := callRun
    refine ⟨i :: instrs, site :: sites, ⟨fits, placed⟩, ?_, ?_, by simpa using gathered⟩
    · rw [here, List.flatMap_cons, ← body, Code.drop_add _ here]
    · rw [references, List.filterMap_cons_some refers]
      exact .cons resolved resolve
  | case6 pc found done =>
    obtain rfl := Except.ok.inj run
    exact ⟨[], [], trivial, List.drop_eq_nil_of_le (by simpa using done), .nil, by simp⟩

/-- Over instructions that are placed up to the end of the code, the walk yields their call sites. -/
theorem callSitesFrom_complete {pool : ConstantPool} {code : Code} {pc : Nat} {instrs : List Instr}
    {sites : List CallSite} (found : Array CallSite) (small : code.size < 2 ^ 62) (placed : Placed pc instrs)
    (body : code.toList.drop pc = instrs.flatMap Instr.encode) (resolve : Resolve pool (references instrs) sites) :
    callSitesFrom pool code pc found = .ok (found ++ sites) := by
  induction instrs generalizing pc found sites with
  | nil =>
    cases resolve
    have done : ¬pc < code.size := by simpa using body
    rw [callSitesFrom, if_neg done]
    simp
  | cons i instrs ih =>
    obtain ⟨fits, placed⟩ := placed
    rw [List.flatMap_cons] at body
    have size := Code.length_of_drop body (by simp [i.encode_ne_nil])
    have positive : 0 < i.encode.length := List.length_pos_of_ne_nil i.encode_ne_nil
    rw [List.length_append] at size
    rw [callSitesFrom, if_pos (by omega), instructionLength_eq small fits body]
    simp only
    rw [if_pos ⟨positive, by omega⟩, callAt_eq fits body]
    have others := Code.drop_add _ body
    cases refers : i.reference? with
    | none =>
      rw [references, List.filterMap_cons_none refers] at resolve
      rw [Instr.site_eq_none.2 refers]
      exact ih found placed others resolve
    | some reference =>
      -- an invocation takes the first of the sites
      rw [references, List.filterMap_cons_some refers] at resolve
      cases resolve with
      | @cons _ site _ sites resolved resolve =>
        rw [Instr.site_eq_some.2 ⟨reference, refers, resolved⟩]
        simp only
        rw [ih (found.push site) placed others resolve]
        rfl

/-- A body that is the concatenation of the instructions of a list. -/
def Decomposes (code : Bytes) (instrs : List Instr) : Prop :=
  Placed 0 instrs ∧ code = instrs.flatMap Instr.encode

theorem callSites_iff {pool : ConstantPool} {code : Bytes} {sites : List CallSite} (small : code.length < 2 ^ 62) :
    callSites pool code.toArray = .ok sites ↔
      ∃ instrs, Decomposes code instrs ∧ Resolve pool (references instrs) sites := by
  rw [callSites, map_eq_ok]
  constructor
  · rintro ⟨result, run, rfl⟩
    obtain ⟨instrs, sites, placed, body, resolve, gathered⟩ := callSitesFrom_sound (by simpa using small) run
    refine ⟨instrs, ⟨placed, by simpa using body⟩, ?_⟩
    rw [gathered]
    simpa using resolve
  · rintro ⟨instrs, ⟨placed, body⟩, resolve⟩
    refine ⟨_, callSitesFrom_complete #[] (by simpa using small) placed (by simpa using body) resolve, by simp⟩

/-- The walk over a method body is exact.  It succeeds on the concatenations of instructions, placed from
position 0 on, whose invocations all resolve; the result are the call sites of the invocations in order;
and the decomposition of a body is unique.  Ends of switches are 64-bit numbers; the bodies of a class
file, whose lengths take four bytes, are far below the bound. -/
theorem callSites_exact (pool : ConstantPool) (code : Bytes) (small : code.length < 2 ^ 62) :
    (∀ sites, callSites pool code.toArray = .ok sites ↔
      ∃ instrs, Decomposes code instrs ∧ Resolve pool (references instrs) sites) ∧
    (∀ instrs instrs', Decomposes code instrs → Decomposes code instrs' → instrs = instrs') := by
  refine ⟨fun sites => callSites_iff small, ?_⟩
  rintro instrs instrs' ⟨placed, body⟩ ⟨placed', body'⟩
  exact placed.eq_of_flatMap_eq placed' (body.symm.trans body')

/-- The pool of a class that calls the method `m()V` of `A`. -/
def onePool : ConstantPool :=
  #[.vacant, .methodRef 2 4, .classRef 3, .utf8 [0x41], .nameAndType 5 6, .utf8 [0x6D], .utf8 [0x28, 0x29, 0x56]]

/-- A load, a padded switch with one branch, a call and a return. -/
def switchThenCall : Bytes :=
  [0x1A, 0xAB, 0xFF, 0xFF, 0, 0, 0, 12, 0, 0, 0, 1, 0, 0, 0, 7, 0, 0, 0, 19, 0xB6, 0, 1, 0xB1]

theorem callSites_switchThenCall : switchThenCall.length < 2 ^ 62 ∧
    callSites onePool switchThenCall.toArray = .ok [⟨[0x41], [0x6D, 0x28, 0x29, 0x56]⟩] := by
  have small : switchThenCall.length < 2 ^ 62 := by decide
  have placed : Decomposes switchThenCall
      [.plain 0x1A [], .lookupSwitch [0xFF, 0xFF] 12 [(7, 19)], .plain 0xB6 [0, 1], .plain 0xB1 []] :=
    ⟨by simp [Placed, Instr.Fits, Instr.encode, Instr.Aligns]; decide, by decide⟩
  exact ⟨small, ((callSites_exact onePool switchThenCall small).1 _).2 ⟨_, placed, .cons (by decide) .nil⟩⟩

end JvmCoupling.ClassFile
