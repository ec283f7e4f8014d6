import JvmCoupling.Proofs.ClassFile.Grammar

/-! # Guarded reads

A read outside a table is a fault of its own, `Fault.outOfBounds`.  This module shows that no class file
leads to it: in front of every read stands a check that suffices, or the read comes after a step that has
made the check.

* `Fault.IsDefect` — every fault but a read outside a table;
* `OnlyRaises` — all errors of a computation satisfy a predicate;
* `onlyRaises_callSites` — the walk over a method body stays inside the body and the pool;
* `onlyRaises_parse` — so does the whole parser.
-/

namespace JvmCoupling.ClassFile

/-- A defect of the file, not a read outside a table. -/
def Fault.IsDefect : Fault → Prop
  | .outOfBounds _ => False
  | _ => True

def ParseError.IsDefect (e : ParseError) : Prop := e.fault.IsDefect

theorem Cursor.isDefect_of_fault? {c : Cursor} {fault : Fault} (failed : c.fault? = some fault) : fault.IsDefect := by
  obtain ⟨offset, -, rfl⟩ := Option.map_eq_some_iff.1 failed
  trivial

/-- The failure of a cursor goes before another defect. -/
theorem Cursor.isDefect_getD (c : Cursor) {fault : Fault} (defect : fault.IsDefect) :
    (c.fault?.getD fault).IsDefect := by
  cases failed : c.fault? with
  | none => exact defect
  | some fault => exact isDefect_of_fault? failed

/-! ## The errors of a computation -/

/-- All errors of a computation satisfy a predicate. -/
def OnlyRaises {ε α : Type} (P : ε → Prop) (x : Except ε α) : Prop := ∀ e, x = .error e → P e

section OnlyRaises

variable {ε ε' α β : Type} {P : ε → Prop} {Q : ε' → Prop}

@[simp] theorem onlyRaises_ok (a : α) : OnlyRaises P (.ok a) := nofun

@[simp] theorem onlyRaises_pure (a : α) : OnlyRaises P (pure a : Except ε α) := nofun

@[simp] theorem onlyRaises_error {e : ε} : OnlyRaises P (.error e : Except ε α) ↔ P e := by
  simp [OnlyRaises]

/-- The second part of a sequence runs on what the first part returns. -/
theorem OnlyRaises.bind {x : Except ε α} {f : α → Except ε β} (first : OnlyRaises P x)
    (second : ∀ a, x = .ok a → OnlyRaises P (f a)) : OnlyRaises P (x >>= f) := by
  cases x with
  | error e => exact onlyRaises_error.2 (onlyRaises_error.1 first)
  | ok a => exact second a rfl

theorem OnlyRaises.map {x : Except ε α} (raises : OnlyRaises P x) (f : α → β) : OnlyRaises P (x.map f) := by
  cases x with
  | error e => exact onlyRaises_error.2 (onlyRaises_error.1 raises)
  | ok a => exact onlyRaises_ok _

theorem OnlyRaises.mapError {x : Except ε α} {f : ε → ε'} (raises : OnlyRaises P x) (keeps : ∀ e, P e → Q (f e)) :
    OnlyRaises Q (x.mapError f) := by
  cases x with
  | error e => exact onlyRaises_error.2 (keeps e (onlyRaises_error.1 raises))
  | ok a => exact onlyRaises_ok _

theorem OnlyRaises.outsideCode {x : Except Fault α} (raises : OnlyRaises Fault.IsDefect x) :
    OnlyRaises ParseError.IsDefect (ClassFile.outsideCode x) :=
  raises.mapError fun _ defect => defect

end OnlyRaises

/-! ## Reads in a method body -/

section Code

variable {code : Code} {pc : Nat}

theorem Code.exists_byteAt (code : Code) (i : Nat) (inside : i < code.size) : ∃ b, code.byteAt i = .ok b :=
  ⟨code[i], by simp [byteAt, inside]⟩

theorem Code.exists_indexAt (code : Code) (i : Nat) (inside : i + 1 < code.size) : ∃ x, code.indexAt i = .ok x := by
  obtain ⟨a, first⟩ := code.exists_byteAt i (by omega)
  obtain ⟨b, second⟩ := code.exists_byteAt (i + 1) inside
  exact ⟨.ofNat (bigEndian [a, b]), by simp only [indexAt, first, second, ok_bind]; rfl⟩

theorem Code.exists_signedAt (code : Code) (i : Nat) (inside : i + 3 < code.size) : ∃ x, code.signedAt i = .ok x := by
  obtain ⟨a, first⟩ := code.exists_byteAt i (by omega)
  obtain ⟨b, second⟩ := code.exists_byteAt (i + 1) (by omega)
  obtain ⟨c, third⟩ := code.exists_byteAt (i + 2) (by omega)
  obtain ⟨d, fourth⟩ := code.exists_byteAt (i + 3) inside
  exact ⟨_, by simp only [signedAt, first, second, third, fourth, ok_bind]; rfl⟩

theorem onlyRaises_switchLength (stop : Int64) : OnlyRaises Fault.IsDefect (switchLength code pc stop) := by
  unfold switchLength
  split
  · exact onlyRaises_error.2 trivial
  · exact onlyRaises_ok _

theorem onlyRaises_tableSwitchLength : OnlyRaises Fault.IsDefect (tableSwitchLength code pc) := by
  unfold tableSwitchLength
  dsimp only
  split
  · exact onlyRaises_error.2 trivial
  · next enough =>
    -- the keys are the last eight of the twelve bytes
    obtain ⟨low, lowRead⟩ := code.exists_signedAt (switchOperands pc + 4) (by omega)
    obtain ⟨high, highRead⟩ := code.exists_signedAt (switchOperands pc + 8) (by omega)
    rw [lowRead, ok_bind, highRead, ok_bind]
    split
    · exact onlyRaises_error.2 trivial
    · exact onlyRaises_switchLength _

theorem onlyRaises_lookupSwitchLength : OnlyRaises Fault.IsDefect (lookupSwitchLength code pc) := by
  unfold lookupSwitchLength
  dsimp only
  split
  · exact onlyRaises_error.2 trivial
  · next enough =>
    obtain ⟨pairs, pairsRead⟩ := code.exists_signedAt (switchOperands pc + 4) (by omega)
    rw [pairsRead, ok_bind]
    split
    · exact onlyRaises_error.2 trivial
    · exact onlyRaises_switchLength _

theorem onlyRaises_wideLength : OnlyRaises Fault.IsDefect (wideLength code pc) := by
  unfold wideLength
  split
  · exact onlyRaises_error.2 trivial
  · next enough =>
    obtain ⟨widened, read⟩ := code.exists_byteAt (pc + 1) (by omega)
    rw [read, ok_bind]
    exact onlyRaises_pure _

theorem onlyRaises_instructionLength (inside : pc < code.size) :
    OnlyRaises Fault.IsDefect (instructionLength code pc) := by
  obtain ⟨op, read⟩ := code.exists_byteAt pc inside
  unfold instructionLength
  rw [read, ok_bind]
  split
  · exact onlyRaises_tableSwitchLength
  split
  · exact onlyRaises_lookupSwitchLength
  split
  · exact onlyRaises_wideLength
  split
  · exact onlyRaises_ok _
  · exact onlyRaises_error.2 trivial

theorem three_le_of_invocation {op : UInt8} {n : Nat} (read : code.byteAt pc = .ok op)
    (invokes : op ∈ [Opcode.invokevirtual, Opcode.invokespecial, Opcode.invokestatic, Opcode.invokeinterface,
      Opcode.invokedynamic])
    (length : instructionLength code pc = .ok n) : 3 ≤ n := by
  have operands : ∀ op ∈ [Opcode.invokevirtual, Opcode.invokespecial, Opcode.invokestatic, Opcode.invokeinterface,
      Opcode.invokedynamic], op ≠ Opcode.tableswitch ∧ op ≠ Opcode.lookupswitch ∧ op ≠ Opcode.wide ∧
      (operandBytes? op = some 2 ∨ operandBytes? op = some 4) := by decide +kernel
  -- so the length is the fixed one, with an operand of two bytes at least
  obtain ⟨noTable, noLookup, noWide, fixed⟩ := operands op invokes
  rw [instructionLength, read, ok_bind, if_neg noTable, if_neg noLookup, if_neg noWide] at length
  rcases fixed with two | four
  · rw [two] at length
    obtain rfl := Except.ok.inj length
    omega
  · rw [four] at length
    obtain rfl := Except.ok.inj length
    omega

end Code

/-! ## Reads in the constant pool -/

namespace ConstantPool

variable {pool : ConstantPool}

theorem onlyRaises_constant (index : UInt16) : OnlyRaises Fault.IsDefect (pool.constant index) := by
  unfold constant
  split
  · exact onlyRaises_error.2 trivial
  · next checked =>
    have inside : index.toNat < pool.size := by
      by_contra outside
      exact checked (.inr (by omega))
    rw [Array.getElem?_eq_getElem inside]
    exact onlyRaises_ok _

theorem onlyRaises_text (index : UInt16) : OnlyRaises Fault.IsDefect (pool.text index) := by
  refine (onlyRaises_constant index).bind fun constant _ => ?_
  split
  · exact onlyRaises_ok _
  · exact onlyRaises_error.2 trivial

theorem onlyRaises_className (index : UInt16) : OnlyRaises Fault.IsDefect (pool.className index) := by
  refine (onlyRaises_constant index).bind fun constant _ => ?_
  split
  · exact onlyRaises_text _
  · exact onlyRaises_error.2 trivial

theorem onlyRaises_nameAndType (index : UInt16) : OnlyRaises Fault.IsDefect (pool.nameAndType index) := by
  refine (onlyRaises_constant index).bind fun constant _ => ?_
  split
  · exact (onlyRaises_text _).bind fun _ _ => (onlyRaises_text _).bind fun _ _ => onlyRaises_ok _
  · exact onlyRaises_error.2 trivial

theorem onlyRaises_memberSite (owner member : UInt16) :
    OnlyRaises Fault.IsDefect (pool.memberSite owner member) := by
  refine (onlyRaises_className owner).bind fun _ _ => (onlyRaises_nameAndType member).bind fun _ _ => ?_
  split
  · exact onlyRaises_ok _
  · exact onlyRaises_ok _

theorem onlyRaises_methodSite (index : UInt16) : OnlyRaises Fault.IsDefect (pool.methodSite index) := by
  refine (onlyRaises_constant index).bind fun constant _ => ?_
  split
  · exact onlyRaises_memberSite _ _
  · exact onlyRaises_memberSite _ _
  · exact onlyRaises_error.2 trivial

theorem onlyRaises_dynamicSite (index : UInt16) : OnlyRaises Fault.IsDefect (pool.dynamicSite index) := by
  refine (onlyRaises_constant index).bind fun constant _ => ?_
  split
  · exact (onlyRaises_nameAndType _).bind fun _ _ => onlyRaises_pure _
  · exact onlyRaises_error.2 trivial

/-- The slots come from the cursor, whose failures are defects, and are added at the end of the pool. -/
theorem onlyRaises_readSlots (count : Nat) (slots : ConstantPool) (c : Cursor) :
    OnlyRaises Fault.IsDefect (readSlots count slots c) := by
  fun_induction readSlots count slots c with
  | case1 slots c _ tag c₁ _ unknown => exact onlyRaises_error.2 (c₁.isDefect_getD trivial)
  | case2 slots c _ tag c₁ _ constant c₂ _ wide more ih => exact ih
  | case3 => exact onlyRaises_ok _
  | case4 slots c _ tag c₁ _ constant c₂ _ _ fault failed =>
    exact onlyRaises_error.2 (Cursor.isDefect_of_fault? failed)
  | case5 slots c _ tag c₁ _ constant c₂ _ _ _ ih => exact ih
  | case6 => exact onlyRaises_ok _

theorem onlyRaises_read (c : Cursor) : OnlyRaises Fault.IsDefect (read c) := by
  unfold read
  dsimp only
  split
  · next fault failed => exact onlyRaises_error.2 (Cursor.isDefect_of_fault? failed)
  · exact onlyRaises_readSlots _ _ _

end ConstantPool

/-! ## The walk over a method body -/

section Walk

variable {pool : ConstantPool} {code : Code} {pc : Nat}

/-- The index of an invocation is read after the length of the instruction has been checked against the
code. -/
theorem onlyRaises_callAt {n : Nat} (length : instructionLength code pc = .ok n) (positive : 0 < n)
    (fits : pc + n ≤ code.size) : OnlyRaises Fault.IsDefect (callAt pool code pc) := by
  obtain ⟨op, read⟩ := code.exists_byteAt pc (by omega)
  unfold callAt
  rw [read, ok_bind]
  split
  · next invokes =>
    have long : 3 ≤ n := three_le_of_invocation read (by simp only [List.mem_cons]; grind) length
    obtain ⟨index, indexRead⟩ := code.exists_indexAt (pc + 1) (by omega)
    rw [indexRead, ok_bind]
    exact (ConstantPool.onlyRaises_methodSite index).bind fun _ _ => onlyRaises_pure _
  split
  · next invokes =>
    have long : 3 ≤ n := three_le_of_invocation read (by simp only [List.mem_cons]; grind) length
    obtain ⟨index, indexRead⟩ := code.exists_indexAt (pc + 1) (by omega)
    rw [indexRead, ok_bind]
    exact (ConstantPool.onlyRaises_dynamicSite index).bind fun _ _ => onlyRaises_pure _
  · exact onlyRaises_pure _

theorem onlyRaises_callSitesFrom (pc : Nat) (found : Array CallSite) :
    OnlyRaises Fault.IsDefect (callSitesFrom pool code pc found) := by
  fun_induction callSitesFrom pool code pc found with
  | case1 pc found inside fault failed =>
    exact onlyRaises_error.2 (onlyRaises_instructionLength inside fault failed)
  | case2 pc found inside n length fits fault failed =>
    exact onlyRaises_error.2 (onlyRaises_callAt length fits.1 fits.2 fault failed)
  | case3 pc found inside n length fits noCall ih => exact ih
  | case4 pc found inside n length fits site call ih => exact ih
  | case5 => exact onlyRaises_error.2 trivial
  | case6 => exact onlyRaises_ok _

theorem onlyRaises_callSites : OnlyRaises Fault.IsDefect (callSites pool code) :=
  (onlyRaises_callSitesFrom 0 #[]).map _

end Walk

/-! ## The parser -/

theorem onlyRaises_checked (c : Cursor) : OnlyRaises ParseError.IsDefect (checked c) := by
  unfold checked
  split
  · next fault failed => exact onlyRaises_error.2 (Cursor.isDefect_of_fault? failed)
  · exact onlyRaises_ok _

theorem onlyRaises_codeOf (body : Bytes) : OnlyRaises Fault.IsDefect (codeOf body) := by
  unfold codeOf
  dsimp only
  split
  · next fault failed => exact onlyRaises_error.2 (Cursor.isDefect_of_fault? failed)
  · exact onlyRaises_ok _

/-- A loop raises what its rounds raise. -/
theorem onlyRaises_rounds {ε β : Type} {P : ε → Prop} {step : Array β → Cursor → Except ε (Array β × Cursor)}
    (raises : ∀ found c, OnlyRaises P (step found c)) (n : Nat) (found : Array β) (c : Cursor) :
    OnlyRaises P (Cursor.rounds step n found c) := by
  induction n generalizing found c with
  | zero => exact onlyRaises_ok _
  | succ n ih =>
    rw [Cursor.rounds]
    split
    · exact onlyRaises_ok _
    · exact (raises found c).bind fun _ _ => ih _ _

theorem onlyRaises_gather {ε β : Type} {P : ε → Prop} {read : Cursor → Except ε (β × Cursor)}
    (raises : ∀ c, OnlyRaises P (read c)) (found : Array β) (c : Cursor) :
    OnlyRaises P (Cursor.gather read found c) :=
  (raises c).bind fun _ _ => onlyRaises_pure _

section Parser

variable (pool : ConstantPool)

theorem onlyRaises_callsIn (signature body : Bytes) :
    OnlyRaises ParseError.IsDefect (callsIn pool signature body) :=
  (onlyRaises_codeOf body).outsideCode.bind fun _ _ => onlyRaises_callSites.mapError fun _ defect => defect

theorem onlyRaises_attributeStep (signature : Bytes) (calls : Array CallSite) (c : Cursor) :
    OnlyRaises ParseError.IsDefect (attributeStep pool signature calls c) := by
  unfold attributeStep
  dsimp only
  refine (ConstantPool.onlyRaises_text _).outsideCode.bind fun name _ => ?_
  split
  · exact onlyRaises_pure _
  · exact (onlyRaises_callsIn pool _ _).bind fun _ _ => onlyRaises_pure _

theorem onlyRaises_readMethod (c : Cursor) : OnlyRaises ParseError.IsDefect (readMethod pool c) := by
  unfold readMethod
  dsimp only
  refine (onlyRaises_checked _).bind fun _ _ => (ConstantPool.onlyRaises_text _).outsideCode.bind fun name _ =>
    (ConstantPool.onlyRaises_text _).outsideCode.bind fun descriptor _ => ?_
  rw [readAttributes_eq_rounds]
  exact (onlyRaises_rounds (onlyRaises_attributeStep pool _) _ _ _).bind fun _ _ =>
    (onlyRaises_checked _).bind fun _ _ => onlyRaises_pure _

theorem onlyRaises_readInterface (c : Cursor) : OnlyRaises ParseError.IsDefect (readInterface pool c) :=
  (ConstantPool.onlyRaises_className _).outsideCode.bind fun _ _ => onlyRaises_pure _

theorem onlyRaises_superclassName (index : UInt16) : OnlyRaises ParseError.IsDefect (superclassName pool index) := by
  unfold superclassName
  split
  · exact onlyRaises_ok _
  · exact ((ConstantPool.onlyRaises_className index).map _).outsideCode

end Parser

theorem onlyRaises_readMagic (c : Cursor) : OnlyRaises ParseError.IsDefect (readMagic c) := by
  unfold readMagic
  dsimp only
  split
  · exact onlyRaises_ok _
  · exact onlyRaises_error.2 (c.u4.2.isDefect_getD trivial)

/-- No class file leads to a read outside a table. -/
theorem onlyRaises_parse (data : Bytes) : OnlyRaises ParseError.IsDefect (parse data) := by
  unfold parse
  dsimp only
  refine (onlyRaises_readMagic _).bind fun c _ => (ConstantPool.onlyRaises_read _).outsideCode.bind fun (pool, c) _ =>
    (onlyRaises_checked _).bind fun _ _ => (ConstantPool.onlyRaises_className _).outsideCode.bind fun name _ =>
    (onlyRaises_superclassName pool _).bind fun superclass _ => ?_
  dsimp only
  rw [readInterfaces_eq_rounds]
  refine (onlyRaises_rounds (onlyRaises_gather (onlyRaises_readInterface pool)) _ _ _).bind fun _ _ => ?_
  rw [readMethods_eq_rounds]
  exact (onlyRaises_rounds (onlyRaises_gather (onlyRaises_readMethod pool)) _ _ _).bind fun _ _ =>
    (onlyRaises_checked _).bind fun _ _ => onlyRaises_pure _

end JvmCoupling.ClassFile
