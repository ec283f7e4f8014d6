import JvmCoupling.Proofs.ClassFile.Bytecode
import JvmCoupling.Proofs.ClassFile.PoolLayout
import Mathlib.Data.Nat.Bitwise

/-! # The grammar of class files

An abstract syntax of class files, the bytes of each of its phrases, and the class that a file denotes.
Parsing accepts exactly the encodings of files that denote a class, with any bytes behind them, and
returns that class.

* `Grammar.File`, `Grammar.File.encode` — a class file and its bytes;
* `Grammar.File.Denotes` — the class it describes, by the names that its constants give;
* `parse_exact` — parsing against the grammar.
-/

namespace JvmCoupling.ClassFile

namespace Grammar

/-! ## Phrases and their bytes -/

/-- An attribute of a field, or one of a method that holds no code. -/
structure Attribute where
  name : UInt16
  body : Bytes
  fits : body.length < 2 ^ 32

/-- The body of a code attribute.  Behind the code stand its handlers and attributes. -/
structure CodeBody where
  maxStack : UInt16
  maxLocals : UInt16
  code : Bytes
  rest : Bytes
  fits : 8 + code.length + rest.length < 2 ^ 32

/-- An attribute of a method. -/
inductive MethodAttribute where
  | code (name : UInt16) (body : CodeBody)
  | other (plain : Attribute)

structure Field where
  access : UInt16
  name : UInt16
  descriptor : UInt16
  attributes : Table Attribute

structure Method where
  access : UInt16
  name : UInt16
  descriptor : UInt16
  attributes : Table MethodAttribute

/-- A class file.  Its constants fill the declared number of slots; a superclass of 0 is none. -/
structure File where
  minor : UInt16
  major : UInt16
  slots : UInt16
  constants : List Entry
  fills : Fills slots.toNat 1 constants
  access : UInt16
  thisClass : UInt16
  superclass : UInt16
  interfaces : Table UInt16
  fields : Table Field
  methods : Table Method

def Attribute.encode (a : Attribute) : Bytes := u2Bytes a.name ++ (u4Bytes (.ofNat a.body.length) ++ a.body)

def CodeBody.encode (b : CodeBody) : Bytes :=
  (u2Bytes b.maxStack ++ u2Bytes b.maxLocals) ++ ((u4Bytes (.ofNat b.code.length) ++ b.code) ++ b.rest)

/-- A method's attribute as an attribute among others. -/
def MethodAttribute.toAttribute : MethodAttribute → Attribute
  | code name body => ⟨name, body.encode, by
      have fits := body.fits
      simp only [CodeBody.encode, List.length_append, length_u2Bytes, length_u4Bytes]
      omega⟩
  | other plain => plain

def MethodAttribute.encode (a : MethodAttribute) : Bytes := a.toAttribute.encode

def Field.encode (f : Field) : Bytes :=
  (u2Bytes f.access ++ (u2Bytes f.name ++ u2Bytes f.descriptor)) ++ f.attributes.encode Attribute.encode

def Method.encode (m : Method) : Bytes :=
  u2Bytes m.access ++ (u2Bytes m.name ++ (u2Bytes m.descriptor ++ m.attributes.encode MethodAttribute.encode))

/-- The bytes of a class file. -/
def File.encode (f : File) : Bytes :=
  u4Bytes 0xCAFEBABE ++ ((u2Bytes f.minor ++ u2Bytes f.major) ++
    ((u2Bytes f.slots ++ f.constants.flatMap Entry.encode) ++
      (u2Bytes f.access ++ (u2Bytes f.thisClass ++ (u2Bytes f.superclass ++
        (f.interfaces.encode u2Bytes ++ (f.fields.encode Field.encode ++ f.methods.encode Method.encode)))))))

/-! ## What a file denotes -/

/-- The call site behind a reference. -/
def SiteAt (constants : List Entry) : Reference → CallSite → Prop
  | .method index => MethodSiteAt constants index
  | .dynamic index => DynamicSiteAt constants index

/-- The calls in the code of a method: those of its instructions, in order. -/
def Scans (constants : List Entry) (code : Bytes) (calls : List CallSite) : Prop :=
  ∃ instrs, Decomposes code instrs ∧ List.Forall₂ (SiteAt constants) (references instrs) calls

/-- The calls that an attribute of a method contributes.  An attribute holds code if it is named so. -/
def MethodAttribute.Calls (constants : List Entry) : MethodAttribute → List CallSite → Prop
  | code name body, calls => TextAt constants name (utf8 "Code") ∧ Scans constants body.code calls
  | other plain, calls =>
    (∃ text, TextAt constants plain.name text ∧ text ≠ utf8 "Code") ∧ calls = []

/-- The method that a method of a file denotes. -/
structure Method.Denotes (constants : List Entry) (m : Method) (method : JvmCoupling.Method) : Prop where
  name : TextAt constants m.name method.name
  descriptor : TextAt constants m.descriptor method.descriptor
  calls : ∃ calls, List.Forall₂ (MethodAttribute.Calls constants) m.attributes.1 calls ∧
    method.calls = calls.flatten

/-- The dotted name of the class at an index. -/
def DottedNameAt (constants : List Entry) (index : UInt16) (name : Bytes) : Prop :=
  ∃ slashed, ClassNameAt constants index slashed ∧ dotted slashed = name

/-- The class that a file denotes.  The tenth access flag marks interfaces. -/
structure File.Denotes (f : File) (c : ClassInfo) : Prop where
  name : DottedNameAt f.constants f.thisClass c.name
  superclass : if f.superclass = 0 then c.superclass = [] else DottedNameAt f.constants f.superclass c.superclass
  interfaces : List.Forall₂ (DottedNameAt f.constants) f.interfaces.1 c.interfaces
  isInterface : c.isInterface = f.access.toNat.testBit 9
  methods : List.Forall₂ (Method.Denotes f.constants) f.methods.1 c.methods

end Grammar

open Grammar

/-! ## Attributes and fields -/

theorem checked_eq_ok {c : Cursor} : checked c = .ok () ↔ c.Live := by
  rw [← Cursor.fault?_eq_none, checked]
  cases c.fault? <;> simp

theorem exists_u2Bytes_pair {bytes : Bytes} (four : bytes.length = 4) :
    ∃ a b, bytes = u2Bytes a ++ u2Bytes b := by
  obtain ⟨a, front⟩ := exists_u2Bytes (by simp; omega : (bytes.take 2).length = 2)
  obtain ⟨b, back⟩ := exists_u2Bytes (by simp; omega : (bytes.drop 2).length = 2)
  exact ⟨a, b, by rw [← front, ← back, List.take_append_drop]⟩

theorem skipAttribute_reads {c : Cursor} (live : c.skipAttribute.Live) :
    ∃ a : Attribute, c.Reads a.encode c.skipAttribute := by
  obtain ⟨fits, reads⟩ := Cursor.u4_take_reads rfl live
  obtain ⟨bytes, length, readsName⟩ := Cursor.skip_reads reads.live
  obtain ⟨name, rfl⟩ := exists_u2Bytes (by omega : bytes.length = 2)
  exact ⟨⟨name, _, fits⟩, readsName.append reads⟩

theorem skipAttribute_eq {c c' : Cursor} {a : Attribute} (reads : c.Reads a.encode c') : c.skipAttribute = c' := by
  obtain ⟨c₁, readsName, readsBody⟩ := Cursor.reads_append.1 reads
  have skipped : c.skip 2 = c₁ := readsName.skip rfl
  have taken := readsBody.u4_take a.fits
  simp only [Cursor.skipAttribute, skipped]
  rw [Cursor.skip, taken]

theorem skipAttributes_reads {c : Cursor} (live : c.skipAttributes.Live) :
    ∃ attributes : Table Attribute, c.Reads (attributes.encode Attribute.encode) c.skipAttributes := by
  obtain ⟨items, length, reads⟩ := Cursor.skipping_reads Cursor.skipEachAttribute (fun _ => rfl)
    (fun _ _ => rfl) skipAttribute_reads live
  obtain ⟨table, -, reads⟩ := Cursor.table_reads length reads
  exact ⟨table, reads⟩

theorem skipAttributes_eq {c c' : Cursor} {attributes : Table Attribute}
    (reads : c.Reads (attributes.encode Attribute.encode) c') : c.skipAttributes = c' := by
  obtain ⟨count, readsItems⟩ := reads.table
  simp only [Cursor.skipAttributes, count]
  exact Cursor.Reads.skipping Cursor.skipEachAttribute (fun _ => rfl) (fun _ _ => rfl) skipAttribute_eq readsItems

theorem skipField_reads {c : Cursor} (live : (c.skip 6).skipAttributes.Live) :
    ∃ f : Field, c.Reads f.encode (c.skip 6).skipAttributes := by
  obtain ⟨attributes, reads⟩ := skipAttributes_reads live
  obtain ⟨bytes, length, readsHead⟩ := Cursor.skip_reads reads.live
  obtain ⟨access, front⟩ := exists_u2Bytes (by simp; omega : (bytes.take 2).length = 2)
  obtain ⟨name, descriptor, back⟩ := exists_u2Bytes_pair (by simp; omega : (bytes.drop 2).length = 4)
  refine ⟨⟨access, name, descriptor, attributes⟩, ?_⟩
  have head : u2Bytes access ++ (u2Bytes name ++ u2Bytes descriptor) = bytes := by
    rw [← front, ← back, List.take_append_drop]
  rw [Field.encode, head]
  exact readsHead.append reads

theorem skipField_eq {c c' : Cursor} {f : Field} (reads : c.Reads f.encode c') : (c.skip 6).skipAttributes = c' := by
  obtain ⟨c₁, readsHead, readsAttributes⟩ := Cursor.reads_append.1 reads
  have skipped : c.skip 6 = c₁ := readsHead.skip rfl
  rw [skipped, skipAttributes_eq readsAttributes]

/-! ## Code attributes -/

/-- The code inside the body of a code attribute. -/
theorem codeOf_eq_ok {body code : Bytes} (small : body.length < 2 ^ 32) :
    codeOf body = .ok code ↔ ∃ b : CodeBody, b.encode = body ∧ b.code = code := by
  constructor
  · intro run
    unfold codeOf at run
    simp only at run
    generalize taken : (Cursor.skip ⟨body, 0, none⟩ 4).u4.2.take _ = result at run
    obtain ⟨found, c'⟩ := result
    split at run
    · simp at run
    · next unfailed =>
      obtain rfl := Except.ok.inj run
      obtain ⟨-, reads⟩ := Cursor.u4_take_reads taken (Cursor.fault?_eq_none.1 unfailed)
      obtain ⟨bytes, length, readsHead⟩ := Cursor.skip_reads reads.live
      obtain ⟨maxStack, maxLocals, rfl⟩ := exists_u2Bytes_pair (by omega : bytes.length = 4)
      -- what the cursor has not read of the body is the rest
      have whole : body = _ := (readsHead.append reads).rest_eq
      have size := congrArg List.length whole
      simp only [List.length_append, length_u2Bytes, length_u4Bytes] at size
      refine ⟨⟨maxStack, maxLocals, found, c'.rest, by omega⟩, ?_, rfl⟩
      simp only [CodeBody.encode, whole, List.append_assoc]
  · rintro ⟨b, rfl, rfl⟩
    -- the cursor at the start of the body reads it up to the bytes behind the code
    have reads : Cursor.Reads ⟨b.encode, 0, none⟩
        ((u2Bytes b.maxStack ++ u2Bytes b.maxLocals) ++ (u4Bytes (.ofNat b.code.length) ++ b.code))
        ⟨b.rest, 8 + b.code.length, none⟩ :=
      ⟨rfl, by simp [CodeBody.encode], by simp; omega, rfl⟩
    obtain ⟨c₁, readsHead, readsCode⟩ := Cursor.reads_append.1 reads
    have skipped : Cursor.skip ⟨b.encode, 0, none⟩ 4 = c₁ := readsHead.skip rfl
    have fits := b.fits
    have taken := readsCode.u4_take (by omega)
    simp only [codeOf, skipped, taken]
    rfl

/-! ## Reading with a laid out pool -/

/-- One round of reading the attributes of a method. -/
def attributeStep (pool : ConstantPool) (signature : Bytes) (calls : Array CallSite) (c : Cursor) :
    Except ParseError (Array CallSite × Cursor) := do
  let (nameIndex, c) := c.u2
  let name ← outsideCode (pool.text nameIndex)
  let (size, c) := c.u4
  let (body, c) := c.take size.toNat
  if c.failedAt.isSome ∨ name ≠ utf8 "Code" then return (calls, c)
  else
    let found ← callsIn pool signature body
    return (calls ++ found, c)

theorem readAttributes_eq_rounds (pool : ConstantPool) (signature : Bytes) (n : Nat) (calls : Array CallSite)
    (c : Cursor) :
    readAttributes pool signature n calls c = Cursor.rounds (attributeStep pool signature) n calls c := by
  induction n generalizing calls c with
  | zero => rfl
  | succ n ih =>
    simp only [readAttributes, Cursor.rounds, attributeStep, bind_assoc, ih]
    split
    · rfl
    · congr 1
      funext name
      split
      · rfl
      · rw [bind_assoc]
        rfl

/-- One interface of a class. -/
def readInterface (pool : ConstantPool) (c : Cursor) : Except ParseError (Bytes × Cursor) := do
  let (index, c) := c.u2
  let name ← outsideCode (pool.className index)
  return (dotted name, c)

theorem readInterfaces_eq_rounds (pool : ConstantPool) (n : Nat) (names : Array Bytes) (c : Cursor) :
    readInterfaces pool n names c = Cursor.rounds (Cursor.gather (readInterface pool)) n names c := by
  induction n generalizing names c with
  | zero => rfl
  | succ n ih =>
    simp only [readInterfaces, Cursor.rounds, Cursor.gather, readInterface, bind_assoc, ih]
    rfl

theorem readMethods_eq_rounds (pool : ConstantPool) (n : Nat) (methods : Array JvmCoupling.Method) (c : Cursor) :
    readMethods pool n methods c = Cursor.rounds (Cursor.gather (readMethod pool)) n methods c := by
  induction n generalizing methods c with
  | zero => rfl
  | succ n ih =>
    simp only [readMethods, Cursor.rounds, Cursor.gather, bind_assoc, ih]
    rfl

section Pool

variable {count : Nat} {constants : List Entry} (fills : Fills count 1 constants)

include fills

theorem resolve_layout {references : List Reference} {sites : List CallSite} :
    Resolve (layout count constants) references sites ↔ List.Forall₂ (SiteAt constants) references sites := by
  have each : ∀ (reference : Reference) (site : CallSite),
      reference.resolve (layout count constants) = .ok site ↔ SiteAt constants reference site
    | .method index, site => ConstantPool.methodSite_layout fills
    | .dynamic index, site => ConstantPool.dynamicSite_layout fills
  exact ⟨List.Forall₂.imp fun reference site => (each reference site).1,
    List.Forall₂.imp fun reference site => (each reference site).2⟩

/-- The calls in a code attribute of a method. -/
theorem callsIn_eq_ok {signature body : Bytes} {calls : List CallSite} (small : body.length < 2 ^ 32) :
    callsIn (layout count constants) signature body = .ok calls ↔
      ∃ b : CodeBody, b.encode = body ∧ Scans constants b.code calls := by
  simp only [callsIn, bind_eq_ok, outsideCode_eq_ok, mapError_eq_ok, codeOf_eq_ok small]
  constructor
  · rintro ⟨code, ⟨b, encoded, rfl⟩, run⟩
    have fits := b.fits
    obtain ⟨instrs, decomposes, resolve⟩ := (callSites_iff (by omega)).1 run
    exact ⟨b, encoded, instrs, decomposes, (resolve_layout fills).1 resolve⟩
  · rintro ⟨b, encoded, instrs, decomposes, resolve⟩
    have fits := b.fits
    exact ⟨b.code, ⟨b, encoded, rfl⟩, (callSites_iff (by omega)).2
      ⟨instrs, decomposes, (resolve_layout fills).2 resolve⟩⟩

theorem attributeStep_reads {signature : Bytes} {calls calls' : Array CallSite} {c c' : Cursor}
    (run : attributeStep (layout count constants) signature calls c = .ok (calls', c')) (live : c'.Live) :
    ∃ (a : MethodAttribute) (found : List CallSite), c.Reads a.encode c' ∧
      a.Calls constants found ∧ calls'.toList = calls.toList ++ found := by
  simp only [attributeStep, bind_eq_ok, outsideCode_eq_ok, ConstantPool.text_layout fills] at run
  obtain ⟨name, named, run⟩ := run
  generalize taken : c.u2.2.u4.2.take _ = result at run
  obtain ⟨body, c₁⟩ := result
  simp only at run
  split at run
  · next skipped =>
    obtain ⟨rfl, rfl⟩ := Prod.mk.inj (Except.ok.inj run)
    obtain ⟨fits, reads⟩ := Cursor.u4_take_reads taken live
    -- a body that is cut off is passed over too, but then the cursor would not be live
    have other : name ≠ utf8 "Code" := by
      rcases skipped with failed | other
      · rw [Cursor.Live] at live
        simp [live] at failed
      · exact other
    exact ⟨.other ⟨c.u2.1, body, fits⟩, [], (Cursor.u2_reads reads.live).append reads,
      ⟨⟨name, named, other⟩, rfl⟩, by simp⟩
  · next kept =>
    simp only [bind_eq_ok] at run
    obtain ⟨found, scanned, run⟩ := run
    obtain ⟨rfl, rfl⟩ := Prod.mk.inj (Except.ok.inj run)
    obtain ⟨fits, reads⟩ := Cursor.u4_take_reads taken live
    obtain ⟨b, rfl, scans⟩ := (callsIn_eq_ok fills fits).1 scanned
    obtain rfl : name = utf8 "Code" := by simpa using (not_or.1 kept).2
    exact ⟨.code c.u2.1 b, found, (Cursor.u2_reads reads.live).append reads, ⟨named, scans⟩, by simp⟩

theorem attributeStep_eq {signature : Bytes} {calls : Array CallSite} {c c' : Cursor} {a : MethodAttribute}
    {found : List CallSite} (reads : c.Reads a.encode c') (yields : a.Calls constants found) :
    attributeStep (layout count constants) signature calls c = .ok (calls ++ found, c') := by
  have alive : c'.failedAt = none := reads.live_after
  obtain ⟨c₁, readsName, readsBody⟩ := Cursor.reads_append.1 reads
  have taken := readsBody.u4_take a.toAttribute.fits
  cases a with
  | code name body =>
    obtain ⟨named, scans⟩ := yields
    have text := (ConstantPool.text_layout fills).2 named
    have scanned : callsIn (layout count constants) signature body.encode = .ok found :=
      (callsIn_eq_ok fills (MethodAttribute.code name body).toAttribute.fits).2 ⟨body, rfl, scans⟩
    simp only [attributeStep, readsName.u2, MethodAttribute.toAttribute] at text taken ⊢
    simp [text, taken, scanned, alive, outsideCode, Except.mapError]
  | other plain =>
    obtain ⟨⟨name, named, other⟩, rfl⟩ := yields
    have text := (ConstantPool.text_layout fills).2 named
    simp only [attributeStep, readsName.u2, MethodAttribute.toAttribute] at text taken ⊢
    simp [text, taken, other, outsideCode, Except.mapError]
    rfl

/-! ## Methods -/

theorem readMethod_reads {method : JvmCoupling.Method} {c c' : Cursor}
    (run : readMethod (layout count constants) c = .ok (method, c')) (live : c'.Live) :
    ∃ m : Grammar.Method, c.Reads m.encode c' ∧ m.Denotes constants method := by
  simp only [readMethod, bind_eq_ok, outsideCode_eq_ok, ConstantPool.text_layout fills,
    readAttributes_eq_rounds] at run
  obtain ⟨-, -, name, named, descriptor, described, ⟨calls, c₁⟩, attributes, -, -, run⟩ := run
  obtain ⟨rfl, rfl⟩ := Prod.mk.inj (Except.ok.inj run)
  -- from the last read back to the first, a live cursor makes the read in front of it exact
  obtain ⟨items, results, length, readsItems, yields, gathered⟩ :=
    Cursor.rounds_reads (attributeStep_reads fills) attributes live
  obtain ⟨table, rfl, readsTable⟩ := Cursor.table_reads length readsItems
  have readsDescriptor := Cursor.u2_reads readsTable.live
  have readsName := Cursor.u2_reads readsDescriptor.live
  obtain ⟨bytes, width, readsAccess⟩ := Cursor.skip_reads readsName.live
  obtain ⟨access, rfl⟩ := exists_u2Bytes (by omega : bytes.length = 2)
  exact ⟨⟨access, _, _, table⟩, readsAccess.append (readsName.append (readsDescriptor.append readsTable)),
    named, described, results, yields, by simpa using gathered⟩

theorem readMethod_eq {m : Grammar.Method} {method : JvmCoupling.Method} {c c' : Cursor}
    (reads : c.Reads m.encode c') (denotes : m.Denotes constants method) :
    readMethod (layout count constants) c = .ok (method, c') := by
  obtain ⟨c₁, readsAccess, reads⟩ := Cursor.reads_append.1 reads
  obtain ⟨c₂, readsName, reads⟩ := Cursor.reads_append.1 reads
  obtain ⟨c₃, readsDescriptor, readsTable⟩ := Cursor.reads_append.1 reads
  obtain ⟨name, descriptor, calls⟩ := method
  obtain ⟨named, described, results, yields, rfl⟩ := denotes
  obtain ⟨length, readsItems⟩ := readsTable.table
  have skipped : c.skip 2 = c₁ := readsAccess.skip rfl
  have attributes : Cursor.rounds (attributeStep (layout count constants) (name ++ descriptor))
      m.attributes.1.length #[] c₃.u2.2 = .ok (#[] ++ results.flatten, c') :=
    Cursor.Reads.rounds (attributeStep_eq fills) #[] readsItems yields
  simp only [readMethod, skipped, readsName.u2, readsDescriptor.u2, checked_eq_ok.2 readsTable.live,
    outsideCode_eq_ok.2 ((ConstantPool.text_layout fills).2 named),
    outsideCode_eq_ok.2 ((ConstantPool.text_layout fills).2 described), ok_bind, readAttributes_eq_rounds,
    length, attributes, checked_eq_ok.2 readsTable.live_after]
  simp [pure, Except.pure]

theorem readMethods_reads {n : Nat} {methods : Array JvmCoupling.Method} {c c' : Cursor}
    (run : readMethods (layout count constants) n #[] c = .ok (methods, c')) (live : c'.Live) :
    ∃ items : List Grammar.Method, items.length = n ∧ c.Reads (items.flatMap Grammar.Method.encode) c' ∧
      List.Forall₂ (Grammar.Method.Denotes constants) items methods.toList := by
  rw [readMethods_eq_rounds] at run
  exact Cursor.gather_reads (readMethod_reads fills) run live

theorem readMethods_eq {items : List Grammar.Method} {methods : List JvmCoupling.Method} {c c' : Cursor}
    (reads : c.Reads (items.flatMap Grammar.Method.encode) c')
    (denotes : List.Forall₂ (Grammar.Method.Denotes constants) items methods) :
    readMethods (layout count constants) items.length #[] c = .ok (methods.toArray, c') := by
  rw [readMethods_eq_rounds]
  exact Cursor.Reads.gather (readMethod_eq fills) reads denotes

/-! ## Names of ancestors -/

theorem readInterfaces_reads {n : Nat} {names : Array Bytes} {c c' : Cursor}
    (run : readInterfaces (layout count constants) n #[] c = .ok (names, c')) (live : c'.Live) :
    ∃ indices : List UInt16, indices.length = n ∧ c.Reads (indices.flatMap u2Bytes) c' ∧
      List.Forall₂ (DottedNameAt constants) indices names.toList := by
  rw [readInterfaces_eq_rounds] at run
  refine Cursor.gather_reads ?_ run live
  intro c name c' run live
  simp only [readInterface, bind_eq_ok, outsideCode_eq_ok, ConstantPool.className_layout fills] at run
  obtain ⟨slashed, named, run⟩ := run
  obtain ⟨rfl, rfl⟩ := Prod.mk.inj (Except.ok.inj run)
  exact ⟨c.u2.1, Cursor.u2_reads live, slashed, named, rfl⟩

theorem readInterfaces_eq {indices : List UInt16} {names : List Bytes} {c c' : Cursor}
    (reads : c.Reads (indices.flatMap u2Bytes) c')
    (named : List.Forall₂ (DottedNameAt constants) indices names) :
    readInterfaces (layout count constants) indices.length #[] c = .ok (names.toArray, c') := by
  rw [readInterfaces_eq_rounds]
  refine Cursor.Reads.gather ?_ reads named
  rintro c c' index - reads ⟨slashed, named, rfl⟩
  simp only [readInterface, reads.u2, outsideCode_eq_ok.2 ((ConstantPool.className_layout fills).2 named), ok_bind]
  rfl

theorem superclassName_eq_ok {index : UInt16} {name : Bytes} :
    superclassName (layout count constants) index = .ok name ↔
      if index = 0 then name = [] else DottedNameAt constants index name := by
  unfold superclassName
  split
  · simp [eq_comm]
  · simp only [outsideCode_eq_ok, map_eq_ok, ConstantPool.className_layout fills, DottedNameAt]

end Pool

/-! ## Files -/

theorem skipFields_reads {n : Nat} {c : Cursor} (live : (skipFields n c).Live) :
    ∃ fields : List Field, fields.length = n ∧ c.Reads (fields.flatMap Field.encode) (skipFields n c) :=
  Cursor.skipping_reads skipFields (fun _ => rfl) (fun _ _ => rfl) skipField_reads live

theorem skipFields_eq {fields : List Field} {c c' : Cursor} (reads : c.Reads (fields.flatMap Field.encode) c') :
    skipFields fields.length c = c' :=
  Cursor.Reads.skipping skipFields (fun _ => rfl) (fun _ _ => rfl) skipField_eq reads

theorem readMagic_reads {c c' : Cursor} (run : readMagic c = .ok c') (live : c'.Live) :
    c.Reads (u4Bytes magic) c' := by
  unfold readMagic at run
  simp only at run
  split at run
  · next word =>
    obtain rfl := Except.ok.inj run
    rw [← word]
    exact Cursor.u4_reads live
  · simp at run

theorem readMagic_eq {c c' : Cursor} (reads : c.Reads (u4Bytes magic) c') : readMagic c = .ok c' := by
  simp [readMagic, reads.u4]

theorem hasInterfaceFlag_eq (access : UInt16) :
    decide (access &&& interfaceFlag ≠ 0) = access.toNat.testBit 9 := by
  have bit : access &&& interfaceFlag = 0 ↔ access.toNat.testBit 9 = false := by
    rw [← UInt16.toNat_inj, UInt16.toNat_and]
    have flag : interfaceFlag.toNat = 2 ^ 9 := by decide
    rw [flag, Nat.and_two_pow]
    cases access.toNat.testBit 9 <;> simp
  rw [Bool.eq_iff_iff]
  simp [bit]

theorem parse_sound {data : Bytes} {c : ClassInfo} (run : parse data = .ok c) :
    ∃ (f : File) (trailing : Bytes), data = f.encode ++ trailing ∧ f.Denotes c := by
  simp only [parse, bind_eq_ok, outsideCode_eq_ok] at run
  obtain ⟨c₁, magicRun, ⟨pool, c₂⟩, poolRun, ⟨⟩, headed, slashed, named, superclass, superRun, ⟨interfaces, c₃⟩,
    interfacesRun, ⟨methods, c₄⟩, methodsRun, ⟨⟩, ended, run⟩ := run
  obtain rfl := Except.ok.inj run
  simp only at poolRun headed named superRun interfacesRun methodsRun
  -- the check behind the pool makes everything up to it exact, and lays the pool out
  have readsSuper := Cursor.u2_reads (checked_eq_ok.1 headed)
  have readsThis := Cursor.u2_reads readsSuper.live
  have readsAccess := Cursor.u2_reads readsThis.live
  obtain ⟨slots, constants, fills, readsPool, rfl⟩ := ConstantPool.read_reads poolRun readsAccess.live
  obtain ⟨bytes, width, readsVersion⟩ := Cursor.skip_reads readsPool.live
  obtain ⟨minor, major, rfl⟩ := exists_u2Bytes_pair (by omega : bytes.length = 4)
  have readsMagic := readMagic_reads magicRun readsVersion.live
  -- the check at the end does so for the tables
  obtain ⟨methodItems, methodCount, readsMethodItems, denotes⟩ :=
    readMethods_reads fills methodsRun (checked_eq_ok.1 ended)
  obtain ⟨methodTable, rfl, readsMethods⟩ := Cursor.table_reads methodCount readsMethodItems
  obtain ⟨fields, fieldCount, readsFieldItems⟩ := skipFields_reads readsMethods.live
  obtain ⟨fieldTable, -, readsFields⟩ := Cursor.table_reads fieldCount readsFieldItems
  obtain ⟨indices, indexCount, readsIndices, interfacesNamed⟩ :=
    readInterfaces_reads fills interfacesRun readsFields.live
  obtain ⟨interfaceTable, rfl, readsInterfaces⟩ := Cursor.table_reads indexCount readsIndices
  have whole := readsMagic.append (readsVersion.append (readsPool.append (readsAccess.append (readsThis.append
    (readsSuper.append (readsInterfaces.append (readsFields.append readsMethods)))))))
  exact ⟨⟨minor, major, slots, constants, fills, _, _, _, interfaceTable, fieldTable, methodTable⟩, c₄.rest,
    whole.rest_eq, ⟨slashed, (ConstantPool.className_layout fills).1 named, rfl⟩,
    (superclassName_eq_ok fills).1 superRun, interfacesNamed, hasInterfaceFlag_eq _, denotes⟩

theorem parse_complete {f : File} {c : ClassInfo} (denotes : f.Denotes c) (trailing : Bytes) :
    parse (f.encode ++ trailing) = .ok c := by
  have reads : Cursor.Reads ⟨f.encode ++ trailing, 0, none⟩ f.encode ⟨trailing, f.encode.length, none⟩ :=
    ⟨rfl, rfl, (Nat.zero_add _).symm, rfl⟩
  obtain ⟨c₁, readsMagic, reads⟩ := Cursor.reads_append.1 reads
  obtain ⟨c₂, readsVersion, reads⟩ := Cursor.reads_append.1 reads
  obtain ⟨c₃, readsPool, reads⟩ := Cursor.reads_append.1 reads
  obtain ⟨c₄, readsAccess, reads⟩ := Cursor.reads_append.1 reads
  obtain ⟨c₅, readsThis, reads⟩ := Cursor.reads_append.1 reads
  obtain ⟨c₆, readsSuper, reads⟩ := Cursor.reads_append.1 reads
  obtain ⟨c₇, readsInterfaces, reads⟩ := Cursor.reads_append.1 reads
  obtain ⟨c₈, readsFields, readsMethods⟩ := Cursor.reads_append.1 reads
  obtain ⟨interfaceCount, readsIndices⟩ := readsInterfaces.table
  obtain ⟨fieldCount, readsFieldItems⟩ := readsFields.table
  obtain ⟨methodCount, readsMethodItems⟩ := readsMethods.table
  obtain ⟨name, superclass, interfaces, isInterface, methods⟩ := c
  obtain ⟨⟨slashed, named, rfl⟩, super, interfacesNamed, rfl, methodsDenote⟩ := denotes
  have fills := f.fills
  have magicRun : readMagic ⟨f.encode ++ trailing, 0, none⟩ = .ok c₁ := readMagic_eq readsMagic
  have skipped : c₁.skip 4 = c₂ := readsVersion.skip rfl
  have poolRun := ConstantPool.read_eq fills readsPool
  have nameRun := (ConstantPool.className_layout fills).2 named
  have superRun := (superclassName_eq_ok fills).2 super
  have interfacesRun := readInterfaces_eq fills readsIndices interfacesNamed
  have fieldsRun := skipFields_eq readsFieldItems
  have methodsRun := readMethods_eq fills readsMethodItems methodsDenote
  simp only [parse, magicRun, skipped, outsideCode_eq_ok.2 poolRun, ok_bind, readsAccess.u2, readsThis.u2,
    readsSuper.u2, checked_eq_ok.2 readsSuper.live_after, outsideCode_eq_ok.2 nameRun, superRun, interfaceCount,
    interfacesRun, fieldCount, fieldsRun, methodCount, methodsRun, checked_eq_ok.2 readsMethods.live_after,
    hasInterfaceFlag_eq]
  rfl

/-- Parsing accepts exactly the encodings of files that denote a class, whatever stands behind them, and
returns that class. -/
theorem parse_exact (data : Bytes) (c : ClassInfo) :
    parse data = .ok c ↔ ∃ (f : File) (trailing : Bytes), data = f.encode ++ trailing ∧ f.Denotes c := by
  constructor
  · exact parse_sound
  · rintro ⟨f, trailing, rfl, denotes⟩
    exact parse_complete denotes trailing

end JvmCoupling.ClassFile
