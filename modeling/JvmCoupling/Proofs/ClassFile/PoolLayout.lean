import JvmCoupling.Proofs.ClassFile.Reading

/-! # The layout of a constant pool

The constants of a class file stand one after the other, without a mark of the slot they belong to.  This
module gives them a syntax of their own, with everything that a file stores about them, and says which
slot each one takes.  Reading a pool accepts exactly the encodings of constants that fill the declared
number of slots, and a name behind an index is the one that the constants give.

* `Entry`, `Entry.encode` — a constant with its payload, and its bytes;
* `Fills`, `entryAt` — how constants fill a table of slots, and which one starts at a slot;
* `TextAt`, `ClassNameAt`, `MethodSiteAt`, `DynamicSiteAt` — names and call sites behind an index;
* `ConstantPool.read_reads`, `ConstantPool.read_eq` — the pool at a cursor.
-/

namespace JvmCoupling.ClassFile

/-! ## Constants with their payload -/

/-- A constant as it stands in a file. -/
inductive Entry where
  | utf8 (text : Bytes) (fits : text.length < 2 ^ 16)
  | integer (bits : UInt32)
  | float (bits : UInt32)
  | long (high low : UInt32)
  | double (high low : UInt32)
  | classRef (name : UInt16)
  | string (text : UInt16)
  | fieldRef (owner nameAndType : UInt16)
  | methodRef (owner nameAndType : UInt16)
  | interfaceMethodRef (owner nameAndType : UInt16)
  | nameAndType (name descriptor : UInt16)
  | methodHandle (kind : UInt8) (reference : UInt16)
  | methodType (descriptor : UInt16)
  | dynamic (bootstrap nameAndType : UInt16)
  | invokeDynamic (bootstrap nameAndType : UInt16)
  | moduleRef (name : UInt16)
  | packageRef (name : UInt16)

namespace Entry

/-- The bytes of a constant: its tag and its payload. -/
def encode : Entry → Bytes
  | utf8 text _ => 1 :: (u2Bytes (.ofNat text.length) ++ text)
  | integer bits => 3 :: u4Bytes bits
  | float bits => 4 :: u4Bytes bits
  | long high low => 5 :: (u4Bytes high ++ u4Bytes low)
  | double high low => 6 :: (u4Bytes high ++ u4Bytes low)
  | classRef name => 7 :: u2Bytes name
  | string text => 8 :: u2Bytes text
  | fieldRef owner member => 9 :: (u2Bytes owner ++ u2Bytes member)
  | methodRef owner member => 10 :: (u2Bytes owner ++ u2Bytes member)
  | interfaceMethodRef owner member => 11 :: (u2Bytes owner ++ u2Bytes member)
  | nameAndType name descriptor => 12 :: (u2Bytes name ++ u2Bytes descriptor)
  | methodHandle kind reference => 15 :: kind :: u2Bytes reference
  | methodType descriptor => 16 :: u2Bytes descriptor
  | dynamic bootstrap member => 17 :: (u2Bytes bootstrap ++ u2Bytes member)
  | invokeDynamic bootstrap member => 18 :: (u2Bytes bootstrap ++ u2Bytes member)
  | moduleRef name => 19 :: u2Bytes name
  | packageRef name => 20 :: u2Bytes name

/-- The number of slots that a constant takes. -/
def width : Entry → Nat
  | long _ _ | double _ _ => 2
  | _ => 1

/-- What the pool keeps of a constant. -/
def constant : Entry → Constant
  | utf8 text _ => .utf8 text
  | integer _ => .integer
  | float _ => .float
  | long _ _ => .long
  | double _ _ => .double
  | classRef name => .classRef name
  | string text => .string text
  | fieldRef owner member => .fieldRef owner member
  | methodRef owner member => .methodRef owner member
  | interfaceMethodRef owner member => .interfaceMethodRef owner member
  | nameAndType name descriptor => .nameAndType name descriptor
  | methodHandle _ reference => .methodHandle reference
  | methodType descriptor => .methodType descriptor
  | dynamic bootstrap member => .dynamic bootstrap member
  | invokeDynamic bootstrap member => .invokeDynamic bootstrap member
  | moduleRef name => .moduleRef name
  | packageRef name => .packageRef name

/-- The slots that a constant takes: its own, and a vacant one behind an eight-byte constant. -/
def slots (e : Entry) : List Constant := e.constant :: List.replicate (e.width - 1) .vacant

theorem constant_ne_vacant (e : Entry) : e.constant ≠ .vacant := by
  cases e <;> simp [constant]

theorem slots_of_wide {e : Entry} (wide : e.constant.isWide = true) :
    e.width = 2 ∧ e.slots = [e.constant, .vacant] := by
  cases e <;> simp_all [constant, Constant.isWide, width, slots]

theorem slots_of_narrow {e : Entry} (narrow : ¬e.constant.isWide = true) :
    e.width = 1 ∧ e.slots = [e.constant] := by
  cases e <;> simp_all [constant, Constant.isWide, width, slots]

end Entry

/-! ## Reading one constant -/

namespace Constant

theorem readIndex_reads {make : UInt16 → Constant} {c c' : Cursor} {k : Constant}
    (run : readIndex make c = (k, c')) (live : c'.Live) : ∃ a, k = make a ∧ c.Reads (u2Bytes a) c' := by
  obtain ⟨rfl, rfl⟩ := Prod.mk.inj run
  exact ⟨c.u2.1, rfl, Cursor.u2_reads live⟩

theorem readIndices_reads {make : UInt16 → UInt16 → Constant} {c c' : Cursor} {k : Constant}
    (run : readIndices make c = (k, c')) (live : c'.Live) :
    ∃ a b, k = make a b ∧ c.Reads (u2Bytes a ++ u2Bytes b) c' := by
  obtain ⟨rfl, rfl⟩ := Prod.mk.inj run
  have second := Cursor.u2_reads (c := c.u2.2) live
  exact ⟨c.u2.1, c.u2.2.u2.1, rfl, (Cursor.u2_reads second.live).append second⟩

theorem readText_reads {c c' : Cursor} {k : Constant} (run : readText c = (k, c')) (live : c'.Live) :
    ∃ text, k = utf8 text ∧ text.length < 2 ^ 16 ∧ c.Reads (u2Bytes (.ofNat text.length) ++ text) c' := by
  obtain ⟨rfl, rfl⟩ := Prod.mk.inj run
  exact ⟨_, rfl, Cursor.u2_take_reads rfl live⟩

/-- Skipping the payload of a numeric constant skips as many four-byte words. -/
theorem skip_word_reads {c : Cursor} (live : (c.skip 4).Live) : ∃ a, c.Reads (u4Bytes a) (c.skip 4) := by
  obtain ⟨b, length, reads⟩ := Cursor.skip_reads live
  obtain ⟨a, rfl⟩ := exists_u4Bytes (by omega : b.length = 4)
  exact ⟨a, reads⟩

theorem skip_words_reads {c : Cursor} (live : (c.skip 8).Live) :
    ∃ a b, c.Reads (u4Bytes a ++ u4Bytes b) (c.skip 8) := by
  obtain ⟨bytes, length, reads⟩ := Cursor.skip_reads live
  obtain ⟨a, high⟩ := exists_u4Bytes (by simp; omega : (bytes.take 4).length = 4)
  obtain ⟨b, low⟩ := exists_u4Bytes (by simp; omega : (bytes.drop 4).length = 4)
  refine ⟨a, b, ?_⟩
  rw [← high, ← low, List.take_append_drop]
  exact reads

/-- A constant that is read leaves a live cursor only behind its whole payload. -/
theorem read?_reads {tag : UInt8} {c c' : Cursor} {k : Constant}
    (run : read? tag c = some (k, c')) (live : c'.Live) :
    ∃ (e : Entry) (payload : Bytes), e.encode = tag :: payload ∧ c.Reads payload c' ∧ e.constant = k := by
  unfold read? at run
  split at run
  · obtain ⟨text, rfl, fits, reads⟩ := readText_reads (Option.some.inj run) live
    exact ⟨.utf8 text fits, _, rfl, reads, rfl⟩
  · obtain ⟨rfl, rfl⟩ := Prod.mk.inj (Option.some.inj run)
    obtain ⟨bits, reads⟩ := skip_word_reads live
    exact ⟨.integer bits, _, rfl, reads, rfl⟩
  · obtain ⟨rfl, rfl⟩ := Prod.mk.inj (Option.some.inj run)
    obtain ⟨bits, reads⟩ := skip_word_reads live
    exact ⟨.float bits, _, rfl, reads, rfl⟩
  · obtain ⟨rfl, rfl⟩ := Prod.mk.inj (Option.some.inj run)
    obtain ⟨high, low, reads⟩ := skip_words_reads live
    exact ⟨.long high low, _, rfl, reads, rfl⟩
  · obtain ⟨rfl, rfl⟩ := Prod.mk.inj (Option.some.inj run)
    obtain ⟨high, low, reads⟩ := skip_words_reads live
    exact ⟨.double high low, _, rfl, reads, rfl⟩
  · obtain ⟨name, rfl, reads⟩ := readIndex_reads (Option.some.inj run) live
    exact ⟨.classRef name, _, rfl, reads, rfl⟩
  · obtain ⟨text, rfl, reads⟩ := readIndex_reads (Option.some.inj run) live
    exact ⟨.string text, _, rfl, reads, rfl⟩
  · obtain ⟨owner, member, rfl, reads⟩ := readIndices_reads (Option.some.inj run) live
    exact ⟨.fieldRef owner member, _, rfl, reads, rfl⟩
  · obtain ⟨owner, member, rfl, reads⟩ := readIndices_reads (Option.some.inj run) live
    exact ⟨.methodRef owner member, _, rfl, reads, rfl⟩
  · obtain ⟨owner, member, rfl, reads⟩ := readIndices_reads (Option.some.inj run) live
    exact ⟨.interfaceMethodRef owner member, _, rfl, reads, rfl⟩
  · obtain ⟨name, descriptor, rfl, reads⟩ := readIndices_reads (Option.some.inj run) live
    exact ⟨.nameAndType name descriptor, _, rfl, reads, rfl⟩
  · obtain ⟨reference, rfl, reads⟩ := readIndex_reads (Option.some.inj run) live
    obtain ⟨bytes, length, readsKind⟩ := Cursor.skip_reads reads.live
    obtain ⟨kind, rfl⟩ := List.length_eq_one_iff.1 (by omega : bytes.length = 1)
    exact ⟨.methodHandle kind reference, _, rfl, readsKind.append reads, rfl⟩
  · obtain ⟨descriptor, rfl, reads⟩ := readIndex_reads (Option.some.inj run) live
    exact ⟨.methodType descriptor, _, rfl, reads, rfl⟩
  · obtain ⟨bootstrap, member, rfl, reads⟩ := readIndices_reads (Option.some.inj run) live
    exact ⟨.dynamic bootstrap member, _, rfl, reads, rfl⟩
  · obtain ⟨bootstrap, member, rfl, reads⟩ := readIndices_reads (Option.some.inj run) live
    exact ⟨.invokeDynamic bootstrap member, _, rfl, reads, rfl⟩
  · obtain ⟨name, rfl, reads⟩ := readIndex_reads (Option.some.inj run) live
    exact ⟨.moduleRef name, _, rfl, reads, rfl⟩
  · obtain ⟨name, rfl, reads⟩ := readIndex_reads (Option.some.inj run) live
    exact ⟨.packageRef name, _, rfl, reads, rfl⟩
  · simp at run

theorem readIndex_eq {make : UInt16 → Constant} {c c' : Cursor} {a : UInt16}
    (reads : c.Reads (u2Bytes a) c') : readIndex make c = (make a, c') := by
  simp [readIndex, reads.u2]

theorem readIndices_eq {make : UInt16 → UInt16 → Constant} {c c' : Cursor} {a b : UInt16}
    (reads : c.Reads (u2Bytes a ++ u2Bytes b) c') : readIndices make c = (make a b, c') := by
  obtain ⟨c₁, first, second⟩ := Cursor.reads_append.1 reads
  simp [readIndices, first.u2, second.u2]

theorem readText_eq {c c' : Cursor} {text : Bytes} (fits : text.length < 2 ^ 16)
    (reads : c.Reads (u2Bytes (.ofNat text.length) ++ text) c') : readText c = (utf8 text, c') := by
  simp [readText, reads.u2_take fits]

/-- In front of its payload a constant is read back. -/
theorem read?_eq {e : Entry} {tag : UInt8} {payload : Bytes} {c c' : Cursor}
    (encoded : e.encode = tag :: payload) (reads : c.Reads payload c') :
    read? tag c = some (e.constant, c') := by
  cases e <;> obtain ⟨rfl, rfl⟩ := List.cons.inj encoded
  case utf8 text fits => exact congrArg some (readText_eq fits reads)
  case integer | float => exact congrArg (fun c => some (_, c)) (reads.skip rfl)
  case long | double => exact congrArg (fun c => some (_, c)) (reads.skip rfl)
  case classRef | string | methodType | moduleRef | packageRef =>
    exact congrArg some (readIndex_eq reads)
  case fieldRef | methodRef | interfaceMethodRef | nameAndType | dynamic | invokeDynamic =>
    exact congrArg some (readIndices_eq reads)
  case methodHandle kind reference =>
    obtain ⟨c₁, readsKind, readsIndex⟩ := Cursor.reads_append (a := [kind]).1 reads
    have skipped : c.skip 1 = c₁ := readsKind.skip rfl
    change some (readIndex _ (c.skip 1)) = _
    rw [skipped, readIndex_eq readsIndex]
    rfl

end Constant

/-! ## Slots -/

/-- Constants that are placed one after the other from `slot` on fill a table of `count` slots: each one
starts inside the table, and the next one would not.  The second slot of a last eight-byte constant may
therefore lie outside. -/
def Fills (count : Nat) : Nat → List Entry → Prop
  | slot, [] => count ≤ slot
  | slot, e :: entries => slot < count ∧ Fills count (slot + e.width) entries

/-- The constant that starts at slot `index`, when constants are placed from `slot` on. -/
def entryAt : Nat → List Entry → Nat → Option Entry
  | _, [], _ => none
  | slot, e :: entries, index => if index = slot then some e else entryAt (slot + e.width) entries index

/-- The pool with `count` slots that constants give rise to. -/
def layout (count : Nat) (entries : List Entry) : ConstantPool :=
  ((.vacant :: entries.flatMap Entry.slots).take count).toArray

namespace ConstantPool

/-- A tag and what is read behind it are the encoding of a constant. -/
theorem tagged_reads {c c₁ c₂ : Cursor} {tag : UInt8} {k : Constant} (readTag : c.u1 = (tag, c₁))
    (readPayload : Constant.read? tag c₁ = some (k, c₂)) (live : c₂.Live) :
    ∃ e : Entry, c.Reads e.encode c₂ ∧ e.constant = k := by
  obtain ⟨e, payload, encoded, reads, rfl⟩ := Constant.read?_reads readPayload live
  have first : c.Reads [tag] c₁ := by
    have tagReads := Cursor.u1_reads (c := c)
    rw [readTag] at tagReads
    exact tagReads reads.live
  refine ⟨e, ?_, rfl⟩
  rw [encoded]
  exact first.append reads

theorem readSlots_full {count : Nat} {slots : ConstantPool} (c : Cursor) (full : count ≤ slots.size) :
    readSlots count slots c = .ok (slots, c) := by
  rw [readSlots, if_neg (by omega)]

theorem readSlots_reads {count : Nat} {slots pool : ConstantPool} {c c' : Cursor}
    (bound : slots.size ≤ count) (run : readSlots count slots c = .ok (pool, c')) (live : c'.Live) :
    ∃ entries, Fills count slots.size entries ∧ c.Reads (entries.flatMap Entry.encode) c' ∧
      pool.toList = (slots.toList ++ entries.flatMap Entry.slots).take count := by
  fun_induction readSlots count slots c with
  | case1 => simp at run
  | case2 slots c space tag c₁ readTag k c₂ readPayload wide second ih =>
    obtain ⟨entries, fills, reads, kept⟩ := ih (by simp; omega) run
    obtain ⟨e, readsFirst, rfl⟩ := tagged_reads readTag readPayload reads.live
    obtain ⟨width, slotsEq⟩ := Entry.slots_of_wide wide
    refine ⟨e :: entries, ⟨space, ?_⟩, readsFirst.append reads, ?_⟩
    · simpa [width] using fills
    · simpa [slotsEq] using kept
  | case3 slots c space tag c₁ readTag k c₂ readPayload wide last =>
    -- the table ends inside this constant
    simp only [Except.ok.injEq, Prod.mk.injEq] at run
    obtain ⟨rfl, rfl⟩ := run
    obtain ⟨e, reads, rfl⟩ := tagged_reads readTag readPayload live
    obtain ⟨width, slotsEq⟩ := Entry.slots_of_wide wide
    refine ⟨[e], ⟨space, ?_⟩, by simpa using reads, ?_⟩
    · simp only [Fills, width]
      omega
    · have size : count = slots.toList.length + 1 := by simp; omega
      rw [List.flatMap_singleton, slotsEq, size, List.take_length_add_append]
      simp
  | case4 => simp at run
  | case5 slots c space tag c₁ readTag k c₂ readPayload narrow unfailed ih =>
    obtain ⟨entries, fills, reads, kept⟩ := ih (by simp; omega) run
    obtain ⟨e, readsFirst, rfl⟩ := tagged_reads readTag readPayload reads.live
    obtain ⟨width, slotsEq⟩ := Entry.slots_of_narrow narrow
    refine ⟨e :: entries, ⟨space, ?_⟩, readsFirst.append reads, ?_⟩
    · simpa [width] using fills
    · simpa [slotsEq] using kept
  | case6 slots c full =>
    simp only [Except.ok.injEq, Prod.mk.injEq] at run
    obtain ⟨rfl, rfl⟩ := run
    refine ⟨[], by simpa [Fills] using full, .refl live, ?_⟩
    rw [List.flatMap_nil, List.append_nil, List.take_of_length_le (by simpa using bound)]

/-- In front of a whole constant one step fills its slots, as far as there are any. -/
theorem readSlots_step {count : Nat} {slots : ConstantPool} {c c' : Cursor} {e : Entry} (space : slots.size < count)
    (reads : c.Reads e.encode c') :
    readSlots count slots c =
      if e.constant.isWide then
        if slots.size + 1 < count then readSlots count ((slots.push e.constant).push .vacant) c'
        else .ok (slots.push e.constant, c')
      else readSlots count (slots.push e.constant) c' := by
  obtain ⟨tag, payload, encoded⟩ : ∃ tag payload, e.encode = tag :: payload := by
    cases e <;> exact ⟨_, _, rfl⟩
  have alive : c'.fault? = none := Cursor.fault?_eq_none.2 reads.live_after
  rw [encoded] at reads
  obtain ⟨c₁, readsTag, readsPayload⟩ := Cursor.reads_append (a := [tag]).1 reads
  rw [readSlots, if_pos space, readsTag.u1]
  simp only [Constant.read?_eq encoded readsPayload, alive]

theorem readSlots_eq {count : Nat} {entries : List Entry} {slots : ConstantPool} {c c' : Cursor}
    (bound : slots.size ≤ count) (fills : Fills count slots.size entries)
    (reads : c.Reads (entries.flatMap Entry.encode) c') :
    readSlots count slots c =
      .ok (((slots.toList ++ entries.flatMap Entry.slots).take count).toArray, c') := by
  induction entries generalizing slots c with
  | nil =>
    obtain ⟨rfl, -⟩ := Cursor.reads_nil.1 reads
    rw [readSlots_full c' fills, List.flatMap_nil, List.append_nil,
      List.take_of_length_le (by simpa using bound), Array.toArray_toList]
  | cons e entries ih =>
    obtain ⟨space, fills⟩ := fills
    rw [List.flatMap_cons] at reads
    obtain ⟨c₁, readsFirst, readsOthers⟩ := Cursor.reads_append.1 reads
    rw [readSlots_step space readsFirst]
    by_cases wide : e.constant.isWide = true
    · obtain ⟨width, slotsEq⟩ := Entry.slots_of_wide wide
      rw [if_pos wide]
      split
      · next second =>
        rw [ih (by simp; omega) (by simpa [width] using fills) readsOthers]
        simp [slotsEq]
      · next last =>
        -- no further constant fits into the table
        have size : count = slots.toList.length + 1 := by simp; omega
        cases entries with
        | nil =>
          obtain ⟨rfl, -⟩ := Cursor.reads_nil.1 readsOthers
          rw [List.flatMap_singleton, slotsEq, size, List.take_length_add_append, List.take_succ_cons,
            List.take_zero, ← Array.toList_push, Array.toArray_toList]
        | cons e' entries =>
          simp only [Fills, width] at fills
          omega
    · obtain ⟨width, slotsEq⟩ := Entry.slots_of_narrow wide
      rw [if_neg wide, ih (by simp; omega) (by simpa [width] using fills) readsOthers]
      simp [slotsEq]

theorem read_reads {c c' : Cursor} {pool : ConstantPool} (run : read c = .ok (pool, c')) (live : c'.Live) :
    ∃ (count : UInt16) (entries : List Entry), Fills count.toNat 1 entries ∧
      c.Reads (u2Bytes count ++ entries.flatMap Entry.encode) c' ∧ pool = layout count.toNat entries := by
  unfold read at run
  simp only at run
  split at run
  · simp at run
  · next unfailed =>
    by_cases empty : c.u2.1 = 0
    · -- a table without slots has no constants
      rw [readSlots_full _ (by simp [empty]), if_pos empty] at run
      simp only [Except.ok.injEq, Prod.mk.injEq] at run
      obtain ⟨rfl, rfl⟩ := run
      refine ⟨c.u2.1, [], by simp [Fills, empty], by simpa using Cursor.u2_reads live, by simp [layout, empty]⟩
    · rw [if_neg empty] at run
      have positive : c.u2.1.toNat ≠ 0 := fun zero => empty (UInt16.toNat_inj.1 zero)
      obtain ⟨entries, fills, reads, kept⟩ := readSlots_reads (by simp; omega) run live
      refine ⟨c.u2.1, entries, fills, (Cursor.u2_reads reads.live).append reads, ?_⟩
      rw [layout, ← Array.toList_inj, kept]
      rfl

theorem read_eq {count : UInt16} {entries : List Entry} {c c' : Cursor} (fills : Fills count.toNat 1 entries)
    (reads : c.Reads (u2Bytes count ++ entries.flatMap Entry.encode) c') :
    read c = .ok (layout count.toNat entries, c') := by
  obtain ⟨c₁, readsCount, readsEntries⟩ := Cursor.reads_append.1 reads
  have alive : c₁.fault? = none := Cursor.fault?_eq_none.2 readsEntries.live
  unfold read
  rw [readsCount.u2]
  simp only [alive]
  by_cases empty : count = 0
  · subst empty
    cases entries with
    | nil =>
      obtain ⟨rfl, -⟩ := Cursor.reads_nil.1 readsEntries
      rw [readSlots_full _ (by simp)]
      simp [layout]
    | cons e entries => simp [Fills] at fills
  · have positive : count.toNat ≠ 0 := fun zero => empty (UInt16.toNat_inj.1 zero)
    rw [if_neg empty, readSlots_eq (by simp; omega) fills readsEntries]
    rfl

end ConstantPool

/-! ## Names behind an index -/

/-- The constant at an index. -/
def constantAt (entries : List Entry) (index : UInt16) : Option Entry := entryAt 1 entries index.toNat

/-- The text at an index. -/
def TextAt (entries : List Entry) (index : UInt16) (text : Bytes) : Prop :=
  ∃ fits, constantAt entries index = some (.utf8 text fits)

/-- The slash separated name of the class at an index. -/
def ClassNameAt (entries : List Entry) (index : UInt16) (name : Bytes) : Prop :=
  ∃ text, constantAt entries index = some (.classRef text) ∧ TextAt entries text name

/-- Name and descriptor, put together, of the member at an index. -/
def SignatureAt (entries : List Entry) (index : UInt16) (signature : Bytes) : Prop :=
  ∃ nameIndex descriptorIndex name descriptor,
    constantAt entries index = some (.nameAndType nameIndex descriptorIndex) ∧
    TextAt entries nameIndex name ∧ TextAt entries descriptorIndex descriptor ∧ signature = name ++ descriptor

/-- The call that a method reference at an index stands for.  The name of an array class starts with a
bracket; its methods belong to no class. -/
def MethodSiteAt (entries : List Entry) (index : UInt16) (site : CallSite) : Prop :=
  ∃ owner member name,
    (constantAt entries index = some (.methodRef owner member) ∨
      constantAt entries index = some (.interfaceMethodRef owner member)) ∧
    ClassNameAt entries owner name ∧ SignatureAt entries member site.method ∧
    site.owner = if name.head? = some 0x5B then [] else dotted name

/-- The call that a dynamic call site at an index stands for. -/
def DynamicSiteAt (entries : List Entry) (index : UInt16) (site : CallSite) : Prop :=
  ∃ bootstrap member, constantAt entries index = some (.invokeDynamic bootstrap member) ∧
    SignatureAt entries member site.method ∧ site.owner = []

/-- Constants from `slot` on take no slot below it. -/
theorem entryAt_of_lt {slot index : Nat} {entries : List Entry} (below : index < slot) :
    entryAt slot entries index = none := by
  induction entries generalizing slot with
  | nil => rfl
  | cons e entries ih =>
    rw [entryAt, if_neg (by omega)]
    exact ih (by omega)

/-- A constant of a filled table starts inside the table. -/
theorem Fills.entryAt_lt {count slot index : Nat} {entries : List Entry} {e : Entry}
    (fills : Fills count slot entries) (found : entryAt slot entries index = some e) : index < count := by
  induction entries generalizing slot with
  | nil => simp [entryAt] at found
  | cons e' entries ih =>
    obtain ⟨space, fills⟩ := fills
    rw [entryAt] at found
    split at found
    · next here => omega
    · exact ih fills found

/-- The slots of constants hold a constant exactly where one starts. -/
theorem getElem?_slots (slot i : Nat) (entries : List Entry) {k : Constant} (filled : k ≠ .vacant) :
    (entries.flatMap Entry.slots)[i]? = some k ↔
      ∃ e, entryAt slot entries (slot + i) = some e ∧ e.constant = k := by
  induction entries generalizing slot i with
  | nil => simp [entryAt]
  | cons e entries ih =>
    rw [List.flatMap_cons, entryAt]
    by_cases wide : e.constant.isWide = true
    · obtain ⟨width, slotsEq⟩ := Entry.slots_of_wide wide
      rw [slotsEq, width]
      match i with
      | 0 => simp
      | 1 =>
        have none : entryAt (slot + 2) entries (slot + 1) = none := entryAt_of_lt (by omega)
        simp [none, filled.symm]
      | i + 2 =>
        have shift : slot + (i + 2) = slot + 2 + i := by omega
        rw [if_neg (by omega), shift]
        simpa using ih _ _
    · obtain ⟨width, slotsEq⟩ := Entry.slots_of_narrow wide
      rw [slotsEq, width]
      match i with
      | 0 => simp
      | i + 1 =>
        have shift : slot + (i + 1) = slot + 1 + i := by omega
        rw [if_neg (by omega), shift]
        simpa using ih _ _

namespace ConstantPool

theorem constant_eq_ok {pool : ConstantPool} {index : UInt16} {k : Constant} :
    pool.constant index = .ok k ↔ index ≠ 0 ∧ pool[index.toNat]? = some k := by
  unfold constant
  split
  · next outside =>
    rcases outside with rfl | outside
    · simp
    · simp [Array.getElem?_eq_none outside]
  · next inside =>
    rw [not_or, Nat.not_le] at inside
    simp [inside.1, Array.getElem?_eq_getElem inside.2]

/-- A filled table of slots holds at each index the constant that starts there. -/
theorem constant_layout {count : Nat} {entries : List Entry} (fills : Fills count 1 entries) {index : UInt16}
    {k : Constant} (filled : k ≠ .vacant) :
    (layout count entries).constant index = .ok k ↔
      ∃ e, constantAt entries index = some e ∧ e.constant = k := by
  rw [constant_eq_ok, constantAt]
  cases position : index.toNat with
  | zero =>
    have zero : index = 0 := UInt16.toNat_inj.1 position
    simp [zero, entryAt_of_lt]
  | succ i =>
    have nonzero : index ≠ 0 := by
      rintro rfl
      simp at position
    have slot := getElem?_slots 1 i entries filled
    rw [Nat.add_comm 1 i] at slot
    simp only [nonzero, ne_eq, not_false_eq_true, true_and, layout, List.getElem?_toArray, List.getElem?_take]
    rw [← slot]
    constructor
    · intro found
      split at found
      · simpa using found
      · simp at found
    · intro found
      obtain ⟨e, here, -⟩ := slot.1 found
      rw [if_pos (fills.entryAt_lt here)]
      simpa using found

theorem text_eq_ok {pool : ConstantPool} {index : UInt16} {text : Bytes} :
    pool.text index = .ok text ↔ pool.constant index = .ok (.utf8 text) := by
  simp only [ConstantPool.text, bind_eq_ok]
  constructor
  · rintro ⟨k, found, run⟩
    cases k <;> simp_all
  · intro found
    exact ⟨_, found, rfl⟩

theorem className_eq_ok {pool : ConstantPool} {index : UInt16} {name : Bytes} :
    pool.className index = .ok name ↔
      ∃ text, pool.constant index = .ok (.classRef text) ∧ pool.text text = .ok name := by
  simp only [ConstantPool.className, bind_eq_ok]
  constructor
  · rintro ⟨k, found, run⟩
    cases k <;> simp_all
  · rintro ⟨text, found, run⟩
    exact ⟨_, found, run⟩

theorem nameAndType_eq_ok {pool : ConstantPool} {index : UInt16} {signature : Bytes} :
    pool.nameAndType index = .ok signature ↔
      ∃ nameIndex descriptorIndex name descriptor,
        pool.constant index = .ok (.nameAndType nameIndex descriptorIndex) ∧
        pool.text nameIndex = .ok name ∧ pool.text descriptorIndex = .ok descriptor ∧
        signature = name ++ descriptor := by
  simp only [ConstantPool.nameAndType, bind_eq_ok]
  constructor
  · rintro ⟨k, found, run⟩
    cases k <;> simp only [reduceCtorEq, bind_eq_ok, Except.ok.injEq] at run
    obtain ⟨name, nameFound, descriptor, descriptorFound, rfl⟩ := run
    exact ⟨_, _, name, descriptor, found, nameFound, descriptorFound, rfl⟩
  · rintro ⟨nameIndex, descriptorIndex, name, descriptor, found, nameFound, descriptorFound, rfl⟩
    exact ⟨_, found, by simp [nameFound, descriptorFound]⟩

theorem memberSite_eq_ok {pool : ConstantPool} {owner member : UInt16} {site : CallSite} :
    pool.memberSite owner member = .ok site ↔
      ∃ name, pool.className owner = .ok name ∧ pool.nameAndType member = .ok site.method ∧
        site.owner = if name.head? = some 0x5B then [] else dotted name := by
  have bracket (name : Bytes) : (JvmCoupling.utf8 "[").isPrefixOf name = true ↔ name.head? = some 0x5B := by
    cases name with
    | nil => decide
    | cons b name =>
      have single : JvmCoupling.utf8 "[" = [0x5B] := rfl
      simp only [single, List.isPrefixOf, Bool.and_true, beq_iff_eq, List.head?_cons, Option.some.injEq]
      exact eq_comm
  obtain ⟨siteOwner, siteMethod⟩ := site
  simp only [memberSite, bind_eq_ok, bracket]
  constructor
  · rintro ⟨name, nameFound, method, methodFound, run⟩
    refine ⟨name, nameFound, ?_⟩
    split at run <;> simp_all
  · rintro ⟨name, nameFound, methodFound, rfl⟩
    refine ⟨name, nameFound, _, methodFound, ?_⟩
    split <;> rfl

theorem methodSite_eq_ok {pool : ConstantPool} {index : UInt16} {site : CallSite} :
    pool.methodSite index = .ok site ↔
      ∃ owner member, (pool.constant index = .ok (.methodRef owner member) ∨
        pool.constant index = .ok (.interfaceMethodRef owner member)) ∧
        pool.memberSite owner member = .ok site := by
  simp only [methodSite, bind_eq_ok]
  constructor
  · rintro ⟨k, found, run⟩
    cases k <;> simp_all
  · rintro ⟨owner, member, found | found, run⟩
    · exact ⟨_, found, run⟩
    · exact ⟨_, found, run⟩

theorem dynamicSite_eq_ok {pool : ConstantPool} {index : UInt16} {site : CallSite} :
    pool.dynamicSite index = .ok site ↔
      ∃ bootstrap member, pool.constant index = .ok (.invokeDynamic bootstrap member) ∧
        pool.nameAndType member = .ok site.method ∧ site.owner = [] := by
  obtain ⟨siteOwner, siteMethod⟩ := site
  simp only [dynamicSite, bind_eq_ok]
  constructor
  · rintro ⟨k, found, run⟩
    cases k <;> simp_all [bind_eq_ok, pure, Except.pure]
  · rintro ⟨bootstrap, member, found, methodFound, rfl⟩
    exact ⟨_, found, by simp [methodFound, pure, Except.pure]⟩

section Layout

variable {count : Nat} {entries : List Entry} (fills : Fills count 1 entries)

include fills

/-- For a constant that the pool keeps whole, the pool and the file agree on where it is. -/
theorem constant_layout_whole {e : Entry} (whole : ∀ e' : Entry, e'.constant = e.constant → e' = e)
    (index : UInt16) :
    (layout count entries).constant index = .ok e.constant ↔ constantAt entries index = some e := by
  rw [constant_layout fills e.constant_ne_vacant]
  constructor
  · rintro ⟨e', found, kept⟩
    rw [found, whole e' kept]
  · intro found
    exact ⟨e, found, rfl⟩

theorem text_layout {index : UInt16} {text : Bytes} :
    (layout count entries).text index = .ok text ↔ TextAt entries index text := by
  rw [text_eq_ok, constant_layout fills (by simp)]
  constructor
  · rintro ⟨e, found, kept⟩
    cases e <;> simp only [Entry.constant, reduceCtorEq, Constant.utf8.injEq] at kept
    subst kept
    exact ⟨_, found⟩
  · rintro ⟨fits, found⟩
    exact ⟨_, found, rfl⟩

theorem className_layout {index : UInt16} {name : Bytes} :
    (layout count entries).className index = .ok name ↔ ClassNameAt entries index name := by
  rw [className_eq_ok, ClassNameAt]
  refine exists_congr fun text => and_congr ?_ (text_layout fills)
  exact constant_layout_whole fills (e := .classRef text) (by rintro ⟨⟩ <;> simp_all [Entry.constant]) index

theorem nameAndType_layout {index : UInt16} {signature : Bytes} :
    (layout count entries).nameAndType index = .ok signature ↔ SignatureAt entries index signature := by
  rw [nameAndType_eq_ok, SignatureAt]
  refine exists_congr fun nameIndex => exists_congr fun descriptorIndex => exists_congr fun name =>
    exists_congr fun descriptor => and_congr ?_ ?_
  · exact constant_layout_whole fills (e := .nameAndType nameIndex descriptorIndex)
      (by rintro ⟨⟩ <;> simp_all [Entry.constant]) index
  · rw [text_layout fills, text_layout fills]

theorem methodSite_layout {index : UInt16} {site : CallSite} :
    (layout count entries).methodSite index = .ok site ↔ MethodSiteAt entries index site := by
  rw [methodSite_eq_ok, MethodSiteAt]
  refine exists_congr fun owner => exists_congr fun member => ?_
  have reference := constant_layout_whole fills (e := .methodRef owner member)
    (by rintro ⟨⟩ <;> simp_all [Entry.constant]) index
  have interfaceReference := constant_layout_whole fills (e := .interfaceMethodRef owner member)
    (by rintro ⟨⟩ <;> simp_all [Entry.constant]) index
  rw [← reference, ← interfaceReference, memberSite_eq_ok, ← exists_and_left]
  simp only [className_layout fills, nameAndType_layout fills, Entry.constant]

theorem dynamicSite_layout {index : UInt16} {site : CallSite} :
    (layout count entries).dynamicSite index = .ok site ↔ DynamicSiteAt entries index site := by
  rw [dynamicSite_eq_ok, DynamicSiteAt]
  refine exists_congr fun bootstrap => exists_congr fun member => and_congr ?_ ?_
  · exact constant_layout_whole fills (e := .invokeDynamic bootstrap member)
      (by rintro ⟨⟩ <;> simp_all [Entry.constant]) index
  · rw [nameAndType_layout fills]

end Layout

end ConstantPool

end JvmCoupling.ClassFile
