import JvmCoupling.Proofs.ClassFile.Grammar

/-! # Class files delimit themselves

Nothing marks the end of a class file, and bytes behind it are not looked at.  Where a file ends is settled
by its own bytes: every phrase of the grammar has a fixed width, or tells its length, or tells how many
phrases of another kind it is made of.  A file that is cut short is therefore never taken for a shorter one.

* `Delimited` — the bytes of a phrase settle where it ends;
* `Grammar.File.delimited` — so it is for a whole file, put together from its phrases;
* `parse_selfDelimiting` — parsing depends on the bytes of the file only, and on every one of them.
-/

namespace JvmCoupling.ClassFile

/-! ## Phrases that tell where they end -/

/-- Two phrases of this kind that can be read at the same place end at the same place. -/
def Delimited {α : Type} (encode : α → Bytes) : Prop :=
  ∀ ⦃x y : α⦄ ⦃c c₁ c₂ : Cursor⦄, c.Reads (encode x) c₁ → c.Reads (encode y) c₂ → c₁ = c₂

namespace Delimited

variable {α β : Type} {encode : α → Bytes}

theorem of_length (width : Nat) (length : ∀ x, (encode x).length = width) : Delimited encode := by
  intro x y c c₁ c₂ first second
  have skipped : c.skip width = c₁ := first.skip (by rw [length])
  rw [← skipped]
  exact second.skip (by rw [length])

theorem append {front back : α → Bytes} (frontDelimited : Delimited front) (backDelimited : Delimited back) :
    Delimited fun x => front x ++ back x := by
  intro x y c c₁ c₂ first second
  obtain ⟨d₁, readsFront, readsBack⟩ := Cursor.reads_append.1 first
  obtain ⟨d₂, readsFront', readsBack'⟩ := Cursor.reads_append.1 second
  obtain rfl := frontDelimited readsFront readsFront'
  exact backDelimited readsBack readsBack'

theorem comp (delimited : Delimited encode) (part : β → α) : Delimited fun x => encode (part x) :=
  fun _ _ _ _ _ first second => delimited first second

/-- As many phrases on one side as on the other end at the same place. -/
theorem flatMap (delimited : Delimited encode) {xs ys : List α} (length : xs.length = ys.length)
    {c c₁ c₂ : Cursor} (first : c.Reads (xs.flatMap encode) c₁) (second : c.Reads (ys.flatMap encode) c₂) :
    c₁ = c₂ := by
  induction xs generalizing ys c with
  | nil =>
    obtain rfl := List.length_eq_zero_iff.1 length.symm
    exact first.unique second
  | cons x xs ih =>
    obtain ⟨y, ys, rfl⟩ := List.exists_cons_of_length_eq_add_one length.symm
    obtain ⟨d₁, readsItem, readsItems⟩ := Cursor.reads_append.1 first
    obtain ⟨d₂, readsItem', readsItems'⟩ := Cursor.reads_append.1 second
    obtain rfl := delimited readsItem readsItem'
    exact ih (by simpa using length) readsItems readsItems'

/-- The count in front of a table settles how many items follow. -/
theorem table (delimited : Delimited encode) : Delimited (Table.encode encode) := by
  intro x y c c₁ c₂ first second
  obtain ⟨count, readsItems⟩ := first.table
  obtain ⟨count', readsItems'⟩ := second.table
  exact delimited.flatMap (count.symm.trans count') readsItems readsItems'

end Delimited

/-! ## The phrases of a class file -/

namespace Grammar

theorem delimited_u2Bytes : Delimited u2Bytes := .of_length 2 fun _ => rfl

theorem Attribute.delimited : Delimited Attribute.encode := by
  intro a b c c₁ c₂ first second
  rw [← skipAttribute_eq first, ← skipAttribute_eq second]

theorem Field.delimited : Delimited Field.encode := by
  intro f g c c₁ c₂ first second
  rw [← skipField_eq first, ← skipField_eq second]

theorem Method.delimited : Delimited Method.encode :=
  (delimited_u2Bytes.comp access).append <| (delimited_u2Bytes.comp name).append <|
    (delimited_u2Bytes.comp descriptor).append <|
      (Attribute.delimited.comp MethodAttribute.toAttribute).table.comp attributes

/-- The number of slots settles how many constants follow, although an eight-byte constant takes two. -/
theorem File.delimited_pool :
    Delimited fun f : File => u2Bytes f.slots ++ f.constants.flatMap Entry.encode := by
  intro f g c c₁ c₂ first second
  have run := ConstantPool.read_eq f.fills first
  rw [ConstantPool.read_eq g.fills second] at run
  exact (Prod.mk.inj (Except.ok.inj run)).2.symm

theorem File.delimited : Delimited File.encode :=
  (Delimited.of_length 4 fun _ => rfl).append <| (Delimited.of_length 4 fun _ => rfl).append <|
    File.delimited_pool.append <| (delimited_u2Bytes.comp access).append <|
      (delimited_u2Bytes.comp thisClass).append <| (delimited_u2Bytes.comp superclass).append <|
        (delimited_u2Bytes.table.comp interfaces).append <| (Field.delimited.table.comp fields).append <|
          Method.delimited.table.comp methods

/-- No file stands in front of another one. -/
theorem File.trailing_eq_nil {f g : File} {trailing : Bytes} (whole : f.encode = g.encode ++ trailing) :
    trailing = [] := by
  have readsLong : Cursor.Reads ⟨f.encode, 0, none⟩ f.encode ⟨[], f.encode.length, none⟩ :=
    ⟨rfl, (List.append_nil _).symm, (Nat.zero_add _).symm, rfl⟩
  have readsShort : Cursor.Reads ⟨f.encode, 0, none⟩ g.encode ⟨trailing, g.encode.length, none⟩ :=
    ⟨rfl, whole, (Nat.zero_add _).symm, rfl⟩
  exact (Cursor.mk.inj (File.delimited readsShort readsLong)).1

end Grammar

open Grammar

/-! ## Files that are cut short -/

/-- A file that parses has an end of its own: whatever agrees with it up to there parses to the same class,
and whatever stops before is an error. -/
theorem parse_selfDelimiting {data : Bytes} {c : ClassInfo} (run : parse data = .ok c) :
    ∃ k ≤ data.length,
      (∀ other, data.take k <+: other → parse other = .ok c) ∧
      (∀ cut, cut <+: data.take k → cut ≠ data.take k → ∃ e, parse cut = .error e) := by
  obtain ⟨f, trailing, rfl, denotes⟩ := parse_sound run
  refine ⟨f.encode.length, by simp, ?_, ?_⟩
  · rw [List.take_left]
    rintro - ⟨trailing, rfl⟩
    exact parse_complete denotes trailing
  · rw [List.take_left]
    rintro cut ⟨missing, whole⟩ proper
    cases parsed : parse cut with
    | error e => exact ⟨e, rfl⟩
    | ok c' =>
      -- a class in front of the cut would be a shorter file in front of this one
      obtain ⟨g, rest, rfl, -⟩ := parse_sound parsed
      rw [List.append_assoc] at whole
      obtain ⟨rfl, rfl⟩ := List.append_eq_nil_iff.1 (File.trailing_eq_nil whole.symm)
      exact absurd (by simpa using whole) proper

/-- An interface, a field with an attribute, and a method that calls itself, behind a pool with an eight-byte
constant. -/
def selfCallingFile : Bytes :=
  [0xCA, 0xFE, 0xBA, 0xBE, 0, 0, 0, 0x34,
    0, 10, 1, 0, 1, 0x41, 7, 0, 1, 1, 0, 1, 0x6D, 1, 0, 3, 0x28, 0x29, 0x56, 1, 0, 4, 0x43, 0x6F, 0x64, 0x65,
    5, 0, 0, 0, 0, 0, 0, 0, 0, 12, 0, 3, 0, 4, 10, 0, 2, 0, 8,
    0, 0, 0, 2, 0, 0, 0, 1, 0, 2,
    0, 1, 0, 0, 0, 3, 0, 4, 0, 1, 0, 5, 0, 0, 0, 1, 7,
    0, 1, 0, 0, 0, 3, 0, 4, 0, 1, 0, 5, 0, 0, 0, 16, 0, 1, 0, 1, 0, 0, 0, 4, 0xB8, 0, 9, 0xB1, 0, 0, 0, 0]

def selfCallingClass : ClassInfo where
  name := [0x41]
  superclass := []
  interfaces := [[0x41]]
  isInterface := false
  methods := [⟨[0x6D], [0x28, 0x29, 0x56], [⟨[0x41], [0x6D, 0x28, 0x29, 0x56]⟩]⟩]

theorem parse_selfCallingFile : parse selfCallingFile = .ok selfCallingClass ∧
    ∃ k ≤ selfCallingFile.length,
      (∀ other, selfCallingFile.take k <+: other → parse other = .ok selfCallingClass) ∧
      (∀ cut, cut <+: selfCallingFile.take k → cut ≠ selfCallingFile.take k → ∃ e, parse cut = .error e) := by
  have run : parse selfCallingFile = .ok selfCallingClass := by decide +kernel
  exact ⟨run, parse_selfDelimiting run⟩

end JvmCoupling.ClassFile
