import JvmCoupling.Proofs.ClassFile.PoolLayout
import Mathlib

/-! # Which slot a constant takes

The constants of a pool are numbered by slots, and an eight-byte constant takes two of them.  Here the slot of a
constant is said by the widths of those before it, and reading a pool is compared with that: where every
constant is, which slots stay vacant, and the one case in which a pool is read although its bytes were cut short.

* `slotFrom` — the slot of a constant in a list;
* `LaidOut` — a pool that holds constants at their slots, and nothing else;
* `CutShort` — bytes that end inside an eight-byte constant at the end of a pool;
* `ConstantPool.read_layout_exact` — reading a pool.
-/

namespace JvmCoupling.ClassFile

/-! ## Slots by widths -/

/-- The slot of constant number `j`, when constants are placed from `slot` on: the widths before it are passed. -/
def slotFrom (slot : Nat) (entries : List Entry) (j : Nat) : Nat := slot + ((entries.take j).map Entry.width).sum

@[simp] theorem slotFrom_zero (slot : Nat) (entries : List Entry) : slotFrom slot entries 0 = slot := by
  simp [slotFrom]

@[simp] theorem slotFrom_succ (slot : Nat) (e : Entry) (entries : List Entry) (j : Nat) :
    slotFrom slot (e :: entries) (j + 1) = slotFrom (slot + e.width) entries j := by
  simp [slotFrom, Nat.add_assoc]

theorem le_slotFrom (slot : Nat) (entries : List Entry) (j : Nat) : slot ≤ slotFrom slot entries j :=
  Nat.le_add_right _ _

theorem Entry.width_cases (e : Entry) : e.width = 1 ∨ e.width = 2 := by
  cases e <;> simp [width]

theorem fills_iff {count slot : Nat} {entries : List Entry} :
    Fills count slot entries ↔
      (∀ j < entries.length, slotFrom slot entries j < count) ∧ count ≤ slotFrom slot entries entries.length := by
  induction entries generalizing slot with
  | nil => simp [Fills]
  | cons e entries ih =>
    rw [Fills, ih, List.length_cons, slotFrom_succ, ← and_assoc]
    refine and_congr_left fun _ => ⟨?_, fun all => ⟨?_, fun j inside => ?_⟩⟩
    · rintro ⟨first, others⟩ (_ | j) inside
      · simpa using first
      · simpa using others j (by omega)
    · simpa using all 0 (by omega)
    · simpa using all (j + 1) (by omega)

theorem entryAt_eq_some {slot i : Nat} {entries : List Entry} {e : Entry} :
    entryAt slot entries i = some e ↔ ∃ j, slotFrom slot entries j = i ∧ entries[j]? = some e := by
  induction entries generalizing slot with
  | nil => simp [entryAt]
  | cons e' entries ih =>
    rw [entryAt]
    constructor
    · intro found
      split at found
      · next here => exact ⟨0, by simp [here], by simpa using found⟩
      · obtain ⟨j, place, found⟩ := ih.1 found
        exact ⟨j + 1, by simpa using place, by simpa using found⟩
    · rintro ⟨_ | j, place, found⟩
      · rw [if_pos (by simpa using place.symm)]
        simpa using found
      · -- constants take a slot at least, so a later one does not start here
        rw [slotFrom_succ] at place
        have later := le_slotFrom (slot + e'.width) entries j
        have width := e'.width_cases
        rw [if_neg (by omega)]
        exact ih.2 ⟨j, place, by simpa using found⟩

/-- A slot that constants take is the slot of one of them, or the second slot of an eight-byte constant. -/
theorem exists_slotFrom {slot i : Nat} {entries : List Entry} (above : slot ≤ i)
    (below : i < slotFrom slot entries entries.length) :
    ∃ j, ∃ inside : j < entries.length,
      i = slotFrom slot entries j ∨ entries[j].width = 2 ∧ i = slotFrom slot entries j + 1 := by
  induction entries generalizing slot with
  | nil =>
    rw [List.length_nil, slotFrom_zero] at below
    omega
  | cons e entries ih =>
    rw [List.length_cons, slotFrom_succ] at below
    by_cases first : i < slot + e.width
    · refine ⟨0, by simp, ?_⟩
      have width := e.width_cases
      simp only [slotFrom_zero, List.getElem_cons_zero]
      omega
    · obtain ⟨j, inside, place⟩ := ih (by omega) below
      exact ⟨j + 1, by simpa using inside, by simpa using place⟩

theorem length_flatMap_slots (entries : List Entry) :
    slotFrom 1 entries entries.length = 1 + (entries.flatMap Entry.slots).length := by
  have widths (e : Entry) : e.slots.length = e.width := by
    have width := e.width_cases
    simp only [Entry.slots, List.length_cons, List.length_replicate]
    omega
  simp [slotFrom, List.length_flatMap, widths]

/-! ## Pools -/

/-- A pool of `count` slots that holds constants at their slots.  They fill it: the next one would start outside.
All other slots are vacant, that is slot 0 and the second slots of eight-byte constants. -/
structure LaidOut (count : Nat) (entries : List Entry) (pool : ConstantPool) : Prop where
  size_eq : pool.size = count
  placed : ∀ j, ∀ inside : j < entries.length,
    slotFrom 1 entries j < count ∧ pool[slotFrom 1 entries j]? = some entries[j].constant
  full : count ≤ slotFrom 1 entries entries.length
  vacant : ∀ i < count, (∀ j < entries.length, i ≠ slotFrom 1 entries j) →
    pool[i]? = some .vacant ∧
      (i = 0 ∨ ∃ j, ∃ inside : j < entries.length, entries[j].width = 2 ∧ i = slotFrom 1 entries j + 1)

/-- The constants that a laid out pool keeps. -/
theorem getElem?_layout {count i : Nat} {entries : List Entry} {k : Constant} (filled : k ≠ .vacant) :
    (layout count entries)[i]? = some k ↔
      i < count ∧ ∃ j e, slotFrom 1 entries j = i ∧ entries[j]? = some e ∧ e.constant = k := by
  rw [layout, List.getElem?_toArray, List.getElem?_take]
  cases i with
  | zero =>
    have never (j : Nat) : slotFrom 1 entries j ≠ 0 := by
      have above := le_slotFrom 1 entries j
      omega
    simp [never, filled.symm]
  | succ i =>
    have slot := getElem?_slots 1 i entries filled
    rw [Nat.add_comm 1 i] at slot
    simp only [List.getElem?_cons_succ, Option.ite_none_right_eq_some, slot, entryAt_eq_some]
    refine and_congr_right fun _ => ⟨?_, ?_⟩
    · rintro ⟨e, ⟨j, place, found⟩, kept⟩
      exact ⟨j, e, place, found, kept⟩
    · rintro ⟨j, e, place, found, kept⟩
      exact ⟨e, ⟨j, place, found⟩, kept⟩

theorem laidOut_layout {count : Nat} {entries : List Entry} (fills : Fills count 1 entries) :
    LaidOut count entries (layout count entries) := by
  obtain ⟨inside, full⟩ := fills_iff.1 fills
  have size : (layout count entries).size = count := by
    rw [length_flatMap_slots] at full
    simp only [layout, List.size_toArray, List.length_take, List.length_cons]
    omega
  refine ⟨size, fun j own => ⟨inside j own, ?_⟩, full, fun i below other => ?_⟩
  · exact (getElem?_layout (entries[j].constant_ne_vacant)).2
      ⟨inside j own, j, entries[j], rfl, List.getElem?_eq_getElem own, rfl⟩
  · constructor
    · obtain ⟨k, here⟩ : ∃ k, (layout count entries)[i]? = some k :=
        ⟨_, Array.getElem?_eq_getElem (size.symm ▸ below)⟩
      by_cases filled : k = .vacant
      · rw [here, filled]
      · obtain ⟨-, j, e, place, found, -⟩ := (getElem?_layout filled).1 here
        exact absurd place.symm (other j (List.getElem?_eq_some_iff.1 found).1)
    · by_cases zero : i = 0
      · exact .inl zero
      · obtain ⟨j, own, place | second⟩ := exists_slotFrom (by omega : 1 ≤ i) (Nat.lt_of_lt_of_le below full)
        · exact absurd place (other j own)
        · exact .inr ⟨j, own, second⟩

namespace ConstantPool

/-- What is wrong with an index that refers to a vacant slot. -/
def vacantFault (index : UInt16) : Fault := if index = 0 then .noConstant index else .wrongConstant index 0

/-- No name and no call site stands behind a vacant slot. -/
theorem error_of_vacant {pool : ConstantPool} {index : UInt16} (vacant : pool[index.toNat]? = some .vacant) :
    pool.text index = .error (vacantFault index) ∧ pool.className index = .error (vacantFault index) ∧
    pool.nameAndType index = .error (vacantFault index) ∧ pool.methodSite index = .error (vacantFault index) ∧
    pool.dynamicSite index = .error (vacantFault index) := by
  by_cases zero : index = 0
  · have missing : pool.constant index = .error (vacantFault index) := by simp [constant, vacantFault, zero]
    simp only [text, className, nameAndType, methodSite, dynamicSite, missing]
    exact ⟨rfl, rfl, rfl, rfl, rfl⟩
  · have found : pool.constant index = .ok .vacant := constant_eq_ok.2 ⟨zero, vacant⟩
    have fault : vacantFault index = .wrongConstant index Constant.vacant.tag := if_neg zero
    simp only [text, className, nameAndType, methodSite, dynamicSite, found, fault]
    exact ⟨rfl, rfl, rfl, rfl, rfl⟩

end ConstantPool

/-! ## Pools that are cut short -/

/-- Bytes for the slots from `slot` up to `count`: whole constants, and then the tag of an eight-byte constant with
fewer than eight bytes behind it.  That constant is for the last slot or for the last two. -/
def CutShort (count slot : Nat) (bytes : Bytes) : Prop :=
  ∃ (entries : List Entry) (tag : UInt8) (rest : Bytes), bytes = entries.flatMap Entry.encode ++ tag :: rest ∧
    (tag = Constant.long.tag ∨ tag = Constant.double.tag) ∧ rest.length < 8 ∧
    (slotFrom slot entries entries.length + 1 = count ∨ slotFrom slot entries entries.length + 2 = count)

theorem CutShort.cons {count slot : Nat} {e : Entry} {bytes : Bytes} (cut : CutShort count (slot + e.width) bytes) :
    CutShort count slot (e.encode ++ bytes) := by
  obtain ⟨entries, tag, rest, rfl, wide, short, last⟩ := cut
  exact ⟨e :: entries, tag, rest, by simp, wide, short, by simpa using last⟩

/-- The tags of eight-byte constants. -/
theorem Constant.read?_wide {tag : UInt8} {c c' : Cursor} {k : Constant} (run : read? tag c = some (k, c'))
    (wide : k.isWide = true) : (tag = long.tag ∨ tag = double.tag) ∧ c' = c.skip 8 := by
  unfold read? at run
  split at run
  case h_4 | h_5 =>
    obtain ⟨rfl, rfl⟩ := Prod.mk.inj (Option.some.inj run)
    exact ⟨by decide, rfl⟩
  case h_18 => cases run
  all_goals
    obtain ⟨rfl, rfl⟩ := Prod.mk.inj (Option.some.inj run)
    cases wide

namespace ConstantPool

/-- Behind a failure there is no tag to read. -/
theorem readSlots_of_failed {count : Nat} {slots : ConstantPool} {c : Cursor} (failed : ¬c.Live)
    (space : slots.size < count) : ∃ fault, readSlots count slots c = .error fault := by
  rw [readSlots, if_pos space, Cursor.u1_of_failed failed]
  exact ⟨_, rfl⟩

/-- A constant whose tag is known has its tag in the bytes. -/
theorem reads_tag {c c₁ c₂ : Cursor} {tag : UInt8} {k : Constant} (live : c.Live) (readTag : c.u1 = (tag, c₁))
    (readPayload : Constant.read? tag c₁ = some (k, c₂)) : c.Reads [tag] c₁ := by
  have reads := Cursor.u1_reads (c := c)
  by_cases enough : c.u1.2.Live
  · rw [readTag] at reads enough
    exact reads enough
  · -- the tag of a read that failed is zero, which is no tag
    have failed : ¬(c.take 1).2.Live := enough
    rw [Cursor.live_take live] at failed
    have zero : tag = 0 := by
      simpa [Cursor.u1, Cursor.take_of_short live failed, bigEndian] using congrArg Prod.fst readTag.symm
    rw [zero] at readPayload
    cases readPayload

theorem cutShort_of_reads {count slot : Nat} {c c₁ : Cursor} {tag : UInt8} (reads : c.Reads [tag] c₁)
    (wide : tag = Constant.long.tag ∨ tag = Constant.double.tag) (failed : ¬(c₁.skip 8).Live)
    (last : slot + 1 = count ∨ slot + 2 = count) : CutShort count slot c.rest := by
  have short : ¬(0 ≤ (8 : Int) ∧ 8 ≤ c₁.rest.length) := fun enough =>
    failed ((Cursor.live_take reads.live_after).2 (by omega))
  exact ⟨[], tag, c₁.rest, reads.rest_eq, wide, by omega, last⟩

theorem cutShort_of_readSlots {count : Nat} {slots pool : ConstantPool} {c c' : Cursor}
    (run : readSlots count slots c = .ok (pool, c')) (live : c.Live) (failed : ¬c'.Live) :
    CutShort count slots.size c.rest := by
  fun_induction readSlots count slots c with
  | case1 => simp at run
  | case2 slots c space tag c₁ readTag k c₂ readPayload wide second ih =>
    by_cases whole : c₂.Live
    · obtain ⟨e, reads, rfl⟩ := tagged_reads readTag readPayload whole
      have cut : CutShort count (slots.size + e.width) c₂.rest := by
        simpa [(Entry.slots_of_wide wide).1] using ih run whole
      rw [reads.rest_eq]
      exact cut.cons
    · have reads := reads_tag live readTag readPayload
      obtain ⟨tags, rfl⟩ := Constant.read?_wide readPayload wide
      -- a further constant would have met the failure
      have last : slots.size + 2 = count := by
        by_contra more
        obtain ⟨fault, refused⟩ := readSlots_of_failed whole
          (by simp; omega : ((slots.push k).push .vacant).size < count)
        rw [refused] at run
        cases run
      exact cutShort_of_reads reads tags whole (.inr last)
  | case3 slots c space tag c₁ readTag k c₂ readPayload wide last =>
    obtain ⟨rfl, rfl⟩ := Prod.mk.inj (Except.ok.inj run)
    obtain ⟨tags, rfl⟩ := Constant.read?_wide readPayload wide
    exact cutShort_of_reads (reads_tag live readTag readPayload) tags failed (.inl (by omega))
  | case4 => simp at run
  | case5 slots c space tag c₁ readTag k c₂ readPayload narrow unfailed ih =>
    have whole : c₂.Live := Cursor.fault?_eq_none.1 unfailed
    obtain ⟨e, reads, rfl⟩ := tagged_reads readTag readPayload whole
    have cut : CutShort count (slots.size + e.width) c₂.rest := by
      simpa [(Entry.slots_of_narrow narrow).1] using ih run whole
    rw [reads.rest_eq]
    exact cut.cons
  | case6 slots c full =>
    obtain ⟨rfl, rfl⟩ := Prod.mk.inj (Except.ok.inj run)
    exact absurd live failed

theorem exists_readSlots_of_cutShort {count : Nat} {slots : ConstantPool} {c : Cursor} (live : c.Live)
    (cut : CutShort count slots.size c.rest) : ∃ pool c', readSlots count slots c = .ok (pool, c') ∧ ¬c'.Live := by
  obtain ⟨entries, tag, rest, bytes, tags, short, last⟩ := cut
  induction entries generalizing slots c with
  | nil =>
    rw [List.length_nil, slotFrom_zero] at last
    have readTag : c.u1 = (tag, ⟨rest, c.pos + 1, none⟩) := Cursor.Reads.u1 ⟨live, by simpa using bytes, rfl, rfl⟩
    obtain ⟨k, readPayload, wide⟩ : ∃ k, Constant.read? tag ⟨rest, c.pos + 1, none⟩ =
        some (k, Cursor.skip ⟨rest, c.pos + 1, none⟩ 8) ∧ k.isWide = true := by
      rcases tags with rfl | rfl
      · exact ⟨_, rfl, rfl⟩
      · exact ⟨_, rfl, rfl⟩
    have alive : Cursor.Live ⟨rest, c.pos + 1, none⟩ := rfl
    have failed : ¬(Cursor.skip ⟨rest, c.pos + 1, none⟩ 8).Live := by
      rw [Cursor.skip, Cursor.live_take alive]
      simp
      omega
    rw [readSlots, if_pos (by omega), readTag]
    simp only [readPayload, if_pos wide]
    split
    · rw [readSlots_full _ (by simp; omega)]
      exact ⟨_, _, rfl, failed⟩
    · exact ⟨_, _, rfl, failed⟩
  | cons e entries ih =>
    rw [List.length_cons, slotFrom_succ] at last
    rw [List.flatMap_cons, List.append_assoc] at bytes
    have room := le_slotFrom (slots.size + e.width) entries entries.length
    have reads : c.Reads e.encode ⟨entries.flatMap Entry.encode ++ tag :: rest, c.pos + e.encode.length, none⟩ :=
      ⟨live, bytes, rfl, rfl⟩
    have width := e.width_cases
    rw [readSlots_step (by omega) reads]
    by_cases wide : e.constant.isWide = true
    · have width := (Entry.slots_of_wide wide).1
      rw [if_pos wide, if_pos (by omega)]
      exact ih rfl rfl (by simpa [width] using last)
    · have width := (Entry.slots_of_narrow wide).1
      rw [if_neg wide]
      exact ih rfl rfl (by simpa [width] using last)

/-- A pool whose cursor has failed behind it is one that was cut short. -/
theorem read_failed_iff {c : Cursor} (live : c.Live) :
    (∃ pool c', read c = .ok (pool, c') ∧ ¬c'.Live) ↔
      ∃ (count : UInt16) (bytes : Bytes), c.rest = u2Bytes count ++ bytes ∧ CutShort count.toNat 1 bytes := by
  constructor
  · rintro ⟨pool, c', run, failed⟩
    unfold read at run
    dsimp only at run
    split at run
    · cases run
    next unfailed =>
    have counted := Cursor.fault?_eq_none.1 unfailed
    by_cases empty : c.u2.1 = 0
    · -- a pool without slots is read without a further look at the bytes
      rw [readSlots_full _ (by simp [empty])] at run
      obtain ⟨-, rfl⟩ := Prod.mk.inj (Except.ok.inj run)
      exact absurd counted failed
    · rw [if_neg empty] at run
      exact ⟨c.u2.1, c.u2.2.rest, (Cursor.u2_reads counted).rest_eq, cutShort_of_readSlots run counted failed⟩
  · rintro ⟨count, bytes, front, cut⟩
    have reads : c.Reads (u2Bytes count) ⟨bytes, c.pos + 2, none⟩ := ⟨live, front, rfl, rfl⟩
    have nonempty : count ≠ 0 := by
      rintro rfl
      obtain ⟨entries, -, -, -, -, -, last⟩ := cut
      simp at last
    have unfailed : Cursor.fault? ⟨bytes, c.pos + 2, none⟩ = none := rfl
    unfold read
    simp only [reads.u2, unfailed, if_neg nonempty]
    exact exists_readSlots_of_cutShort rfl cut

/-- Reading a pool at a cursor that has not failed.  If a pool is read without a failure, then what was read are a
number of slots and constants that fill them; every constant is at the slot that the widths before it give, and an
index of another slot is an index of nothing.  All such bytes are accepted.  A pool is read with a failure exactly if
its last constant is an eight-byte constant that is cut short. -/
theorem read_layout_exact (c : Cursor) (live : c.Live) :
    (∀ pool c', read c = .ok (pool, c') → c'.Live → ∃ (count : UInt16) (entries : List Entry),
      c.Reads (u2Bytes count ++ entries.flatMap Entry.encode) c' ∧ LaidOut count.toNat entries pool ∧
      ∀ index : UInt16, index.toNat < count.toNat → (∀ j < entries.length, index.toNat ≠ slotFrom 1 entries j) →
        pool.text index = .error (vacantFault index) ∧ pool.className index = .error (vacantFault index) ∧
        pool.nameAndType index = .error (vacantFault index) ∧ pool.methodSite index = .error (vacantFault index) ∧
        pool.dynamicSite index = .error (vacantFault index)) ∧
    (∀ (count : UInt16) (entries : List Entry) (c' : Cursor),
      c.Reads (u2Bytes count ++ entries.flatMap Entry.encode) c' →
      (∀ j < entries.length, slotFrom 1 entries j < count.toNat) → count.toNat ≤ slotFrom 1 entries entries.length →
      ∃ pool, read c = .ok (pool, c') ∧ LaidOut count.toNat entries pool) ∧
    ((∃ pool c', read c = .ok (pool, c') ∧ ¬c'.Live) ↔
      ∃ (count : UInt16) (bytes : Bytes), c.rest = u2Bytes count ++ bytes ∧ CutShort count.toNat 1 bytes) := by
  refine ⟨fun pool c' run live_after => ?_, fun count entries c' reads inside full => ?_, read_failed_iff live⟩
  · obtain ⟨count, entries, fills, reads, rfl⟩ := read_reads run live_after
    have laid := laidOut_layout fills
    exact ⟨count, entries, reads, laid, fun index below other => error_of_vacant (laid.vacant _ below other).1⟩
  · have fills : Fills count.toNat 1 entries := fills_iff.2 ⟨inside, full⟩
    exact ⟨layout count.toNat entries, read_eq fills reads, laidOut_layout fills⟩

/-- A pool of four slots with an eight-byte constant and a text, some bytes into a file. -/
def longThenText : Cursor := ⟨[0, 4, 5, 0, 0, 0, 0, 0, 0, 0, 9, 1, 0, 1, 0x41, 0xFF], 10, none⟩

/-- A pool of two slots whose only constant lacks seven of its eight bytes. -/
def cutLong : Cursor := ⟨[0, 2, 5, 7], 10, none⟩

theorem read_layout_exact_longThenText : longThenText.Live ∧ cutLong.Live ∧
    (∃ pool, read longThenText = .ok (pool, ⟨[0xFF], 25, none⟩) ∧
      LaidOut 4 [.long 0 9, .utf8 [0x41] (by decide)] pool) ∧
    ∃ pool c', read cutLong = .ok (pool, c') ∧ ¬c'.Live := by
  obtain ⟨-, accepted, -⟩ := read_layout_exact longThenText rfl
  obtain ⟨-, -, failed⟩ := read_layout_exact cutLong rfl
  refine ⟨rfl, rfl, ?_, failed.2 ⟨2, [5, 7], by decide, [], 5, [7], rfl, by decide, by decide, by decide⟩⟩
  exact accepted 4 [.long 0 9, .utf8 [0x41] (by decide)] ⟨[0xFF], 25, none⟩
    ⟨rfl, by decide, by decide, rfl⟩ (by decide) (by decide)

end ConstantPool

end JvmCoupling.ClassFile
