import JvmCoupling.ClassFile.Parse
import Mathlib.Algebra.Group.Nat.Defs
import Mathlib.Data.List.Forall2

/-! # Reading bytes exactly

`Cursor.Reads c b c'` says that a live cursor `c` stands in front of the bytes `b` and that `c'` is the
same cursor behind them.  Every reading operation is tied to this relation twice.  An operation that ends
in a live cursor has read the encoding of its result; and in front of an encoding the operation yields the
encoded value.  The failure of a cursor sticks, so a live cursor at the end of a chain of reads makes every
read of the chain exact.

* `u2Bytes`, `u4Bytes` — the big-endian bytes of a number;
* `Cursor.Reads` — exact reading, which composes over concatenation;
* `Cursor.rounds` — the loop shape that all counted tables share, with its two laws.
-/

namespace JvmCoupling.ClassFile

/-! ## Results -/

/-- A sequence of two computations succeeds when both do. -/
theorem bind_eq_ok {ε α β : Type} {x : Except ε α} {f : α → Except ε β} {b : β} :
    x >>= f = .ok b ↔ ∃ a, x = .ok a ∧ f a = .ok b := by
  cases x with
  | error e => simp [bind, Except.bind]
  | ok a => simp [bind, Except.bind]

@[simp] theorem ok_bind {ε α β : Type} (a : α) (f : α → Except ε β) :
    (Except.ok a >>= f) = f a := rfl

@[simp] theorem outsideCode_eq_ok {α : Type} {result : Except Fault α} {a : α} :
    outsideCode result = .ok a ↔ result = .ok a := by
  cases result <;> simp [outsideCode, Except.mapError]

theorem map_eq_ok {ε α β : Type} {x : Except ε α} {f : α → β} {b : β} :
    x.map f = .ok b ↔ ∃ a, x = .ok a ∧ f a = b := by
  cases x <;> simp [Except.map]

theorem mapError_eq_ok {ε ε' α : Type} {x : Except ε α} {f : ε → ε'} {a : α} :
    x.mapError f = .ok a ↔ x = .ok a := by
  cases x <;> simp [Except.mapError]

/-! ## Numbers as bytes -/

/-- The two bytes of a number, the most significant first. -/
def u2Bytes (x : UInt16) : Bytes := [.ofNat (x.toNat / 2 ^ 8), .ofNat x.toNat]

/-- The four bytes of a number, the most significant first. -/
def u4Bytes (x : UInt32) : Bytes :=
  [.ofNat (x.toNat / 2 ^ 24), .ofNat (x.toNat / 2 ^ 16), .ofNat (x.toNat / 2 ^ 8), .ofNat x.toNat]

@[simp] theorem length_u2Bytes (x : UInt16) : (u2Bytes x).length = 2 := rfl

@[simp] theorem length_u4Bytes (x : UInt32) : (u4Bytes x).length = 4 := rfl

theorem ofNat_bigEndian_u2Bytes (x : UInt16) : UInt16.ofNat (bigEndian (u2Bytes x)) = x := by
  have bound := x.toNat_lt
  apply UInt16.toNat_inj.1
  simp only [u2Bytes, bigEndian, List.foldl_cons, List.foldl_nil, UInt8.toNat_ofNat', UInt16.toNat_ofNat']
  omega

theorem ofNat_bigEndian_u4Bytes (x : UInt32) : UInt32.ofNat (bigEndian (u4Bytes x)) = x := by
  have bound := x.toNat_lt
  apply UInt32.toNat_inj.1
  simp only [u4Bytes, bigEndian, List.foldl_cons, List.foldl_nil, UInt8.toNat_ofNat', UInt32.toNat_ofNat']
  omega

theorem u2Bytes_ofNat_bigEndian {bytes : Bytes} (two : bytes.length = 2) :
    u2Bytes (.ofNat (bigEndian bytes)) = bytes := by
  match bytes, two with
  | [a, b], _ =>
    have ha := a.toNat_lt
    have hb := b.toNat_lt
    simp only [u2Bytes, bigEndian, List.foldl_cons, List.foldl_nil, UInt16.toNat_ofNat', List.cons.injEq,
      and_true, ← UInt8.toNat_inj, UInt8.toNat_ofNat']
    omega

theorem u4Bytes_ofNat_bigEndian {bytes : Bytes} (four : bytes.length = 4) :
    u4Bytes (.ofNat (bigEndian bytes)) = bytes := by
  match bytes, four with
  | [a, b, c, d], _ =>
    have ha := a.toNat_lt
    have hb := b.toNat_lt
    have hc := c.toNat_lt
    have hd := d.toNat_lt
    simp only [u4Bytes, bigEndian, List.foldl_cons, List.foldl_nil, UInt32.toNat_ofNat', List.cons.injEq,
      and_true, ← UInt8.toNat_inj, UInt8.toNat_ofNat']
    omega

theorem u4Bytes_injective {x y : UInt32} (equal : u4Bytes x = u4Bytes y) : x = y := by
  rw [← ofNat_bigEndian_u4Bytes x, equal, ofNat_bigEndian_u4Bytes]

/-- Two bytes are the bytes of a number. -/
theorem exists_u2Bytes {bytes : Bytes} (two : bytes.length = 2) : ∃ x, bytes = u2Bytes x :=
  ⟨_, (u2Bytes_ofNat_bigEndian two).symm⟩

/-- Four bytes are the bytes of a number. -/
theorem exists_u4Bytes {bytes : Bytes} (four : bytes.length = 4) : ∃ x, bytes = u4Bytes x :=
  ⟨_, (u4Bytes_ofNat_bigEndian four).symm⟩

namespace Cursor

/-! ## Exact reads -/

/-- No read has failed yet. -/
def Live (c : Cursor) : Prop := c.failedAt = none

/-- The live cursor `c` stands in front of `b`, and `c'` is the same cursor behind `b`. -/
structure Reads (c : Cursor) (b : Bytes) (c' : Cursor) : Prop where
  live : c.Live
  rest_eq : c.rest = b ++ c'.rest
  pos_eq : c'.pos = c.pos + b.length
  live_after : c'.Live

theorem Reads.refl {c : Cursor} (live : c.Live) : c.Reads [] c := ⟨live, rfl, rfl, live⟩

theorem Reads.append {c c' c'' : Cursor} {a b : Bytes} (first : c.Reads a c') (second : c'.Reads b c'') :
    c.Reads (a ++ b) c'' where
  live := first.live
  rest_eq := by rw [first.rest_eq, second.rest_eq, List.append_assoc]
  pos_eq := by rw [second.pos_eq, first.pos_eq, List.length_append, Nat.add_assoc]
  live_after := second.live_after

/-- Reading a concatenation is reading its parts one after the other. -/
theorem reads_append {c c'' : Cursor} {a b : Bytes} :
    c.Reads (a ++ b) c'' ↔ ∃ c', c.Reads a c' ∧ c'.Reads b c'' := by
  constructor
  · intro whole
    refine ⟨⟨b ++ c''.rest, c.pos + a.length, none⟩, ⟨whole.live, ?_, rfl, rfl⟩, ⟨rfl, rfl, ?_, whole.live_after⟩⟩
    · rw [whole.rest_eq, List.append_assoc]
    · rw [whole.pos_eq, List.length_append, Nat.add_assoc]
  · rintro ⟨c', first, second⟩
    exact first.append second

/-- The bytes that are read determine the cursor behind them. -/
theorem Reads.unique {c c₁ c₂ : Cursor} {b : Bytes} (first : c.Reads b c₁) (second : c.Reads b c₂) :
    c₁ = c₂ := by
  obtain ⟨rest₁, pos₁, failedAt₁⟩ := c₁
  obtain ⟨rest₂, pos₂, failedAt₂⟩ := c₂
  have restEq : rest₁ = rest₂ := List.append_cancel_left (first.rest_eq.symm.trans second.rest_eq)
  have posEq : pos₁ = pos₂ := first.pos_eq.trans second.pos_eq.symm
  have failedEq : failedAt₁ = failedAt₂ := Eq.trans first.live_after second.live_after.symm
  rw [restEq, posEq, failedEq]

theorem reads_nil {c c' : Cursor} : c.Reads [] c' ↔ c' = c ∧ c.Live := by
  constructor
  · intro reads
    exact ⟨reads.unique (.refl reads.live), reads.live⟩
  · rintro ⟨rfl, live⟩
    exact .refl live

/-! ## Reading operations -/

theorem take_reads {c : Cursor} {n : Int} (live : (c.take n).2.Live) :
    c.Reads (c.take n).1 (c.take n).2 ∧ ((c.take n).1.length : Int) = n := by
  unfold take at live ⊢
  split at live
  · -- a cursor that has failed is returned as it is
    next failed => simp_all [Live]
  · next alive =>
    simp only at live ⊢
    split at live
    · next fits =>
      rw [if_neg alive, if_pos fits]
      refine ⟨⟨by simpa [Live] using alive, (List.take_append_drop _ _).symm, ?_, live⟩, ?_⟩
      · simp only [fits.2]
      · simp only [fits.2]
        omega
    · simp [Live] at live

theorem Reads.take {c c' : Cursor} {b : Bytes} (reads : c.Reads b c') {n : Int}
    (length : (b.length : Int) = n) : c.take n = (b, c') := by
  subst length
  have alive : c.failedAt = none := reads.live
  have taken : c.rest.take b.length = b := by rw [reads.rest_eq, List.take_left]
  have dropped : c.rest.drop b.length = c'.rest := by rw [reads.rest_eq, List.drop_left]
  have after : ({ c with rest := c'.rest, pos := c.pos + b.length } : Cursor) = c' := by
    obtain ⟨rest, pos, failedAt⟩ := c'
    simp only [mk.injEq, true_and]
    exact ⟨reads.pos_eq.symm, alive.trans reads.live_after.symm⟩
  simp only [Cursor.take, alive, Option.isSome_none, Bool.false_eq_true, if_false, Int.toNat_natCast, taken,
    dropped, Int.natCast_nonneg, and_self, if_true, Prod.mk.injEq, true_and]
  rw [← after, alive]

/-- A read that asks for more bytes than are left, or for fewer than none, fails where it stands. -/
theorem take_of_short {c : Cursor} (live : c.Live) {n : Int} (short : ¬(0 ≤ n ∧ n ≤ c.rest.length)) :
    c.take n = ([], { c with failedAt := some c.pos }) := by
  have alive : c.failedAt = none := live
  have refused : ¬(0 ≤ n ∧ (c.rest.take n.toNat).length = n.toNat) := by
    rw [List.length_take]
    omega
  simp only [take, alive, Option.isSome_none, Bool.false_eq_true, if_false, if_neg refused]

/-- Only such a read fails. -/
theorem live_take {c : Cursor} (live : c.Live) {n : Int} : (c.take n).2.Live ↔ 0 ≤ n ∧ n ≤ c.rest.length := by
  constructor
  · intro live_after
    by_contra short
    rw [take_of_short live short] at live_after
    cases live_after
  · rintro ⟨nonneg, enough⟩
    have reads : c.Reads (c.rest.take n.toNat) ⟨c.rest.drop n.toNat, c.pos + n.toNat, none⟩ :=
      ⟨live, (List.take_append_drop _ _).symm, by simp; omega, rfl⟩
    rw [reads.take (by rw [List.length_take]; omega)]
    rfl

/-- After a failure nothing is read and nothing changes. -/
theorem take_of_failed {c : Cursor} (failed : ¬c.Live) (n : Int) : c.take n = ([], c) :=
  if_pos (by simpa [Live, Option.isSome_iff_ne_none] using failed)

theorem u1_of_failed {c : Cursor} (failed : ¬c.Live) : c.u1 = (0, c) := by
  simp [u1, take_of_failed failed, bigEndian]

theorem u2_of_failed {c : Cursor} (failed : ¬c.Live) : c.u2 = (0, c) := by
  simp [u2, take_of_failed failed, bigEndian]

theorem u4_of_failed {c : Cursor} (failed : ¬c.Live) : c.u4 = (0, c) := by
  simp [u4, take_of_failed failed, bigEndian]

theorem skip_reads {c : Cursor} {n : Int} (live : (c.skip n).Live) :
    ∃ b : Bytes, (b.length : Int) = n ∧ c.Reads b (c.skip n) :=
  ⟨_, (take_reads live).2, (take_reads live).1⟩

theorem fault?_eq_none {c : Cursor} : c.fault? = none ↔ c.Live := by
  simp [fault?, Live]

theorem Reads.skip {c c' : Cursor} {b : Bytes} (reads : c.Reads b c') {n : Int}
    (length : (b.length : Int) = n) : c.skip n = c' := by
  rw [Cursor.skip, reads.take length]

theorem u1_reads {c : Cursor} (live : c.u1.2.Live) : c.Reads [c.u1.1] c.u1.2 := by
  obtain ⟨reads, length⟩ := take_reads (n := 1) live
  obtain ⟨b, single⟩ := List.length_eq_one_iff.1 (by omega : (c.take 1).1.length = 1)
  have value : c.u1.1 = b := by simp [u1, single, bigEndian]
  rw [value, ← single]
  exact reads

theorem u2_reads {c : Cursor} (live : c.u2.2.Live) : c.Reads (u2Bytes c.u2.1) c.u2.2 := by
  obtain ⟨reads, length⟩ := take_reads (n := 2) live
  have two : (c.take 2).1.length = 2 := by omega
  have bytes : u2Bytes c.u2.1 = (c.take 2).1 := u2Bytes_ofNat_bigEndian two
  rw [bytes]
  exact reads

theorem u4_reads {c : Cursor} (live : c.u4.2.Live) : c.Reads (u4Bytes c.u4.1) c.u4.2 := by
  obtain ⟨reads, length⟩ := take_reads (n := 4) live
  have four : (c.take 4).1.length = 4 := by omega
  have bytes : u4Bytes c.u4.1 = (c.take 4).1 := u4Bytes_ofNat_bigEndian four
  rw [bytes]
  exact reads

theorem Reads.u1 {c c' : Cursor} {x : UInt8} (reads : c.Reads [x] c') : c.u1 = (x, c') := by
  have taken : c.take 1 = ([x], c') := reads.take rfl
  simp [Cursor.u1, taken, bigEndian]

theorem Reads.u2 {c c' : Cursor} {x : UInt16} (reads : c.Reads (u2Bytes x) c') : c.u2 = (x, c') := by
  have taken : c.take 2 = (u2Bytes x, c') := reads.take rfl
  simp [Cursor.u2, taken, ofNat_bigEndian_u2Bytes]

theorem Reads.u4 {c c' : Cursor} {x : UInt32} (reads : c.Reads (u4Bytes x) c') : c.u4 = (x, c') := by
  have taken : c.take 4 = (u4Bytes x, c') := reads.take rfl
  simp [Cursor.u4, taken, ofNat_bigEndian_u4Bytes]

/-! ## Length prefixed bytes -/

theorem u2_take_reads {c c' : Cursor} {b : Bytes} (run : c.u2.2.take c.u2.1.toNat = (b, c')) (live : c'.Live) :
    b.length < 2 ^ 16 ∧ c.Reads (u2Bytes (.ofNat b.length) ++ b) c' := by
  obtain ⟨reads, length⟩ : c.u2.2.Reads b c' ∧ (b.length : Int) = c.u2.1.toNat := by
    simpa only [run] using take_reads (c := c.u2.2) (n := c.u2.1.toNat) (by rwa [run])
  rw [Int.ofNat_inj.1 length, UInt16.ofNat_toNat]
  exact ⟨c.u2.1.toNat_lt, (u2_reads reads.live).append reads⟩

theorem u4_take_reads {c c' : Cursor} {b : Bytes} (run : c.u4.2.take c.u4.1.toNat = (b, c')) (live : c'.Live) :
    b.length < 2 ^ 32 ∧ c.Reads (u4Bytes (.ofNat b.length) ++ b) c' := by
  obtain ⟨reads, length⟩ : c.u4.2.Reads b c' ∧ (b.length : Int) = c.u4.1.toNat := by
    simpa only [run] using take_reads (c := c.u4.2) (n := c.u4.1.toNat) (by rwa [run])
  rw [Int.ofNat_inj.1 length, UInt32.ofNat_toNat]
  exact ⟨c.u4.1.toNat_lt, (u4_reads reads.live).append reads⟩

theorem Reads.u2_take {c c' : Cursor} {b : Bytes} (fits : b.length < 2 ^ 16)
    (reads : c.Reads (u2Bytes (.ofNat b.length) ++ b) c') : c.u2.2.take c.u2.1.toNat = (b, c') := by
  obtain ⟨c₁, size, bytes⟩ := reads_append.1 reads
  have length : (UInt16.ofNat b.length).toNat = b.length := UInt16.toNat_ofNat_of_lt' fits
  rw [size.u2]
  exact bytes.take (by rw [length])

theorem Reads.u4_take {c c' : Cursor} {b : Bytes} (fits : b.length < 2 ^ 32)
    (reads : c.Reads (u4Bytes (.ofNat b.length) ++ b) c') : c.u4.2.take c.u4.1.toNat = (b, c') := by
  obtain ⟨c₁, size, bytes⟩ := reads_append.1 reads
  have length : (UInt32.ofNat b.length).toNat = b.length := UInt32.toNat_ofNat_of_lt' fits
  rw [size.u4]
  exact bytes.take (by rw [length])

/-! ## Counted tables

A table is read by as many rounds as its count says, and a failure ends the rounds early.  What one round
does to one item of the table carries over to the whole table. -/

variable {ε α β : Type} {step : Array β → Cursor → Except ε (Array β × Cursor)}
  {encode : α → Bytes} {Yields : α → List β → Prop}

/-- `n` rounds of a step that gathers results, up to the first failure of the cursor. -/
def rounds (step : Array β → Cursor → Except ε (Array β × Cursor)) :
    Nat → Array β → Cursor → Except ε (Array β × Cursor)
  | 0, found, c => .ok (found, c)
  | n + 1, found, c =>
    if c.failedAt.isSome then .ok (found, c)
    else do
      let (found, c) ← step found c
      rounds step n found c

theorem rounds_reads
    (step_reads : ∀ {found c found' c'}, step found c = .ok (found', c') → c'.Live →
      ∃ item results, c.Reads (encode item) c' ∧ Yields item results ∧ found'.toList = found.toList ++ results)
    {n : Nat} {found found' : Array β} {c c' : Cursor}
    (run : rounds step n found c = .ok (found', c')) (live : c'.Live) :
    ∃ items results, items.length = n ∧ c.Reads (items.flatMap encode) c' ∧
      List.Forall₂ Yields items results ∧ found'.toList = found.toList ++ results.flatten := by
  induction n generalizing found c with
  | zero =>
    simp only [rounds, Except.ok.injEq, Prod.mk.injEq] at run
    obtain ⟨rfl, rfl⟩ := run
    exact ⟨[], [], rfl, .refl live, .nil, by simp⟩
  | succ n ih =>
    rw [rounds] at run
    split at run
    · next failed =>
      -- the loop stops at a failure, which the cursor at the end would still show
      simp only [Except.ok.injEq, Prod.mk.injEq] at run
      obtain ⟨rfl, rfl⟩ := run
      rw [Live] at live
      simp [live] at failed
    · simp only [bind_eq_ok] at run
      obtain ⟨⟨found₁, c₁⟩, first, others⟩ := run
      obtain ⟨items, results, length, reads, yields, gathered⟩ := ih others
      obtain ⟨item, result, readsFirst, yieldsFirst, gatheredFirst⟩ := step_reads first reads.live
      refine ⟨item :: items, result :: results, by simp [length], readsFirst.append reads,
        .cons yieldsFirst yields, ?_⟩
      rw [gathered, gatheredFirst, List.flatten_cons, List.append_assoc]

theorem Reads.rounds
    (step_eq : ∀ {found c c' item results}, c.Reads (encode item) c' → Yields item results →
      step found c = .ok (found ++ results, c'))
    {items : List α} {results : List (List β)} {c c' : Cursor} (found : Array β)
    (reads : c.Reads (items.flatMap encode) c') (yields : List.Forall₂ Yields items results) :
    Cursor.rounds step items.length found c = .ok (found ++ results.flatten, c') := by
  induction yields generalizing found c with
  | nil =>
    obtain ⟨rfl, -⟩ := reads_nil.1 reads
    simp [Cursor.rounds]
  | @cons item result items results yieldsFirst _ ih =>
    rw [List.flatMap_cons] at reads
    -- the cursor in front of an item is live, so the loop does not stop at it
    obtain ⟨c₁, readsFirst, readsOthers⟩ := reads_append.1 reads
    have alive : c.failedAt = none := readsFirst.live
    simp only [List.length_cons, Cursor.rounds, alive, Option.isSome_none, Bool.false_eq_true, if_false,
      step_eq readsFirst yieldsFirst, ok_bind, ih _ readsOthers, List.flatten_cons]
    congr 2
    apply Array.toList_inj.1
    simp

section Gathering

variable {read : Cursor → Except ε (β × Cursor)} {Means : α → β → Prop}

/-- The step of a table in which every item has one result. -/
def gather (read : Cursor → Except ε (β × Cursor)) (found : Array β) (c : Cursor) :
    Except ε (Array β × Cursor) := do
  let (result, c) ← read c
  return (found.push result, c)

theorem gather_reads
    (read_reads : ∀ {c result c'}, read c = .ok (result, c') → c'.Live →
      ∃ item, c.Reads (encode item) c' ∧ Means item result)
    {n : Nat} {found : Array β} {c c' : Cursor}
    (run : rounds (gather read) n #[] c = .ok (found, c')) (live : c'.Live) :
    ∃ items, items.length = n ∧ c.Reads (items.flatMap encode) c' ∧ List.Forall₂ Means items found.toList := by
  have step_reads : ∀ {found c found' c'}, gather read found c = .ok (found', c') → c'.Live →
      ∃ item results, c.Reads (encode item) c' ∧ (∃ result, Means item result ∧ results = [result]) ∧
        found'.toList = found.toList ++ results := by
    intro found c found' c' run live
    simp only [gather, bind_eq_ok] at run
    obtain ⟨⟨result, c₁⟩, run, pushed⟩ := run
    obtain ⟨rfl, rfl⟩ := Prod.mk.inj (Except.ok.inj pushed)
    obtain ⟨item, reads, means⟩ := read_reads run live
    exact ⟨item, [result], reads, ⟨result, means, rfl⟩, by simp⟩
  -- every round yields a list of one result, and these lists are joined again
  obtain ⟨items, results, length, reads, yields, gathered⟩ := rounds_reads step_reads run live
  refine ⟨items, length, reads, ?_⟩
  rw [gathered, List.nil_append]
  clear reads gathered length
  induction yields with
  | nil => exact .nil
  | cons first _ ih =>
    obtain ⟨result, means, rfl⟩ := first
    exact .cons means ih

theorem Reads.gather
    (read_eq : ∀ {c c' item result}, c.Reads (encode item) c' → Means item result → read c = .ok (result, c'))
    {items : List α} {results : List β} {c c' : Cursor} (reads : c.Reads (items.flatMap encode) c')
    (means : List.Forall₂ Means items results) :
    Cursor.rounds (Cursor.gather read) items.length #[] c = .ok (results.toArray, c') := by
  have step_eq : ∀ {found c c' item results}, c.Reads (encode item) c' →
      (∃ result, Means item result ∧ results = [result]) →
      Cursor.gather read found c = .ok (found ++ results, c') := by
    rintro found c c' item - reads ⟨result, means, rfl⟩
    simp only [Cursor.gather, read_eq reads means, ok_bind]
    simp [pure, Except.pure]
  have yields : List.Forall₂ (fun item results => ∃ result, Means item result ∧ results = [result]) items
      (results.map fun result => [result]) :=
    List.forall₂_map_right_iff.2 (means.imp fun item result means => ⟨result, means, rfl⟩)
  have run := Reads.rounds step_eq #[] reads yields
  rw [← List.flatMap_def, List.flatMap_singleton'] at run
  rw [run]
  simp

end Gathering

section Skipping

variable {skip : Cursor → Cursor} (loop : Nat → Cursor → Cursor) (zero : ∀ c, loop 0 c = c)
  (succ : ∀ n c, loop (n + 1) c = if c.failedAt.isSome then c else loop n (skip c))

include zero succ

theorem skipping_reads (skip_reads : ∀ {c}, (skip c).Live → ∃ item, c.Reads (encode item) (skip c))
    {n : Nat} {c : Cursor} (live : (loop n c).Live) :
    ∃ items : List α, items.length = n ∧ c.Reads (items.flatMap encode) (loop n c) := by
  induction n generalizing c with
  | zero =>
    rw [zero] at live ⊢
    exact ⟨[], rfl, .refl live⟩
  | succ n ih =>
    rw [succ] at live ⊢
    split at live
    · next failed =>
      rw [Live] at live
      simp [live] at failed
    · next alive =>
      obtain ⟨items, length, reads⟩ := ih live
      obtain ⟨item, readsFirst⟩ := skip_reads reads.live
      rw [if_neg alive]
      exact ⟨item :: items, by simp [length], readsFirst.append reads⟩

theorem Reads.skipping (skip_eq : ∀ {c c' item}, c.Reads (encode item) c' → skip c = c')
    {items : List α} {c c' : Cursor} (reads : c.Reads (items.flatMap encode) c') :
    loop items.length c = c' := by
  induction items generalizing c with
  | nil => rw [List.length_nil, zero, (reads_nil.1 reads).1]
  | cons item items ih =>
    obtain ⟨c₁, readsFirst, readsOthers⟩ := reads_append.1 reads
    have alive : c.failedAt = none := readsFirst.live
    rw [List.length_cons, succ, if_neg (by simp [alive]), skip_eq readsFirst, ih readsOthers]

end Skipping

end Cursor

/-- A list that fits the two-byte count in front of it. -/
abbrev Table (α : Type) := { items : List α // items.length < 2 ^ 16 }

/-- The bytes of a table: the count and the items. -/
def Table.encode {α : Type} (encodeItem : α → Bytes) (table : Table α) : Bytes :=
  u2Bytes (.ofNat table.1.length) ++ table.1.flatMap encodeItem

namespace Cursor

variable {α : Type} {encodeItem : α → Bytes}

theorem table_reads {c c' : Cursor} {items : List α} (length : items.length = c.u2.1.toNat)
    (reads : c.u2.2.Reads (items.flatMap encodeItem) c') :
    ∃ table : Table α, table.1 = items ∧ c.Reads (table.encode encodeItem) c' := by
  refine ⟨⟨items, length ▸ c.u2.1.toNat_lt⟩, rfl, ?_⟩
  have count : UInt16.ofNat items.length = c.u2.1 := by rw [length, UInt16.ofNat_toNat]
  simp only [Table.encode, count]
  exact (u2_reads reads.live).append reads

theorem Reads.table {c c' : Cursor} {table : Table α} (reads : c.Reads (table.encode encodeItem) c') :
    c.u2.1.toNat = table.1.length ∧ c.u2.2.Reads (table.1.flatMap encodeItem) c' := by
  obtain ⟨c₁, count, items⟩ := reads_append.1 reads
  rw [count.u2]
  exact ⟨UInt16.toNat_ofNat_of_lt' table.2, items⟩

end Cursor

end JvmCoupling.ClassFile
