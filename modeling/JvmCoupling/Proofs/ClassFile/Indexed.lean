import JvmCoupling.ClassPath.Load
import JvmCoupling.Proofs.ClassFile.Bounds
import JvmCoupling.Proofs.ClassFile.Reader

/-! # Agreement of readers and cursors

On fewer than 2^62 bytes the parser over readers has the result of the parser over cursors.  That is never a
read outside a table, so no access by position is out of bounds.

* `Reader.Views` — a reader and a cursor at the same place;
* `Agrees` — computations that fail alike or have related results;
* `Filled` — a pool that is filled slot by slot;
* `parse_inBounds` — the two parsers agree, and a file that fails is a class that is skipped.
-/

namespace JvmCoupling.ClassFile

/-! ## Agreement -/

theorem Cursor.take_natCast {c : Cursor} (n : Nat) (alive : c.failedAt = none) :
    c.take n =
      if n ≤ c.rest.length then (c.rest.take n, { c with rest := c.rest.drop n, pos := c.pos + n })
      else ([], { c with failedAt := some c.pos }) := by
  have enough : (0 ≤ (n : Int) ∧ (c.rest.take n).length = n) ↔ n ≤ c.rest.length := by
    rw [List.length_take]
    omega
  simp only [take, alive, Option.isSome_none, Bool.false_eq_true, if_false, Int.toNat_natCast, enough]

/-- A reader stands where a cursor does.  The bytes are few enough for positions to be words. -/
structure Reader.Views (r : Reader) (c : Cursor) : Prop where
  short : r.data.length < 2 ^ 62
  inside : c.pos ≤ r.data.length
  toInt_pos : r.pos.toInt = c.pos
  rest_eq : c.rest = r.data.drop c.pos
  failure_eq : r.failure = c.fault?

/-- A value with a reader, and the same value with a cursor at the same place. -/
def Paired {α : Type} (p : α × Reader) (q : α × Cursor) : Prop := p.1 = q.1 ∧ p.2.Views q.2

/-- Two computations fail alike, or have related results. -/
inductive Agrees {ε ρ γ : Type} (R : ρ → γ → Prop) : Except ε ρ → Except ε γ → Prop where
  | ok {a : ρ} {b : γ} (related : R a b) : Agrees R (.ok a) (.ok b)
  | error (e : ε) : Agrees R (.error e) (.error e)

namespace Agrees

variable {ε ρ γ ρ' γ' α : Type} {R : ρ → γ → Prop} {S : ρ' → γ' → Prop}

theorem bind {x : Except ε ρ} {y : Except ε γ} {f : ρ → Except ε ρ'} {g : γ → Except ε γ'} (agrees : Agrees R x y)
    (next : ∀ a b, R a b → Agrees S (f a) (g b)) : Agrees S (x >>= f) (y >>= g) := by
  cases agrees with
  | ok related => exact next _ _ related
  | error e => exact .error e

/-- A read that a cursor makes without fail. -/
theorem read {x : Except ε ρ} {b : γ} {f : ρ → Except ε ρ'} {y : Except ε γ'} (agrees : Agrees R x (.ok b))
    (next : ∀ a, R a b → Agrees S (f a) y) : Agrees S (x >>= f) y := by
  cases agrees with
  | ok related => exact next _ related

/-- The same where a value is read: both sides go on with one value. -/
theorem readPair {x : Except ε (α × Reader)} {q : α × Cursor} {f : α × Reader → Except ε ρ'} {y : Except ε γ'}
    (agrees : Agrees Paired x (.ok q)) (next : ∀ r, r.Views q.2 → Agrees S (f (q.1, r)) y) :
    Agrees S (x >>= f) y := by
  refine agrees.read fun (a, r) ⟨same, views⟩ => ?_
  obtain rfl : a = q.1 := same
  exact next r views

theorem bindPair {x : Except ε (α × Reader)} {y : Except ε (α × Cursor)} {f : α × Reader → Except ε ρ'}
    {g : α × Cursor → Except ε γ'} (agrees : Agrees Paired x y)
    (next : ∀ a r c, r.Views c → Agrees S (f (a, r)) (g (a, c))) : Agrees S (x >>= f) (y >>= g) := by
  refine agrees.bind fun (a, r) (a', c) ⟨same, views⟩ => ?_
  obtain rfl : a = a' := same
  exact next a r c views

/-- A part that both sides share. -/
theorem both {x : Except ε α} {f : α → Except ε ρ'} {g : α → Except ε γ'}
    (next : ∀ a, Agrees S (f a) (g a)) : Agrees S (x >>= f) (x >>= g) := by
  cases x with
  | error e => exact .error e
  | ok a => exact next a

theorem imp {R' : ρ → γ → Prop} {x : Except ε ρ} {y : Except ε γ} (agrees : Agrees R x y)
    (weaker : ∀ a b, R a b → R' a b) : Agrees R' x y := by
  cases agrees with
  | ok related => exact .ok (weaker _ _ related)
  | error e => exact .error e

theorem exists_ok {x : Except ε ρ} {b : γ} (agrees : Agrees R x (.ok b)) : ∃ a, x = .ok a ∧ R a b := by
  cases agrees with
  | ok related => exact ⟨_, rfl, related⟩

theorem eq {x y : Except ε ρ} (agrees : Agrees Eq x y) : x = y := by
  cases agrees with
  | ok related => rw [related]
  | error e => rfl

end Agrees

namespace Reader

variable {r : Reader} {c : Cursor}

theorem Views.failed_iff (views : r.Views c) : r.failure.isSome = c.failedAt.isSome := by
  rw [views.failure_eq, Cursor.fault?, Option.isSome_map]

theorem Views.toInt_pos_add (views : r.Views c) {n : Nat} (small : n < 2 ^ 32) :
    (r.pos + Int64.ofNat n).toInt = c.pos + n := by
  have short := views.short
  have inside := views.inside
  have size : (Int64.ofNat n).toInt = n := Int64.toInt_ofNat_of_lt (by omega)
  -- a position below 2^62 and a 32-bit length do not reach the sign bit
  rw [Int64.toInt_add, views.toInt_pos, size, bmod_word (by omega) (by omega)]

/-- What a read past the end is compared with is the sum of two numbers. -/
theorem Views.overruns_iff (views : r.Views c) {n : Nat} (small : n < 2 ^ 32) :
    (Int64.ofNat n < 0 ∨ Int64.ofNat r.data.length < r.pos + Int64.ofNat n) ↔ r.data.length < c.pos + n := by
  have short := views.short
  have size : (Int64.ofNat n).toInt = n := Int64.toInt_ofNat_of_lt (by omega)
  have length : (Int64.ofNat r.data.length).toInt = r.data.length := Int64.toInt_ofNat_of_lt (by omega)
  have zero : (0 : Int64).toInt = 0 := rfl
  rw [Int64.lt_iff_toInt_lt, Int64.lt_iff_toInt_lt, size, length, zero, views.toInt_pos_add small]
  omega

/-- A read that is not past the end cuts a slice inside the bytes. -/
theorem Views.slice_eq (views : r.Views c) {n : Nat} (small : n < 2 ^ 32) (fits : c.pos + n ≤ r.data.length) :
    slice r.data r.pos (r.pos + Int64.ofNat n) = .ok (c.rest.take n) := by
  rw [slice, views.toInt_pos, views.toInt_pos_add small, if_pos (by omega), views.rest_eq]
  simp

/-- The bytes that a read returns: nothing after a failure, else as many as it asks for. -/
def Returns (n : Nat) (bytes? : Option Bytes) (bytes : Bytes) : Prop :=
  bytes? = none ∧ bytes = [] ∨ bytes? = some bytes ∧ bytes.length = n

theorem Views.take (views : r.Views c) {n : Nat} (small : n < 2 ^ 32) :
    Agrees (fun p q => Returns n p.1 q.1 ∧ p.2.Views q.2) (r.take (.ofNat n)) (.ok (c.take n)) := by
  have length : c.rest.length = r.data.length - c.pos := by rw [views.rest_eq, List.length_drop]
  have inside := views.inside
  unfold Reader.take
  rw [views.failed_iff]
  split
  · next failed =>
    rw [Cursor.take, if_pos failed]
    exact .ok ⟨.inl ⟨rfl, rfl⟩, views⟩
  next alive =>
  rw [Cursor.take_natCast n (by simpa using alive)]
  split
  · next past =>
    rw [views.overruns_iff small] at past
    rw [if_neg (by omega), views.toInt_pos]
    exact .ok ⟨.inl ⟨rfl, rfl⟩, ⟨views.short, inside, views.toInt_pos, views.rest_eq, rfl⟩⟩
  · next fits =>
    rw [views.overruns_iff small] at fits
    have enough : n ≤ c.rest.length := by omega
    rw [if_pos enough, views.slice_eq small (by omega)]
    refine .ok ⟨.inr ⟨rfl, List.length_take_of_le enough⟩, ⟨views.short, ?_, ?_, ?_, views.failure_eq⟩⟩
    · change c.pos + n ≤ r.data.length
      omega
    · change (r.pos + Int64.ofNat n).toInt = ((c.pos + n : Nat) : Int)
      rw [views.toInt_pos_add small, Int.natCast_add]
    · change c.rest.drop n = r.data.drop (c.pos + n)
      rw [views.rest_eq, List.drop_drop]

theorem Views.bytes (views : r.Views c) {n : Nat} (small : n < 2 ^ 32) :
    Agrees Paired (r.bytes n) (.ok (c.take n)) := by
  refine (views.take small).read fun (bytes?, r) ⟨returns, after⟩ => .ok ⟨?_, after⟩
  rcases returns with ⟨rfl, none⟩ | ⟨rfl, -⟩
  · exact none.symm
  · rfl

theorem Views.skip (views : r.Views c) {n : Nat} (small : n < 2 ^ 32) : Agrees Views (r.skip n) (.ok (c.skip n)) :=
  (views.take small).read fun _ ⟨_, after⟩ => .ok after

/-- A number is decoded from exactly as many bytes as it has. -/
theorem Views.number (views : r.Views c) {α : Type} {zero : α} {decode : Code → Except Fault α} {n : Nat}
    (small : n < 2 ^ 32) (value : Bytes → α) (value_nil : value [] = zero)
    (decodes : ∀ bytes : Bytes, bytes.length = n → decode bytes.toArray = .ok (value bytes)) :
    Agrees Paired (r.number zero decode n) (.ok (value (c.take n).1, (c.take n).2)) := by
  refine (views.take small).read fun (bytes?, r) ⟨returns, after⟩ => ?_
  rcases returns with ⟨rfl, none⟩ | ⟨rfl, length⟩
  · exact .ok ⟨by simp only [none, value_nil], after⟩
  · simp only [decodes _ length]
    exact .ok ⟨rfl, after⟩

theorem Views.u1 (views : r.Views c) : Agrees Paired r.u1 (.ok c.u1) := by
  refine views.number (n := 1) (by decide) (fun bytes => UInt8.ofNat (bigEndian bytes)) rfl fun bytes length => ?_
  obtain ⟨b, rfl⟩ := List.length_eq_one_iff.1 length
  simp [Code.byteAt, bigEndian]

theorem Views.u2 (views : r.Views c) : Agrees Paired r.u2 (.ok c.u2) := by
  refine views.number (n := 2) (by decide) (fun bytes => UInt16.ofNat (bigEndian bytes)) rfl fun bytes length => ?_
  obtain ⟨a, b, rfl⟩ := List.length_eq_two.1 length
  rfl

theorem Views.u4 (views : r.Views c) : Agrees Paired r.u4 (.ok c.u4) := by
  refine views.number (n := 4) (by decide) (fun bytes => UInt32.ofNat (bigEndian bytes)) rfl fun bytes length => ?_
  match bytes, length with
  | [a, b, c, d], _ => rfl

/-! ## The constant pool -/

theorem Views.payload (views : r.Views c) (p : Payload) :
    Agrees Paired (r.payload p) (.ok (p.read c)) := by
  cases p with
  | text =>
    refine views.u2.readPair fun r views => ?_
    have fits : c.u2.1.toNat < 2 ^ 32 := by have := c.u2.1.toNat_lt; omega
    exact (views.bytes fits).readPair fun r views => .ok ⟨rfl, views⟩
  | number width constant =>
    have fits : width.toNat < 2 ^ 32 := by have := width.toNat_lt; omega
    exact (views.skip fits).read fun r views => .ok ⟨rfl, views⟩
  | index make => exact views.u2.readPair fun r views => .ok ⟨rfl, views⟩
  | kindAndIndex make =>
    exact (views.skip (n := 1) (by decide)).read fun r views => views.u2.readPair fun r views => .ok ⟨rfl, views⟩
  | indices make =>
    exact views.u2.readPair fun r views => views.u2.readPair fun r views => .ok ⟨rfl, views⟩

/-- A pool of `count` slots, filled up to the size of `slots`. -/
structure Filled (count : Nat) (slots pool : ConstantPool) : Prop where
  room : slots.size ≤ count
  toList_eq : pool.toList = slots.toList ++ List.replicate (count - slots.size) .vacant

namespace Filled

variable {count : Nat} {slots pool : ConstantPool}

/-- A new pool counts as filled up to slot 0, which stays vacant. -/
theorem start (positive : 0 < count) : Filled count #[.vacant] (Array.replicate count .vacant) := by
  refine ⟨positive, ?_⟩
  obtain ⟨n, rfl⟩ := Nat.exists_eq_succ_of_ne_zero (by omega : count ≠ 0)
  rw [Array.toList_replicate, List.replicate_succ]
  rfl

theorem size_eq (filled : Filled count slots pool) : pool.size = count := by
  have room := filled.room
  rw [← Array.length_toList, filled.toList_eq]
  simp
  omega

/-- The next slot is there, and filling it fills the pool by one slot. -/
theorem store (filled : Filled count slots pool) (more : slots.size < count) (k : Constant) :
    ∃ pool', pool.store slots.size k = .ok pool' ∧ Filled count (slots.push k) pool' := by
  have size := filled.size_eq
  refine ⟨_, if_pos (by omega), ⟨by rwa [Array.size_push], ?_⟩⟩
  have next : count - slots.size = count - (slots.size + 1) + 1 := by omega
  rw [Array.toList_setIfInBounds, filled.toList_eq, next, List.replicate_succ]
  simp

/-- A slot that is passed over is vacant already. -/
theorem push_vacant (filled : Filled count slots pool) (more : slots.size < count) :
    Filled count (slots.push .vacant) pool := by
  refine ⟨by rwa [Array.size_push], ?_⟩
  have next : count - slots.size = count - (slots.size + 1) + 1 := by omega
  rw [filled.toList_eq, next, List.replicate_succ]
  simp

theorem eq_of_full (filled : Filled count slots pool) (full : count ≤ slots.size) : pool = slots := by
  apply Array.toList_inj.1
  rw [filled.toList_eq, Nat.sub_eq_zero_of_le full, List.replicate_zero, List.append_nil]

end Filled

theorem Views.checked (views : r.Views c) : r.checked = ClassFile.checked c := by
  have failure := views.failure_eq
  cases failed : c.fault? with
  | none =>
    rw [failed] at failure
    simp only [Reader.checked, ClassFile.checked, failure, failed]
  | some fault =>
    rw [failed] at failure
    simp only [Reader.checked, ClassFile.checked, failure, failed]

/-- The slot that is filled next is the number of slots filled so far. -/
theorem Views.readSlots {r : Reader} {c : Cursor} {count : Nat} {slots pool : ConstantPool} (views : r.Views c)
    (filled : Filled count slots pool) :
    Agrees Paired (readSlots count slots.size pool r) (outsideCode (ConstantPool.readSlots count slots c)) := by
  rw [Reader.readSlots, ConstantPool.readSlots]
  split
  case isFalse full =>
    exact .ok ⟨filled.eq_of_full (by omega), views⟩
  case isTrue more =>
    refine views.u1.readPair fun r views => ?_
    dsimp only
    rw [read?_eq_payload]
    cases payload? c.u1.1 with
    | none =>
      dsimp only [Option.map_none]
      rw [views.failure_eq]
      exact .error _
    | some p =>
      refine (views.payload p).readPair fun r views => ?_
      obtain ⟨pool', stored, filled'⟩ := filled.store more (p.read c.u1.2).1
      dsimp only [Option.map_some]
      split
      · -- behind an eight-byte constant the next slot is passed over, if there is one
        rw [stored]
        split
        · next room =>
          have again := views.readSlots (filled'.push_vacant (by rwa [Array.size_push]))
          rw [Array.size_push, Array.size_push] at again
          exact again
        · next last =>
          -- its second slot would lie past the pool, and is never written
          refine (?_ : Agrees Paired (Reader.readSlots count (slots.size + 2) pool' r) (.ok _))
          rw [Reader.readSlots, if_neg (by omega)]
          exact .ok ⟨filled'.eq_of_full (by rw [Array.size_push]; omega), views⟩
      · rw [views.checked, stored]
        unfold ClassFile.checked
        cases (p.read c.u1.2).2.fault? with
        | some fault => exact .error _
        | none =>
          have again := views.readSlots filled'
          rw [Array.size_push] at again
          exact again
termination_by count - slots.size
decreasing_by all_goals simp only [Array.size_push]; omega

theorem Views.readPool (views : r.Views c) : Agrees Paired r.readPool (outsideCode (ConstantPool.read c)) := by
  refine views.u2.readPair fun r views => ?_
  dsimp only
  rw [views.checked]
  unfold ConstantPool.read ClassFile.checked
  dsimp only
  cases c.u2.2.fault? with
  | some fault => exact .error _
  | none =>
    dsimp only
    split
    · next empty =>
      -- a pool without slots has no vacant slot 0 either
      rw [empty]
      refine (?_ : Agrees Paired (Reader.readSlots 0 1 #[] r) (outsideCode (ConstantPool.readSlots 0 #[] c.u2.2)))
      rw [Reader.readSlots, if_neg (by decide), ConstantPool.readSlots, if_neg (by decide)]
      exact .ok ⟨rfl, views⟩
    · next nonempty =>
      have positive : 0 < c.u2.1.toNat := by
        by_contra zero
        exact nonempty (UInt16.toNat_inj.1 (by simpa using zero))
      exact views.readSlots (Filled.start positive)

/-! ## Tables -/

/-- Loops agree when their rounds do. -/
theorem Views.rounds {β : Type} {step : Array β → Reader → Except ParseError (Array β × Reader)}
    {step' : Array β → Cursor → Except ParseError (Array β × Cursor)}
    (agrees : ∀ {r c}, r.Views c → ∀ found, Agrees Paired (step found r) (step' found c))
    {r : Reader} {c : Cursor} (views : r.Views c) (n : Nat) (found : Array β) :
    Agrees Paired (Reader.rounds step n found r) (Cursor.rounds step' n found c) := by
  induction n generalizing r c found with
  | zero => exact .ok ⟨rfl, views⟩
  | succ n ih =>
    rw [Reader.rounds, Cursor.rounds, views.failed_iff]
    split
    · exact .ok ⟨rfl, views⟩
    · exact (agrees views found).bindPair fun found r c views => ih views found

theorem Views.gather {β : Type} {read : Reader → Except ParseError (β × Reader)}
    {read' : Cursor → Except ParseError (β × Cursor)}
    (agrees : ∀ {r c}, r.Views c → Agrees Paired (read r) (read' c))
    {r : Reader} {c : Cursor} (views : r.Views c) (found : Array β) :
    Agrees Paired (Reader.gather read found r) (Cursor.gather read' found c) :=
  (agrees views).bindPair fun _ _ _ views => .ok ⟨rfl, views⟩

theorem Views.skipping {skip : Reader → Except ParseError Reader} {skip' : Cursor → Cursor}
    {loop : Nat → Cursor → Cursor} (zero : ∀ c, loop 0 c = c)
    (succ : ∀ n c, loop (n + 1) c = if c.failedAt.isSome then c else loop n (skip' c))
    (agrees : ∀ {r c}, r.Views c → Agrees Views (skip r) (.ok (skip' c)))
    {r : Reader} {c : Cursor} (views : r.Views c) (n : Nat) :
    Agrees Views (Reader.skipping skip n r) (.ok (loop n c)) := by
  induction n generalizing r c with
  | zero =>
    rw [zero]
    exact .ok views
  | succ n ih =>
    rw [Reader.skipping, succ, views.failed_iff]
    split
    · exact .ok views
    · exact (agrees views).read fun r views => ih views

theorem Views.skipAttribute (views : r.Views c) : Agrees Views r.skipAttribute (.ok c.skipAttribute) := by
  refine (views.skip (n := 2) (by decide)).read fun r views => views.u4.readPair fun r views => ?_
  exact views.skip (UInt32.toNat_lt _)

theorem Views.skipAttributes (views : r.Views c) : Agrees Views r.skipAttributes (.ok c.skipAttributes) := by
  refine views.u2.readPair fun r views => ?_
  exact views.skipping (fun _ => rfl) (fun _ _ => rfl) Views.skipAttribute _

theorem Views.skipField (views : r.Views c) : Agrees Views r.skipField (.ok (c.skip 6).skipAttributes) :=
  (views.skip (n := 6) (by decide)).read fun _ views => views.skipAttributes

theorem Views.skipFields (views : r.Views c) (n : Nat) :
    Agrees Views (Reader.skipping Reader.skipField n r) (.ok (ClassFile.skipFields n c)) :=
  views.skipping (fun _ => rfl) (fun _ _ => rfl) Views.skipField n

/-! ## Methods and interfaces -/

theorem views_start {data : Bytes} (short : data.length < 2 ^ 62) : Views ⟨data, 0, none⟩ ⟨data, 0, none⟩ :=
  ⟨short, Nat.zero_le _, rfl, rfl, rfl⟩

theorem codeOf_eq {body : Bytes} (short : body.length < 2 ^ 62) :
    Reader.codeOf body = outsideCode (ClassFile.codeOf body) := by
  apply Agrees.eq
  have skipped : Agrees Views (Reader.skip ⟨body, 0, none⟩ 4) (.ok (Cursor.skip ⟨body, 0, none⟩ 4)) :=
    (views_start short).skip (by decide)
  refine skipped.read fun r views => views.u4.readPair fun r views => ?_
  refine (views.bytes (UInt32.toNat_lt _)).readPair fun r views => ?_
  unfold ClassFile.codeOf
  dsimp only
  rw [views.checked]
  unfold ClassFile.checked
  split
  · exact .error _
  · exact .ok rfl

theorem callSitesFrom_eq {pool : ConstantPool} {code : Code} (small : code.size < 2 ^ 62) (pc : Nat)
    (found : Array CallSite) :
    Reader.callSitesFrom pool code pc found = ClassFile.callSitesFrom pool code pc found := by
  rw [Reader.callSitesFrom, ClassFile.callSitesFrom]
  split
  case isFalse => rfl
  case isTrue more =>
    cases length : instructionLength code pc with
    | error fault => rfl
    | ok n =>
      dsimp only
      by_cases overruns : code.size < pc + n
      · rw [if_pos overruns, if_neg (by omega)]
      · obtain ⟨i, -, -, -, rfl⟩ := exists_instr_of_length small length (by omega)
        -- the length is that of an instruction, which has its opcode at least
        have positive : 0 < i.encode.length := List.length_pos_iff.2 i.encode_ne_nil
        rw [if_neg overruns, if_neg (by omega), if_pos (by omega)]
        cases callAt pool code pc with
        | error fault => rfl
        | ok site? =>
          cases site? with
          | none => exact callSitesFrom_eq small _ _
          | some site => exact callSitesFrom_eq small _ _
termination_by code.size - pc

/-- A read returns at most as many bytes as a 32-bit length says. -/
theorem length_take_lt (c : Cursor) (size : UInt32) : (c.take size.toNat).1.length < 2 ^ 62 := by
  have bound := size.toNat_lt
  have shorter : (c.take size.toNat).1.length ≤ size.toNat := by
    unfold Cursor.take
    dsimp only
    split
    · exact Nat.zero_le _
    split
    · exact List.length_take_le _ _
    · exact Nat.zero_le _
  omega

theorem length_codeOf_lt {body code : Bytes} (run : ClassFile.codeOf body = .ok code) : code.length < 2 ^ 62 := by
  unfold ClassFile.codeOf at run
  dsimp only at run
  split at run
  · cases run
  · obtain rfl := Except.ok.inj run
    exact length_take_lt _ _

theorem callsIn_eq {pool : ConstantPool} {signature body : Bytes} (short : body.length < 2 ^ 62) :
    Reader.callsIn pool signature body = ClassFile.callsIn pool signature body := by
  rw [Reader.callsIn, ClassFile.callsIn, codeOf_eq short]
  cases run : ClassFile.codeOf body with
  | error fault => rfl
  | ok code =>
    have small : code.toArray.size < 2 ^ 62 := length_codeOf_lt run
    change Except.mapError _ ((Reader.callSitesFrom pool code.toArray 0 #[]).map Array.toList) = _
    rw [callSitesFrom_eq small]
    rfl

section Pool

variable (pool : ConstantPool)

theorem Views.attributeStep (signature : Bytes) (views : r.Views c) (calls : Array CallSite) :
    Agrees Paired (Reader.attributeStep pool signature calls r) (ClassFile.attributeStep pool signature calls c) := by
  unfold Reader.attributeStep ClassFile.attributeStep
  dsimp only
  refine views.u2.readPair fun r views => ?_
  refine Agrees.both fun name => ?_
  refine views.u4.readPair fun r views => ?_
  refine (views.bytes (UInt32.toNat_lt _)).readPair fun r views => ?_
  dsimp only
  rw [views.failed_iff]
  split
  · exact .ok ⟨rfl, views⟩
  · rw [callsIn_eq (length_take_lt _ _)]
    exact Agrees.both fun found => .ok ⟨rfl, views⟩

theorem Views.readMethod (views : r.Views c) :
    Agrees Paired (Reader.readMethod pool r) (ClassFile.readMethod pool c) := by
  unfold Reader.readMethod ClassFile.readMethod
  dsimp only
  have skipped : Agrees Views (r.skip 2) (.ok (c.skip 2)) := views.skip (by decide)
  refine skipped.read fun r views => views.u2.readPair fun r views => ?_
  refine views.u2.readPair fun r views => ?_
  dsimp only
  rw [views.checked]
  refine Agrees.both fun _ => Agrees.both fun name => Agrees.both fun descriptor => ?_
  refine views.u2.readPair fun r views => ?_
  rw [readAttributes_eq_rounds]
  refine (views.rounds (Views.attributeStep pool _) _ _).bindPair fun calls r c views => ?_
  dsimp only
  rw [views.checked]
  exact Agrees.both fun _ => .ok ⟨rfl, views⟩

theorem Views.readInterface (views : r.Views c) :
    Agrees Paired (Reader.readInterface pool r) (ClassFile.readInterface pool c) := by
  refine views.u2.readPair fun r views => ?_
  exact Agrees.both fun name => .ok ⟨rfl, views⟩

end Pool

/-! ## Class files -/

theorem Views.readMagic (views : r.Views c) : Agrees Views r.readMagic (ClassFile.readMagic c) := by
  refine views.u4.readPair fun r views => ?_
  unfold ClassFile.readMagic
  dsimp only
  rw [views.failure_eq]
  split
  · exact .ok views
  · exact .error _

/-- Reading by position has the result of reading by cursor. -/
theorem parse_eq {data : Bytes} (short : data.length < 2 ^ 62) : Reader.parse data = ClassFile.parse data := by
  apply Agrees.eq
  unfold Reader.parse ClassFile.parse
  dsimp only
  refine (views_start short).readMagic.bind fun r c views => ?_
  have skipped : Agrees Views (r.skip 4) (.ok (c.skip 4)) := views.skip (by decide)
  refine skipped.read fun r views => views.readPool.bindPair fun pool r c views => ?_
  refine views.u2.readPair fun r views => ?_
  refine views.u2.readPair fun r views => ?_
  refine views.u2.readPair fun r views => ?_
  dsimp only
  rw [views.checked]
  refine Agrees.both fun _ => Agrees.both fun name => Agrees.both fun superclass => ?_
  refine views.u2.readPair fun r views => ?_
  rw [readInterfaces_eq_rounds]
  refine (views.rounds (Views.gather (Views.readInterface pool)) _ _).bindPair
    fun interfaces r c views => ?_
  refine views.u2.readPair fun r views => ?_
  refine (views.skipFields _).read fun r views => views.u2.readPair fun r views => ?_
  rw [readMethods_eq_rounds]
  refine (views.rounds (Views.gather (Views.readMethod pool)) _ _).bindPair
    fun methods r c views => ?_
  dsimp only
  rw [views.checked]
  exact Agrees.both fun _ => .ok rfl

end Reader

/-! ## Files that fail -/

def skippedRecord (name : Bytes) (e : ParseError) : Log.Record :=
  ⟨.warn, utf8 "Skipping class that failed to parse",
    [Log.textField "file" name, Log.textField "error" (e.message name)]⟩

theorem load_of_parse_eq_error {data : Bytes} {e : ParseError} (failed : parse data = .error e) (name : Bytes) :
    ClassPath.Source.load ⟨name, .ok data⟩ = (none, skippedRecord name e) := by
  simp only [ClassPath.Source.load, ClassPath.parseSource, failed]
  rfl

/-- An error is a format error, or wraps one in the name of a method. -/
theorem ParseError.message_cases (e : ParseError) (source : Bytes) :
    e.method = none ∧ e.message source = message ⟨e.fault, none⟩ source ∨
      ∃ signature, e.method = some signature ∧
        e.message source = utf8 "method " ++ signature ++ utf8 ": " ++ message ⟨e.fault, none⟩ [] := by
  obtain ⟨fault, method⟩ := e
  cases method with
  | none => exact .inl ⟨rfl, rfl⟩
  | some signature =>
    refine .inr ⟨signature, rfl, ?_⟩
    have wording : utf8 ": invalid class file: " = utf8 ": " ++ utf8 "invalid class file: " := by decide
    simp only [message, if_true, wording, List.append_assoc]

/-- Parsing is safe on all bytes: no access by position is out of bounds, since reading by position has the
result of `parse` and that is never such a fault.  A file that fails has a format error, possibly wrapped
in the name of a method, and loading leaves out its class and no other. -/
theorem parse_inBounds (data : Bytes) (short : data.length < 2 ^ 62) :
    Reader.parse data = parse data ∧
    ∀ e, parse data = .error e →
      (∀ index, e.fault ≠ .outOfBounds index) ∧
      (∀ source, e.method = none ∧ e.message source = ParseError.message ⟨e.fault, none⟩ source ∨
        ∃ signature, e.method = some signature ∧
          e.message source = utf8 "method " ++ signature ++ utf8 ": " ++ ParseError.message ⟨e.fault, none⟩ []) ∧
      ∀ name before after,
        ClassPath.classesOf (before ++ ⟨name, .ok data⟩ :: after) = ClassPath.classesOf (before ++ after) ∧
        ClassPath.logOf (before ++ ⟨name, .ok data⟩ :: after) =
          ClassPath.logOf before ++ skippedRecord name e :: ClassPath.logOf after := by
  refine ⟨Reader.parse_eq short, fun e failed =>
    ⟨fun index outside => ?_, e.message_cases, fun name before after => ?_⟩⟩
  · have defect : e.fault.IsDefect := onlyRaises_parse data e failed
    rw [outside] at defect
    exact defect
  · have loaded := load_of_parse_eq_error failed name
    constructor
    · simp only [ClassPath.classesOf, List.filterMap_append, List.filterMap_cons, loaded]
    · simp only [ClassPath.logOf, List.map_append, List.map_cons, loaded]

/-- A class whose pool ends in the first slot of an eight-byte constant, with a method whose code ends inside
the index of a call. -/
def cutCallFile : Bytes :=
  [0xCA, 0xFE, 0xBA, 0xBE, 0, 0, 0, 0x34,
    0, 7, 1, 0, 1, 0x41, 7, 0, 1, 1, 0, 1, 0x6D, 1, 0, 3, 0x28, 0x29, 0x56, 1, 0, 4, 0x43, 0x6F, 0x64, 0x65,
    5, 0, 0, 0, 0, 0, 0, 0, 0,
    0, 0, 0, 2, 0, 0, 0, 0, 0, 0,
    0, 1, 0, 0, 0, 3, 0, 4, 0, 1, 0, 5, 0, 0, 0, 10, 0, 1, 0, 1, 0, 0, 0, 2, 0xB8, 0]

def cutCallError : ParseError := ⟨.overrun 0, some [0x6D, 0x28, 0x29, 0x56]⟩

theorem parse_inBounds_cutCallFile :
    cutCallFile.length < 2 ^ 62 ∧ parse cutCallFile = .error cutCallError ∧
      Reader.parse cutCallFile = .error cutCallError ∧
      ClassPath.classesOf [⟨[0x41], .ok cutCallFile⟩] = [] ∧
      ClassPath.logOf [⟨[0x41], .ok cutCallFile⟩] = [skippedRecord [0x41] cutCallError] := by
  have short : cutCallFile.length < 2 ^ 62 := by decide
  have failed : parse cutCallFile = .error cutCallError := by decide +kernel
  obtain ⟨same, fails⟩ := parse_inBounds cutCallFile short
  obtain ⟨-, -, skipped⟩ := fails cutCallError failed
  exact ⟨short, failed, same.trans failed, skipped [0x41] [] []⟩

end JvmCoupling.ClassFile
