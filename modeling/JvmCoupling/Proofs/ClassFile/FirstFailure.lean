import JvmCoupling.Proofs.ClassFile.Indexed

/-! # The first failure of a cursor

A cursor is used without a look at its failure after each read.  This module says what a sequence of reads does, of
whatever kinds they are.  Up to the first failure a read returns what the next bytes encode and moves behind them; the
first read that lacks bytes leaves the cursor where that read started; and from then on nothing changes.  Skipping
attributes is a read that consists of others, and it fails where one of those does.

* `Read`, `Read.run`, `Read.runAll` — reads, one and many;
* `Read.Yields`, `Read.Asks` — the bytes of a whole read, and of one that is broken off;
* `Read.Outcome` — what a read does to a cursor;
* `Cursor.Among` — what all reads preserve;
* `runAll_sticky` — a read after any sequence of reads.
-/

namespace JvmCoupling.ClassFile

open Grammar

/-! ## Reads -/

/-- A read.  The number of bytes to take is a word, and may be negative. -/
inductive Read where
  | u1
  | u2
  | u4
  | take (n : Int64) (small : n.toInt < 2 ^ 32)
  | skipAttributes

/-- What a read returns. -/
inductive Read.Value where
  | u1 (x : UInt8)
  | u2 (x : UInt16)
  | u4 (x : UInt32)
  | bytes (b : Bytes)
  | skipped

namespace Read

/-- The value of a read that fails: zero, or no bytes. -/
def blank : Read → Value
  | u1 => .u1 0
  | u2 => .u2 0
  | u4 => .u4 0
  | take _ _ => .bytes []
  | skipAttributes => .skipped

def run (c : Cursor) : Read → Value × Cursor
  | u1 => (.u1 c.u1.1, c.u1.2)
  | u2 => (.u2 c.u2.1, c.u2.2)
  | u4 => (.u4 c.u4.1, c.u4.2)
  | take n _ => (.bytes (c.take n.toInt).1, (c.take n.toInt).2)
  | skipAttributes => (.skipped, c.skipAttributes)

/-- Reads one after the other. -/
def runAll : List Read → Cursor → List Value × Cursor
  | [], c => ([], c)
  | op :: ops, c =>
    let (value, c) := op.run c
    let (values, c) := runAll ops c
    (value :: values, c)

/-- The bytes that a read with the given value has read. -/
inductive Yields : Read → Bytes → Value → Prop
  | u1 (x : UInt8) : Yields .u1 [x] (.u1 x)
  | u2 (x : UInt16) : Yields .u2 (u2Bytes x) (.u2 x)
  | u4 (x : UInt32) : Yields .u4 (u4Bytes x) (.u4 x)
  | take {n : Int64} {small : n.toInt < 2 ^ 32} {b : Bytes} (length : (b.length : Int) = n.toInt) :
      Yields (.take n small) b (.bytes b)
  | skipAttributes (attributes : Table Attribute) :
      Yields .skipAttributes (attributes.encode Attribute.encode) .skipped

/-- What has been read of an attribute, and the number of bytes that is asked for next. -/
inductive AttributeAsks : Bytes → Int → Prop
  | name : AttributeAsks [] 2
  | size (name : UInt16) : AttributeAsks (u2Bytes name) 4
  | body (name : UInt16) (size : UInt32) : AttributeAsks (u2Bytes name ++ u4Bytes size) size.toNat

/-- The same for a read.  Of a table of attributes the count and some attributes may have been read. -/
inductive Asks : Read → Bytes → Int → Prop
  | u1 : Asks .u1 [] 1
  | u2 : Asks .u2 [] 2
  | u4 : Asks .u4 [] 4
  | take {n : Int64} {small : n.toInt < 2 ^ 32} : Asks (.take n small) [] n.toInt
  | count : Asks .skipAttributes [] 2
  | attribute {count : UInt16} {whole : List Attribute} {b : Bytes} {n : Int} (more : whole.length < count.toNat)
      (asks : AttributeAsks b n) : Asks .skipAttributes (u2Bytes count ++ (whole.flatMap Attribute.encode ++ b)) n

end Read

/-! ## Broken reads -/

namespace Cursor

/-- Behind the bytes `b` a read of `n` bytes fails.  It leaves the cursor there, with its position for the failure. -/
def Breaks (c : Cursor) (b : Bytes) (n : Int) (c' : Cursor) : Prop :=
  ∃ c₁, c.Reads b c₁ ∧ ¬(0 ≤ n ∧ n ≤ c₁.rest.length) ∧ c' = { c₁ with failedAt := some c₁.pos }

variable {c c' : Cursor} {a b : Bytes} {n : Int}

theorem Breaks.after {c₁ : Cursor} (reads : c.Reads a c₁) (breaks : c₁.Breaks b n c') : c.Breaks (a ++ b) n c' := by
  obtain ⟨c₂, others, short, rfl⟩ := breaks
  exact ⟨c₂, reads.append others, short, rfl⟩

theorem take_breaks (live : c.Live) (failed : ¬(c.take n).2.Live) :
    c.Breaks [] n (c.take n).2 ∧ (c.take n).1 = [] := by
  have short : ¬(0 ≤ n ∧ n ≤ c.rest.length) := fun enough => failed ((live_take live).2 enough)
  rw [take_of_short live short]
  exact ⟨⟨c, .refl live, short, rfl⟩, rfl⟩

theorem Reads.take_breaks {c₁ : Cursor} (reads : c.Reads a c₁) (failed : ¬(c₁.take n).2.Live) :
    c.Breaks a n (c₁.take n).2 := by
  have breaks := (Cursor.take_breaks reads.live_after failed).1.after reads
  rwa [List.append_nil] at breaks

theorem skip_of_failed (failed : ¬c.Live) (n : Int) : c.skip n = c := by
  rw [skip, take_of_failed failed]

theorem skipAttribute_of_failed (failed : ¬(c.skip 2).u4.2.Live) : c.skipAttribute = (c.skip 2).u4.2 :=
  skip_of_failed failed _

theorem skipEachAttribute_of_failed (failed : ¬c.Live) (k : Nat) : skipEachAttribute k c = c := by
  cases k with
  | zero => rfl
  | succ k => exact if_pos (by simpa [Live, Option.isSome_iff_ne_none] using failed)

theorem skipAttribute_breaks (live : c.Live) (failed : ¬c.skipAttribute.Live) :
    ∃ b n, Read.AttributeAsks b n ∧ c.Breaks b n c.skipAttribute := by
  by_cases named : (c.skip 2).Live
  · obtain ⟨bytes, length, readsName⟩ := skip_reads named
    obtain ⟨name, rfl⟩ := exists_u2Bytes (by omega : bytes.length = 2)
    by_cases sized : (c.skip 2).u4.2.Live
    · exact ⟨_, _, .body name (c.skip 2).u4.1, (readsName.append (u4_reads sized)).take_breaks failed⟩
    · refine ⟨_, _, .size name, ?_⟩
      rw [skipAttribute_of_failed sized]
      exact readsName.take_breaks (n := 4) sized
  · -- the reads behind the name leave the failure as it is
    have skipped : (c.skip 2).u4.2 = c.skip 2 := by rw [u4_of_failed named]
    refine ⟨_, _, .name, ?_⟩
    rw [skipAttribute_of_failed (by rwa [skipped]), skipped]
    exact (take_breaks live named).1

theorem skipEachAttribute_breaks {k : Nat} (live : c.Live) (failed : ¬(skipEachAttribute k c).Live) :
    ∃ (whole : List Attribute) (b : Bytes) (n : Int), whole.length < k ∧ Read.AttributeAsks b n ∧
      c.Breaks (whole.flatMap Attribute.encode ++ b) n (skipEachAttribute k c) := by
  induction k generalizing c with
  | zero => exact absurd live failed
  | succ k ih =>
    have alive : c.failedAt = none := live
    have round : skipEachAttribute (k + 1) c = skipEachAttribute k c.skipAttribute := if_neg (by simp [alive])
    rw [round] at failed ⊢
    by_cases first : c.skipAttribute.Live
    · obtain ⟨a, reads⟩ := skipAttribute_reads first
      obtain ⟨whole, b, n, fewer, asks, breaks⟩ := ih first failed
      exact ⟨a :: whole, b, n, by simpa using fewer, asks, by simpa using breaks.after reads⟩
    · -- the rounds behind a failure leave it as it is
      rw [skipEachAttribute_of_failed first]
      obtain ⟨b, n, asks, breaks⟩ := skipAttribute_breaks live first
      exact ⟨[], b, n, by simp, asks, breaks⟩

theorem skipAttributes_breaks (live : c.Live) (failed : ¬c.skipAttributes.Live) :
    ∃ b n, Read.skipAttributes.Asks b n ∧ c.Breaks b n c.skipAttributes := by
  by_cases counted : c.u2.2.Live
  · obtain ⟨whole, b, n, fewer, asks, breaks⟩ := skipEachAttribute_breaks counted failed
    exact ⟨_, n, .attribute fewer asks, breaks.after (u2_reads counted)⟩
  · have skipped : c.skipAttributes = c.u2.2 := skipEachAttribute_of_failed counted _
    rw [skipped]
    exact ⟨[], 2, .count, (take_breaks (n := 2) live counted).1⟩

end Cursor

/-! ## One read -/

namespace Read

/-- What a read does to a cursor. -/
inductive Outcome (op : Read) (c : Cursor) : Value → Cursor → Prop
  /-- It reads the bytes of its value. -/
  | whole {b : Bytes} {value : Value} {c' : Cursor} (yields : op.Yields b value) (reads : c.Reads b c') :
      Outcome op c value c'
  /-- It lacks bytes. -/
  | broken {b : Bytes} {n : Int} {c' : Cursor} (asks : op.Asks b n) (breaks : c.Breaks b n c') :
      Outcome op c op.blank c'
  /-- It comes after a failure. -/
  | stuck (failed : ¬c.Live) : Outcome op c op.blank c

/-- After a failure a read has no value and changes nothing. -/
theorem run_of_failed {c : Cursor} (failed : ¬c.Live) (op : Read) : op.run c = (op.blank, c) := by
  cases op with
  | u1 => simp [run, blank, Cursor.u1_of_failed failed]
  | u2 => simp [run, blank, Cursor.u2_of_failed failed]
  | u4 => simp [run, blank, Cursor.u4_of_failed failed]
  | take n small => simp [run, blank, Cursor.take_of_failed failed]
  | skipAttributes =>
    simp [run, blank, Cursor.skipAttributes, Cursor.u2_of_failed failed, Cursor.skipEachAttribute_of_failed failed]

theorem yields_of_live {c : Cursor} (op : Read) (after : (op.run c).2.Live) :
    ∃ b, op.Yields b (op.run c).1 ∧ c.Reads b (op.run c).2 := by
  cases op with
  | u1 => exact ⟨_, .u1 _, Cursor.u1_reads after⟩
  | u2 => exact ⟨_, .u2 _, Cursor.u2_reads after⟩
  | u4 => exact ⟨_, .u4 _, Cursor.u4_reads after⟩
  | take n small =>
    obtain ⟨reads, length⟩ := Cursor.take_reads after
    exact ⟨_, .take length, reads⟩
  | skipAttributes =>
    obtain ⟨attributes, reads⟩ := skipAttributes_reads after
    exact ⟨_, .skipAttributes attributes, reads⟩

theorem breaks_of_failed {c : Cursor} (live : c.Live) (op : Read) (failed : ¬(op.run c).2.Live) :
    (op.run c).1 = op.blank ∧ ∃ b n, op.Asks b n ∧ c.Breaks b n (op.run c).2 := by
  cases op with
  | u1 =>
    obtain ⟨breaks, nothing⟩ := Cursor.take_breaks (n := 1) live failed
    exact ⟨by simp [run, blank, Cursor.u1, nothing, bigEndian], _, _, .u1, breaks⟩
  | u2 =>
    obtain ⟨breaks, nothing⟩ := Cursor.take_breaks (n := 2) live failed
    exact ⟨by simp [run, blank, Cursor.u2, nothing, bigEndian], _, _, .u2, breaks⟩
  | u4 =>
    obtain ⟨breaks, nothing⟩ := Cursor.take_breaks (n := 4) live failed
    exact ⟨by simp [run, blank, Cursor.u4, nothing, bigEndian], _, _, .u4, breaks⟩
  | take n small =>
    obtain ⟨breaks, nothing⟩ := Cursor.take_breaks live failed
    exact ⟨by simp [run, blank, nothing], _, _, .take, breaks⟩
  | skipAttributes => exact ⟨rfl, Cursor.skipAttributes_breaks live failed⟩

theorem outcome {op : Read} {c c' : Cursor} {value : Value} (run : op.run c = (value, c')) : op.Outcome c value c' := by
  by_cases live : c.Live
  · by_cases after : (op.run c).2.Live
    · obtain ⟨b, yields, reads⟩ := yields_of_live op after
      rw [run] at yields reads
      exact .whole yields reads
    · obtain ⟨nothing, b, n, asks, breaks⟩ := breaks_of_failed live op after
      rw [run] at nothing breaks
      obtain rfl : value = op.blank := nothing
      exact .broken asks breaks
  · rw [run_of_failed live] at run
    obtain ⟨rfl, rfl⟩ := Prod.mk.inj run
    exact .stuck live

end Read

/-! ## Many reads -/

namespace Cursor

/-- A cursor among the bytes of `data`.  If it has failed, it stands where it failed. -/
structure Among (data : Bytes) (c : Cursor) : Prop where
  inside : c.pos ≤ data.length
  rest_eq : c.rest = data.drop c.pos
  failure : ¬c.Live → c.failedAt = some c.pos

variable {data : Bytes} {c c' : Cursor} {b : Bytes}

theorem Among.reads (among : c.Among data) (reads : c.Reads b c') :
    c'.Among data ∧ data.drop c.pos = b ++ data.drop c'.pos := by
  have split : data.drop c.pos = b ++ c'.rest := among.rest_eq.symm.trans reads.rest_eq
  have rest : c'.rest = data.drop c'.pos := by
    rw [reads.pos_eq, ← List.drop_drop, split, List.drop_left]
  -- what is left of the data has room for the bytes
  have length := congrArg List.length split
  rw [List.length_drop, List.length_append] at length
  have inside := among.inside
  have moved := reads.pos_eq
  exact ⟨⟨by omega, rest, fun failed => absurd reads.live_after failed⟩, by rw [split, rest]⟩

theorem Among.breaks {n : Int} (among : c.Among data) (breaks : c.Breaks b n c') :
    c'.Among data ∧ data.drop c.pos = b ++ data.drop c'.pos ∧ c'.pos = c.pos + b.length ∧
      ¬(0 ≤ n ∧ c'.pos + n ≤ data.length) := by
  obtain ⟨c₁, reads, short, rfl⟩ := breaks
  obtain ⟨⟨inside, rest, -⟩, bytes⟩ := among.reads reads
  refine ⟨⟨inside, rest, fun _ => rfl⟩, bytes, reads.pos_eq, ?_⟩
  rw [rest, List.length_drop] at short
  dsimp only
  omega

end Cursor

namespace Read

variable {data : Bytes} {c : Cursor}

/-- What one read preserves. -/
theorem among_run {op : Read} {c' : Cursor} {value : Value} (among : c.Among data) (run : op.run c = (value, c')) :
    c'.Among data ∧ c.pos ≤ c'.pos := by
  cases outcome run with
  | whole yields reads => exact ⟨(among.reads reads).1, by rw [reads.pos_eq]; omega⟩
  | broken asks breaks =>
    obtain ⟨after, -, moved, -⟩ := among.breaks breaks
    exact ⟨after, by omega⟩
  | stuck failed => exact ⟨among, Nat.le_refl _⟩

/-- What many reads preserve. -/
theorem among_runAll (among : c.Among data) (ops : List Read) : (runAll ops c).2.Among data := by
  induction ops generalizing c with
  | nil => exact among
  | cons op ops ih => exact ih (among_run among rfl).1

/-- After a failure no read has a value, and none changes anything. -/
theorem runAll_of_failed (failed : ¬c.Live) (ops : List Read) : runAll ops c = (ops.map blank, c) := by
  induction ops with
  | nil => rfl
  | cons op ops ih => simp only [runAll, run_of_failed failed, ih, List.map_cons]

theorem runAll_append_singleton (ops : List Read) (op : Read) :
    runAll (ops ++ [op]) c =
      ((runAll ops c).1 ++ [(op.run (runAll ops c).2).1], (op.run (runAll ops c).2).2) := by
  induction ops generalizing c with
  | nil => rfl
  | cons first ops ih => simp only [List.cons_append, runAll, ih]

/-! ## Reads by position -/

/-- A read by a position that is a word. -/
def runAt (r : Reader) : Read → Except ParseError (Value × Reader)
  | u1 => do
    let (x, r) ← r.u1
    return (.u1 x, r)
  | u2 => do
    let (x, r) ← r.u2
    return (.u2 x, r)
  | u4 => do
    let (x, r) ← r.u4
    return (.u4 x, r)
  | take n _ => do
    let (bytes?, r) ← r.take n
    return (.bytes (bytes?.getD []), r)
  | skipAttributes => do
    let r ← r.skipAttributes
    return (.skipped, r)

def runAllAt : List Read → Reader → Except ParseError (List Value × Reader)
  | [], r => .ok ([], r)
  | op :: ops, r => do
    let (value, r) ← op.runAt r
    let (values, r) ← runAllAt ops r
    return (value :: values, r)

end Read

namespace Reader

variable {r : Reader} {c : Cursor}

/-- A read of fewer bytes than none fails alike. -/
theorem Views.take_neg (views : r.Views c) {n : Int64} (negative : n.toInt < 0) :
    Agrees (fun p q => p.1.getD [] = q.1 ∧ p.2.Views q.2) (r.take n) (.ok (c.take n.toInt)) := by
  unfold Reader.take
  rw [views.failed_iff]
  split
  · next failed =>
    rw [Cursor.take, if_pos failed]
    exact .ok ⟨rfl, views⟩
  next alive =>
  have live : c.Live := Option.not_isSome_iff_eq_none.1 alive
  have refused : n < 0 := Int64.lt_iff_toInt_lt.2 negative
  rw [if_pos (.inl refused), Cursor.take_of_short live (by omega), views.toInt_pos]
  exact .ok ⟨rfl, ⟨views.short, views.inside, views.toInt_pos, views.rest_eq, rfl⟩⟩

theorem Views.take_word (views : r.Views c) {n : Int64} (small : n.toInt < 2 ^ 32) :
    Agrees (fun p q => p.1.getD [] = q.1 ∧ p.2.Views q.2) (r.take n) (.ok (c.take n.toInt)) := by
  by_cases negative : n.toInt < 0
  · exact views.take_neg negative
  -- a word that is not negative is a count of bytes
  obtain ⟨k, value⟩ := Int.eq_ofNat_of_zero_le (Int.not_lt.1 negative)
  have word : n = Int64.ofNat k := Int64.toInt_inj.1 (value.trans (Int64.toInt_ofNat_of_lt (by omega)).symm)
  rw [value, word]
  refine (views.take (n := k) (by omega)).imp fun p q ⟨returns, after⟩ => ⟨?_, after⟩
  rcases returns with ⟨failed, nothing⟩ | ⟨taken, -⟩
  · rw [failed, nothing, Option.getD_none]
  · rw [taken, Option.getD_some]

theorem Views.runAt (views : r.Views c) (op : Read) : Agrees Paired (op.runAt r) (.ok (op.run c)) := by
  cases op with
  | u1 => exact views.u1.readPair fun r after => .ok ⟨rfl, after⟩
  | u2 => exact views.u2.readPair fun r after => .ok ⟨rfl, after⟩
  | u4 => exact views.u4.readPair fun r after => .ok ⟨rfl, after⟩
  | take n small =>
    exact (views.take_word small).read fun (bytes?, r) ⟨same, after⟩ => .ok ⟨congrArg Read.Value.bytes same, after⟩
  | skipAttributes => exact views.skipAttributes.read fun r after => .ok ⟨rfl, after⟩

theorem Views.runAllAt (views : r.Views c) (ops : List Read) :
    Agrees Paired (Read.runAllAt ops r) (.ok (Read.runAll ops c)) := by
  induction ops generalizing r c with
  | nil => exact .ok ⟨rfl, views⟩
  | cons op ops ih =>
    exact (views.runAt op).readPair fun r after => (ih after).readPair fun r after => .ok ⟨rfl, after⟩

end Reader

/-! ## A read after other reads -/

open Read in
/-- The failure of a cursor is exact, and it sticks.  After any reads, a further read moves forward inside the bytes.
Without failure it returns what the next bytes encode and moves behind them.  The first failure is that of a read that
asks for more bytes than are left, or for fewer than none, and its place is where that read starts.  After a failure
the cursor stays as it is and every value is zero or empty.  Where positions are words the same happens. -/
theorem runAll_sticky (data : Bytes) (before : List Read) (op : Read) {values : List Value} {value : Value}
    {c c' : Cursor} (reached : runAll before { rest := data } = (values, c)) (run : op.run c = (value, c')) :
    runAll (before ++ [op]) { rest := data } = (values ++ [value], c') ∧
    (c.pos ≤ c'.pos ∧ c'.pos ≤ data.length) ∧
    (c'.Live → ∃ b, op.Yields b value ∧ data.drop c.pos = b ++ data.drop c'.pos ∧ c'.pos = c.pos + b.length) ∧
    (c.Live → ¬c'.Live → value = op.blank ∧ c'.fault? = some (.truncated c'.pos) ∧
      ∃ b n, op.Asks b n ∧ data.drop c.pos = b ++ data.drop c'.pos ∧ c'.pos = c.pos + b.length ∧
        ¬(0 ≤ n ∧ c'.pos + n ≤ data.length)) ∧
    (¬c.Live → ∀ after, runAll after c = (after.map blank, c)) ∧
    (data.length < 2 ^ 62 → ∃ r r', runAllAt before { data } = .ok (values, r) ∧ op.runAt r = .ok (value, r') ∧
      r'.pos.toInt = c'.pos ∧ r'.failure = c'.fault?) := by
  have start : Cursor.Among data { rest := data } := ⟨Nat.zero_le _, rfl, fun failed => absurd rfl failed⟩
  have among : c.Among data := by simpa only [reached] using among_runAll start before
  obtain ⟨after, forward⟩ := among_run among run
  refine ⟨?_, ⟨forward, after.inside⟩, fun live => ?_, fun live failed => ?_, runAll_of_failed, fun short => ?_⟩
  · rw [runAll_append_singleton, reached, run]
  · cases outcome run with
    | whole yields reads => exact ⟨_, yields, (among.reads reads).2, reads.pos_eq⟩
    | broken asks breaks =>
      obtain ⟨c₁, -, -, rfl⟩ := breaks
      cases live
    | stuck failed => exact absurd live failed
  · have fault : c'.fault? = some (.truncated c'.pos) := by rw [Cursor.fault?, after.failure failed, Option.map_some]
    cases outcome run with
    | whole yields reads => exact absurd reads.live_after failed
    | broken asks breaks =>
      obtain ⟨-, bytes, moved, lacking⟩ := among.breaks breaks
      exact ⟨rfl, fault, _, _, asks, bytes, moved, lacking⟩
    | stuck already => exact absurd live already
  · have agrees := (Reader.views_start short).runAllAt before
    rw [reached] at agrees
    obtain ⟨⟨_, r⟩, runs, rfl, views⟩ := agrees.exists_ok
    have agrees := views.runAt op
    rw [run] at agrees
    obtain ⟨⟨_, r'⟩, runs', rfl, views'⟩ := agrees.exists_ok
    exact ⟨r, r', runs, runs', views'.toInt_pos, views'.failure_eq⟩

/-- A byte, and a table of two attributes of which the second lacks four of its five bytes. -/
def brokenTable : Bytes := [0xCA, 0, 2, 0, 7, 0, 0, 0, 1, 9, 0, 7, 0, 0, 0, 5, 9]

theorem runAll_sticky_brokenTable :
    (∃ b n, Read.skipAttributes.Asks b n ∧ b.length = 15 ∧ ¬(0 ≤ n ∧ 16 + n ≤ brokenTable.length)) ∧
      Read.runAll [.u4, .take (-1) (by decide), .skipAttributes] ⟨[9], 16, some 16⟩ =
        ([.u4 0, .bytes [], .skipped], ⟨[9], 16, some 16⟩) := by
  have reached : Read.runAll [.u1] { rest := brokenTable } = ([.u1 0xCA], ⟨brokenTable.drop 1, 1, none⟩) := rfl
  have run : Read.skipAttributes.run ⟨brokenTable.drop 1, 1, none⟩ = (.skipped, ⟨[9], 16, some 16⟩) := rfl
  have failed : ¬Cursor.Live ⟨[9], 16, some 16⟩ := nofun
  obtain ⟨reached', -, -, broken, -⟩ := runAll_sticky brokenTable [.u1] .skipAttributes reached run
  obtain ⟨-, -, b, n, asks, -, moved, lacking⟩ := broken rfl failed
  have moved : 16 = 1 + b.length := moved
  obtain ⟨-, -, -, -, stuck, -⟩ := runAll_sticky brokenTable [.u1, .skipAttributes] .u4 reached' rfl
  exact ⟨⟨b, n, asks, by omega, lacking⟩, stuck failed _⟩

end JvmCoupling.ClassFile
