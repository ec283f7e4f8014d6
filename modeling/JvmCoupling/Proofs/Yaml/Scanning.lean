import JvmCoupling.Proofs.Yaml.Scalars
import Mathlib

/-! # Scalars and marks as tokens

The scanner takes one token after the other.  What is found so far is an outline: the tokens, and how far the open
blocks are indented.  A scalar is scanned from behind the mark it belongs to up to the start of the next line that is
indented no further than its block; the ends of nested blocks are found there.

* `Scan.Reaches` — one state is reached from another, token by token;
* `Outline`, `Scan.At` — what is found so far, and a state at the start of a line;
* `PlainText` — the texts that can be read without quotes;
* `Scan.scan_plain`, `Scan.scan_quoted`, `Scan.scan_literal` — a scalar with its line;
* `Scan.At.item`, `Scan.At.key` — the mark of an item, and a key with its colon.
-/

namespace JvmCoupling.Yaml

/-! ## Runs of the scanner -/

namespace Scan

/-- Another state is reached token by token. -/
inductive Reaches : Scan → Scan → Prop where
  | refl (s : Scan) : Reaches s s
  | step {s t u : Scan} (taken : s.step = some (t, true)) (shorter : t.rest.length < s.rest.length)
      (onwards : Reaches t u) : Reaches s u

theorem Reaches.trans {s t u : Scan} (first : s.Reaches t) (second : t.Reaches u) : s.Reaches u := by
  induction first with
  | refl => exact second
  | step taken shorter _ ih => exact .step taken shorter (ih second)

theorem Reaches.one {s t : Scan} (taken : s.step = some (t, true)) (shorter : t.rest.length < s.rest.length) :
    s.Reaches t :=
  .step taken shorter (.refl t)

/-- A character for each token is enough to reach the end. -/
theorem Reaches.run {s t e : Scan} (reaches : s.Reaches t) (ends : t.step = some (e, false)) {fuel : Nat}
    (enough : s.rest.length < fuel) : s.run fuel = e.tokens.toList := by
  induction reaches generalizing fuel with
  | refl s =>
    obtain ⟨fuel, rfl⟩ : ∃ n, fuel = n + 1 := ⟨fuel - 1, by omega⟩
    rw [Scan.run, ends]
  | step taken shorter _ ih =>
    obtain ⟨fuel, rfl⟩ : ∃ n, fuel = n + 1 := ⟨fuel - 1, by omega⟩
    rw [Scan.run, taken]
    exact ih ends (by omega)

theorem length_skipBlanks (inFlow keyAllowed inComment : Bool) (s : List Spot) :
    (skipBlanks inFlow keyAllowed inComment s).2.length ≤ s.length := by
  induction s generalizing keyAllowed inComment with
  | nil => exact Nat.le_refl 0
  | cons spot s ih =>
    rw [skipBlanks]
    split_ifs
    all_goals first
      | exact Nat.le_succ_of_le (ih _ _)
      | exact Nat.le_refl _

theorem rest_unrollIndent (s : Scan) (column : Int) : (s.unrollIndent column).rest = s.rest := by
  rw [unrollIndent]
  split <;> rfl

theorem length_settle (s : Scan) : s.settle.rest.length ≤ s.rest.length := by
  rw [settle, rest_unrollIndent]
  exact length_skipBlanks _ _ _ _

/-- A token is taken from the settled state. -/
theorem step_of_settle {s t u : Scan} {q : Place} {c : Char} {more : List Char} (settled : s.settle = t)
    (here : t.rest = q.spots (c :: more)) (taken : t.token c = some u) : s.step = some (u, true) := by
  rw [step, settled, here, Place.peek?_spots]
  simp [taken]

end Scan

/-! ## States in blocks -/

/-- What is found so far: the tokens, and the indentation of the open blocks. -/
structure Outline where
  tokens : List Token := []
  indent : Int := -1
  indents : List Int := []

namespace Outline

/-- More tokens. -/
def add (o : Outline) (tokens : List Token) : Outline := { o with tokens := o.tokens ++ tokens }

/-- A block starts at a column. -/
def enter (o : Outline) (column : Int) : Outline := { o with indent := column, indents := o.indent :: o.indents }

theorem add_add (o : Outline) (a b : List Token) : (o.add a).add b = o.add (a ++ b) := by
  simp [add]

@[simp] theorem add_nil (o : Outline) : o.add [] = o := by
  simp [add]

@[simp] theorem indent_add (o : Outline) (tokens : List Token) : (o.add tokens).indent = o.indent := rfl

theorem add_enter (o : Outline) (a b : List Token) (w : Int) :
    ((o.add a).enter w).add b = (o.add (a ++ b)).enter w := by
  simp [add, enter]

/-- A block is open at a column, and starts with a token if it was not before. -/
def reach (o : Outline) (column : Int) (token : Token) : Outline :=
  if column ≤ o.indent then o else (o.add [token]).enter column

theorem indent_reach {o : Outline} {column : Int} (inside : o.indent ≤ column) (token : Token) :
    (o.reach column token).indent = column := by
  rw [reach]
  split
  · omega
  · rfl

theorem reach_of_eq {o : Outline} {column : Int} (here : o.indent = column) (token : Token) :
    o.reach column token = o :=
  if_pos (Int.le_of_eq here.symm)

end Outline

variable {p : Place} {o : Outline} {k : Nat} {tail : List Char} {key? : Option KeyMark} {keyAllowed : Bool}

namespace Scan

/-- A state outside flow collections. -/
def inBlock (p : Place) (text : List Char) (o : Outline) (key? : Option KeyMark) (keyAllowed : Bool) : Scan where
  rest := p.spots text
  indent := o.indent
  indents := o.indents
  keyAllowed
  keys := [key?]
  tokens := o.tokens.toArray

@[simp] theorem rest_inBlock (p : Place) (text : List Char) (o : Outline) (key? : Option KeyMark) (keyAllowed : Bool) :
    (inBlock p text o key? keyAllowed).rest = p.spots text := rfl

@[simp] theorem flowLevel_inBlock (p : Place) (text : List Char) (o : Outline) (key? : Option KeyMark)
    (keyAllowed : Bool) : (inBlock p text o key? keyAllowed).flowLevel = 0 := rfl

@[simp] theorem indent_inBlock (p : Place) (text : List Char) (o : Outline) (key? : Option KeyMark)
    (keyAllowed : Bool) : (inBlock p text o key? keyAllowed).indent = o.indent := rfl

/-- A possible key that need not be one. -/
def Free (key? : Option KeyMark) : Prop := ∀ key ∈ key?, key.isRequired = false

theorem free_none : Free none := by
  rintro key ⟨⟩

theorem unrollIndent_of_le {column : Int} (inside : o.indent ≤ column) (p : Place) (text : List Char)
    (key? : Option KeyMark) (keyAllowed : Bool) :
    (inBlock p text o key? keyAllowed).unrollIndent column = inBlock p text o key? keyAllowed := by
  have same : unroll column o.tokens.toArray o.indent o.indents = (o.tokens.toArray, o.indent, o.indents) := by
    cases o.indents with
    | nil => rfl
    | cons outer indents => rw [unroll, if_neg (by omega)]
  simp only [unrollIndent, inBlock, Nat.lt_irrefl, if_false, same]

/-- A block ends in front of a column that is indented less. -/
theorem unrollIndent_enter {column w : Int} (outside : column < w) (tokens : List Token) (p : Place)
    (text : List Char) (key? : Option KeyMark) (keyAllowed : Bool) :
    (inBlock p text ((o.add tokens).enter w) key? keyAllowed).unrollIndent column =
      (inBlock p text (o.add (tokens ++ [.blockEnd])) key? keyAllowed).unrollIndent column := by
  simp [unrollIndent, inBlock, Outline.enter, Outline.add, unroll, outside]

/-- The next characters are those of a line with this indentation, and the blocks that are indented further are taken
to end there. -/
structure At (s : Scan) (k : Nat) (tail : List Char) (o : Outline) : Prop where
  follows : Follows k tail
  settled : ∃ q key?, q.column = k ∧ Free key? ∧ s.settle = (inBlock q tail o key? true).unrollIndent k

theorem At.leave {s : Scan} {tokens : List Token} {w : Int} (here : s.At k tail ((o.add tokens).enter w))
    (outside : k < w) : s.At k tail (o.add (tokens ++ [.blockEnd])) where
  follows := here.follows
  settled := by
    obtain ⟨q, key?, column, free, settled⟩ := here.settled
    exact ⟨q, key?, column, free, settled.trans (unrollIndent_enter outside ..)⟩

/-! ## To the next token -/

theorem skipBlanks_solid {c : Char} (solid : isSolid c = true) (keyAllowed : Bool) (p : Place) (rest : List Char) :
    skipBlanks false keyAllowed false (p.spots (c :: rest)) = (keyAllowed, p.spots (c :: rest)) := by
  obtain ⟨noBlank, noBreak, noComment, noMark⟩ := isSolid_iff.1 solid
  obtain ⟨noSpace, noTab⟩ := isBlank_eq_false.1 noBlank
  rw [Place.spots_cons, skipBlanks]
  simp [noBreak, noComment, noMark, noSpace, noTab]

theorem skipBlanks_spaces (n : Nat) (keyAllowed : Bool) (p : Place) (rest : List Char) :
    skipBlanks false keyAllowed false (p.spots (spaces n ++ rest)) =
      skipBlanks false keyAllowed false ((p.after (spaces n)).spots rest) := by
  induction n generalizing p with
  | zero => rfl
  | succ n ih =>
    rw [spaces_succ, List.cons_append, Place.spots_cons, skipBlanks]
    exact ih (p.next ' ')

theorem skipBlanks_start (follows : Follows k tail) (keyAllowed : Bool) (p : Place) :
    skipBlanks false keyAllowed false (p.spots tail) = (keyAllowed, p.spots tail) := by
  cases tail with
  | nil => rfl
  | cons c tail => exact skipBlanks_solid (follows.solid c rfl) _ _ _

theorem skipBlanks_follows (follows : Follows k tail) (keyAllowed : Bool) (p : Place) :
    skipBlanks false keyAllowed false (p.spots (spaces k ++ tail)) = (keyAllowed, (p.after (spaces k)).spots tail) := by
  rw [skipBlanks_spaces, skipBlanks_start follows]

theorem settle_inBlock {p q : Place} {text rest : List Char} {keyAllowed keyAllowed' : Bool}
    (skipped : skipBlanks false keyAllowed false (p.spots text) = (keyAllowed', q.spots rest))
    (ends : rest = [] → q.column = 0) (o : Outline) (key? : Option KeyMark) :
    (inBlock p text o key? keyAllowed).settle = (inBlock q rest o key? keyAllowed').unrollIndent q.column := by
  have column : (inBlock q rest o key? keyAllowed').column = q.column := by
    cases rest with
    | nil => rw [ends rfl]; rfl
    | cons c rest => simp [Scan.column, inBlock, Place.spots_cons]
  rw [← column, settle]
  simp only [inBlock, Nat.lt_irrefl, decide_false, skipped]

/-- A token that starts behind the mark of its block, after one space or none. -/
theorem settle_solid {c : Char} (solid : isSolid c = true) (inside : o.indent ≤ p.column) (rest : List Char)
    (key? : Option KeyMark) (keyAllowed : Bool) :
    (inBlock p (c :: rest) o key? keyAllowed).settle = inBlock p (c :: rest) o key? keyAllowed := by
  rw [settle_inBlock (skipBlanks_solid solid keyAllowed p rest) (by simp), unrollIndent_of_le inside]

theorem settle_space {c : Char} (solid : isSolid c = true) (inside : o.indent ≤ p.column) (rest : List Char)
    (key? : Option KeyMark) (keyAllowed : Bool) :
    (inBlock p (' ' :: c :: rest) o key? keyAllowed).settle = inBlock (p.next ' ') (c :: rest) o key? keyAllowed := by
  have skipped : skipBlanks false keyAllowed false (p.spots (' ' :: c :: rest)) =
      (keyAllowed, (p.next ' ').spots (c :: rest)) :=
    (skipBlanks_spaces 1 keyAllowed p (c :: rest)).trans (skipBlanks_solid solid keyAllowed (p.next ' ') rest)
  have inside' : o.indent ≤ (p.next ' ').column := by rw [Place.column_next isLineBreak_space]; omega
  rw [settle_inBlock skipped (by simp), unrollIndent_of_le inside']

theorem At.of_place (follows : Follows k tail) {q : Place} (column : q.column = k) (o : Outline) (free : Free key?) :
    (inBlock q tail o key? true).At k tail o where
  follows
  settled := by
    refine ⟨q, key?, column, free, ?_⟩
    rw [settle_inBlock (skipBlanks_start follows true q) fun none => column.trans (follows.empty none), column]

theorem At.of_lineEnd (follows : Follows k tail) (p : Place) (o : Outline) (free : Free key?) (keyAllowed : Bool) :
    (inBlock p ('\n' :: (spaces k ++ tail)) o key? keyAllowed).At k tail o where
  follows
  settled := by
    have skipped : skipBlanks false keyAllowed false (p.spots ('\n' :: (spaces k ++ tail))) =
        (true, ((p.next '\n').after (spaces k)).spots tail) := by
      rw [Place.spots_cons, skipBlanks]
      simpa [isLineBreak] using skipBlanks_follows follows true (p.next '\n')
    have column : ((p.next '\n').after (spaces k)).column = k := by
      rw [Place.column_after_spaces, Place.column_next_break rfl, Nat.zero_add]
    refine ⟨_, key?, column, free, ?_⟩
    rw [settle_inBlock skipped fun none => column.trans (follows.empty none), column]

theorem At.of_space (follows : Follows k tail) (column : p.column + 1 = k) (o : Outline) (free : Free key?) :
    (inBlock p (' ' :: tail) o key? true).At k tail o where
  follows
  settled := by
    have skipped : skipBlanks false true false (p.spots (' ' :: tail)) = (true, (p.next ' ').spots tail) :=
      (skipBlanks_spaces 1 true p tail).trans (skipBlanks_start follows true (p.next ' '))
    have column' : (p.next ' ').column = k := by rw [Place.column_next isLineBreak_space, column]
    refine ⟨_, key?, column', free, ?_⟩
    rw [settle_inBlock skipped fun none => column'.trans (follows.empty none), column']

/-! ## Scalars -/

theorem dropKey_inBlock (free : Free key?) (p : Place) (text : List Char) (o : Outline) (keyAllowed : Bool) :
    (inBlock p text o key? keyAllowed).dropKey = some (inBlock p text o none keyAllowed) := by
  cases key? with
  | none => rfl
  | some key => simp [dropKey, inBlock, free key rfl]

/-- What stands behind the mark of a block need not be a key. -/
theorem noteKey_inBlock (free : Free key?) (inside : o.indent < p.column) (c : Char) (rest : List Char)
    (keyAllowed : Bool) :
    ∃ key?', Free key?' ∧
      (inBlock p (c :: rest) o key? keyAllowed).noteKey = some (inBlock p (c :: rest) o key?' keyAllowed) := by
  cases keyAllowed with
  | false => exact ⟨key?, free, rfl⟩
  | true =>
    have optional : decide (o.indent = p.column) = false := decide_eq_false (by omega)
    refine ⟨some ⟨o.tokens.length, p.line, p.column, p.index, false⟩, ?_, ?_⟩
    · rintro key ⟨⟩
      rfl
    · have dropped := dropKey_inBlock free p (c :: rest) o true
      rw [noteKey, dropped]
      simp [inBlock, Place.spots_cons, optional]

theorem keyScalar_inBlock (free : Free key?) (inside : o.indent < p.column) (c : Char) (rest : List Char)
    (keyAllowed isPlain : Bool) (text tail : List Char) (q : Place) (afterBreak : Bool) :
    ∃ key?', Free key?' ∧
      (inBlock p (c :: rest) o key? keyAllowed).keyScalar isPlain (some ⟨text, q.spots tail, afterBreak⟩) =
        some (inBlock q tail (o.add [.scalar (Text.ofChars text) isPlain]) key?' afterBreak) := by
  obtain ⟨key?', free', noted⟩ := noteKey_inBlock free inside c rest keyAllowed
  refine ⟨key?', free', ?_⟩
  rw [keyScalar, noted]
  simp [inBlock, emit, Outline.add]

/-- A character that is no indicator starts a plain scalar. -/
theorem token_plain {c : Char} (other : indicators.contains c = false) (noTab : c ≠ '\t') {rest : List Char}
    (unmarked : ∀ mark ∈ ['-', '.'], startsMark mark (p.spots (c :: rest)) = false)
    (joined : markIndicators.contains c = true → atBoundary ((p.next c).spots rest) = false) (o : Outline)
    (key? : Option KeyMark) (keyAllowed : Bool) :
    (inBlock p (c :: rest) o key? keyAllowed).token c =
      (inBlock p (c :: rest) o key? keyAllowed).keyScalar true
        (readPlain false (o.indent + 1) [] {} (p.spots (c :: rest))) := by
  have dash := unmarked '-' (by simp)
  have dots := unmarked '.' (by simp)
  have different : ∀ d ∈ indicators, c ≠ d := by
    rintro d member rfl
    rw [List.contains_iff_mem.2 member] at other
    cases other
  simp only [indicators, List.mem_cons, List.not_mem_nil, or_false, forall_eq_or_imp, forall_eq] at different
  rw [token, rest_inBlock, flowLevel_inBlock, indent_inBlock, dash, dots, List.drop_one, Place.tail_spots]
  simp only [different, noTab, other]
  by_cases mark : markIndicators.contains c = true
  · simp [joined mark, List.contains_iff_mem.1 mark]
  · have apart : c ≠ '?' ∧ c ≠ ':' ∧ c ≠ '-' := by simpa [markIndicators] using mark
    simp [apart, markIndicators]

end Scan

/-- A text that can be read as a plain scalar on one line. -/
structure PlainText (cs : List Char) : Prop where
  nonempty : cs ≠ []
  unbroken : ∀ c ∈ cs, isLineBreak c = false
  unmarked : hasKeyMark cs = false
  uncommented : hasPair isBlank (· = '#') cs = false
  last : ∀ c ∈ cs.getLast?, isBlank c = false
  first : ∀ c ∈ cs.head?, isSolid c = true ∧ indicators.contains c = false
  second : ∀ c ∈ cs.head?, markIndicators.contains c = true → ∃ d ∈ cs.tail.head?, isBlank d = false

theorem isBlank_of_isPrintable {c : Char} (printable : isPrintable c = true) (noSpace : c ≠ ' ') :
    isBlank c = false := by
  have noTab : c ≠ '\t' := by rintro rfl; cases printable
  exact isBlank_eq_false.2 ⟨noSpace, noTab⟩

theorem isSolid_of_isPrintable {c : Char} (printable : isPrintable c = true) (noSpace : c ≠ ' ')
    (noBreak : isLineBreak c = false) (noComment : c ≠ '#') : isSolid c = true := by
  refine isSolid_iff.2 ⟨isBlank_of_isPrintable printable noSpace, noBreak, noComment, fun mark => ?_⟩
  rw [isPrintable, mark] at printable
  cases printable

theorem PlainText.of_plainAllowed {cs : List Char} (nonempty : cs ≠ []) (allowed : plainAllowed cs = true) :
    PlainText cs := by
  obtain ⟨c, cs, rfl⟩ := List.exists_cons_of_ne_nil nonempty
  simp only [plainAllowed, singleQuotedAllowed, isIndicator, Bool.and_eq_true, Bool.not_eq_true', decide_eq_true_eq,
    Bool.or_eq_false_iff, List.all_eq_true, List.any_eq_false, Bool.and_eq_false_iff] at allowed
  obtain ⟨⟨⟨⟨⟨⟨⟨⟨⟨-, printable⟩, unbroken⟩, noSpace⟩, lastSpace⟩, other, mark⟩, unmarked⟩, uncommented⟩, -⟩, -⟩ :=
    allowed
  have unbroken' : ∀ d ∈ c :: cs, isLineBreak d = false := fun d member => Bool.eq_false_iff.2 (unbroken d member)
  have noComment : c ≠ '#' := by rintro rfl; cases other
  have second : markIndicators.contains c = true → ∃ d ∈ cs.head?, isBlank d = false := by
    intro isMark
    rw [isMark] at mark
    cases cs with
    | nil => simp at mark
    | cons d cs => exact ⟨d, rfl, by simpa using mark⟩
  refine ⟨nonempty, unbroken', ?_, uncommented, ?_, ?_, ?_⟩
  · cases cs with
    | nil =>
      have noColon : c ≠ ':' := by
        rintro rfl
        obtain ⟨d, member, -⟩ := second rfl
        cases member
      simpa [hasKeyMark] using noColon
    | cons d cs =>
      refine Bool.or_eq_false_iff.2 ⟨?_, unmarked⟩
      by_cases colon : c = ':'
      · subst colon
        obtain ⟨e, member, noBlank⟩ := second rfl
        cases member
        simp [noBlank]
      · simp [colon]
  · intro d member
    have present := List.mem_of_mem_getLast? member
    refine isBlank_of_isPrintable (printable d present) ?_
    rintro rfl
    exact lastSpace member
  · rintro d ⟨⟩
    exact ⟨isSolid_of_isPrintable (printable c (by simp)) noSpace (unbroken' c (by simp)) noComment, other⟩
  · rintro d ⟨⟩
    exact second

namespace Scan

/-- A plain scalar with its line. -/
theorem scan_plain {cs : List Char} (plain : PlainText cs) (follows : Follows k tail) (outside : k ≤ o.indent)
    (inside : o.indent < p.column) (free : Free key?) (keyAllowed : Bool) :
    ∃ e, (inBlock p (' ' :: (cs ++ '\n' :: (spaces k ++ tail))) o key? keyAllowed).Reaches e ∧
      e.At k tail (o.add [.scalar (Text.ofChars cs) true]) := by
  obtain ⟨c, more, rfl⟩ := List.exists_cons_of_ne_nil plain.nonempty
  obtain ⟨solid, other⟩ := plain.first c rfl
  have noTab : c ≠ '\t' := by rintro rfl; cases solid
  have positive : 0 < (p.next ' ').column := by rw [Place.column_next isLineBreak_space]; omega
  have inside' : o.indent < (p.next ' ').column := by rw [Place.column_next isLineBreak_space]; omega
  have joined : markIndicators.contains c = true →
      atBoundary (((p.next ' ').next c).spots (more ++ '\n' :: (spaces k ++ tail))) = false := by
    intro mark
    obtain ⟨d, member, noBlank⟩ := plain.second c rfl mark
    obtain ⟨more, rfl⟩ := List.head?_eq_some_iff.1 member
    simp [Place.atBoundary_spots, noBlank, plain.unbroken d (by simp)]
  have read := (readPlain_within plain.nonempty plain.unbroken plain.unmarked plain.uncommented plain.last
    ('\n' :: (spaces k ++ tail)) [] [] (absurd rfl) (Int.add_le_add_right (Int.le_of_lt inside') 1) (absurd rfl)).trans
    (readPlain_lineEnd follows (Int.lt_add_one_of_le outside) _ _)
  obtain ⟨key?', free', scanned⟩ := keyScalar_inBlock free inside' c (more ++ '\n' :: (spaces k ++ tail)) keyAllowed
    true (c :: more) tail (((p.next ' ').after (c :: more)).next '\n' |>.after (spaces k)) true
  have token := token_plain other noTab (fun mark _ => Place.startsMark_spots positive mark _) joined o key? keyAllowed
  rw [List.cons_append] at read
  rw [read] at token
  refine ⟨_, .one (step_of_settle (settle_space solid (Int.le_of_lt inside) _ _ _) rfl (token.trans scanned)) ?_, ?_⟩
  · simp [inBlock]
    omega
  · refine At.of_place follows ?_ _ free'
    rw [Place.column_after_spaces, Place.column_next_break rfl, Nat.zero_add]

/-- A scalar in quotes with the end of its line. -/
theorem scan_quoted {c : Char} (solid : isSolid c = true) (body : List Char) (follows : Follows k tail)
    (inside : o.indent < p.column) (free : Free key?) {read : Option ScalarRead} {text : List Char} {q : Place}
    (token : (inBlock (p.next ' ') (c :: (body ++ '\n' :: (spaces k ++ tail))) o key? keyAllowed).token c =
      (inBlock (p.next ' ') (c :: (body ++ '\n' :: (spaces k ++ tail))) o key? keyAllowed).keyScalar false read)
    (readBack : read = some ⟨text, q.spots ('\n' :: (spaces k ++ tail)), false⟩) :
    ∃ e, (inBlock p (' ' :: c :: (body ++ '\n' :: (spaces k ++ tail))) o key? keyAllowed).Reaches e ∧
      e.At k tail (o.add [.scalar (Text.ofChars text) false]) := by
  have inside' : o.indent < (p.next ' ').column := by rw [Place.column_next isLineBreak_space]; omega
  obtain ⟨key?', free', scanned⟩ := keyScalar_inBlock free inside' c (body ++ '\n' :: (spaces k ++ tail)) keyAllowed
    false text ('\n' :: (spaces k ++ tail)) q false
  rw [readBack] at token
  refine ⟨_, .one (step_of_settle (settle_space solid (Int.le_of_lt inside) _ _ _) rfl (token.trans scanned)) ?_, ?_⟩
  · simp [inBlock]
    omega
  · exact At.of_lineEnd follows q _ free' false

theorem token_singleQuote (inside : 0 < p.column) (rest : List Char) (o : Outline) (key? : Option KeyMark)
    (keyAllowed : Bool) :
    (inBlock p ('\'' :: rest) o key? keyAllowed).token '\'' =
      (inBlock p ('\'' :: rest) o key? keyAllowed).keyScalar false
        (readSingleQuoted [] {} ((p.next '\'').spots rest)) := by
  simp [token, Place.startsMark_spots inside]

theorem token_doubleQuote (inside : 0 < p.column) (rest : List Char) (o : Outline) (key? : Option KeyMark)
    (keyAllowed : Bool) :
    (inBlock p ('"' :: rest) o key? keyAllowed).token '"' =
      (inBlock p ('"' :: rest) o key? keyAllowed).keyScalar false
        (readDoubleQuoted [] {} ((p.next '"').spots rest)) := by
  simp [token, Place.startsMark_spots inside]

theorem token_literal (inside : 0 < p.column) (rest : List Char) (o : Outline) (key? : Option KeyMark)
    (keyAllowed : Bool) :
    (inBlock p ('|' :: rest) o key? keyAllowed).token '|' =
      (inBlock p ('|' :: rest) o key? keyAllowed).blockScalar true := by
  simp [token, Place.startsMark_spots inside]

theorem token_tag (inside : 0 < p.column) (rest : List Char) (o : Outline) (key? : Option KeyMark) (keyAllowed : Bool) :
    (inBlock p ('!' :: rest) o key? keyAllowed).token '!' =
      (inBlock p ('!' :: rest) o key? keyAllowed).named
        ((readTag ((p.next '!').spots rest)).map fun read => (.tag read.1, read.2)) := by
  simp [token, Place.startsMark_spots inside]

theorem token_open (inside : 0 < p.column) (rest : List Char) (o : Outline) (key? : Option KeyMark)
    (keyAllowed : Bool) :
    (inBlock p ('[' :: rest) o key? keyAllowed).token '[' =
      (inBlock p ('[' :: rest) o key? keyAllowed).flowStart .flowListStart := by
  simp [token, Place.startsMark_spots inside]

theorem token_item (p : Place) {rest : List Char} (boundary : atBoundary ((p.next '-').spots rest) = true)
    (o : Outline) (key? : Option KeyMark) (keyAllowed : Bool) :
    (inBlock p ('-' :: rest) o key? keyAllowed).token '-' =
      (inBlock p ('-' :: rest) o key? keyAllowed).item := by
  simp [token, Place.startsMark_spots_of_boundary p '-' boundary ⟨rfl, rfl⟩, boundary]

theorem token_value (p : Place) {rest : List Char} (boundary : atBoundary ((p.next ':').spots rest) = true)
    (o : Outline) (key? : Option KeyMark) (keyAllowed : Bool) :
    (inBlock p (':' :: rest) o key? keyAllowed).token ':' =
      (inBlock p (':' :: rest) o key? keyAllowed).value := by
  simp [token, Place.startsMark_spots_of_boundary p ':' boundary ⟨rfl, rfl⟩, boundary]

/-- A literal block with its lines. -/
theorem scan_literal {c : Char} (noBlank : isBlank c = false) (noBreak : isLineBreak c = false) (cs : List Char)
    {n k : Nat} (follows : Follows k tail) (outside : k ≤ o.indent) (deeper : o.indent < n)
    (inside : o.indent < p.column) (free : Free key?) (keyAllowed : Bool) :
    ∃ e, (inBlock p (' ' :: ((writeLiteral n (c :: cs)).line ++ (spaces k ++ tail))) o key? keyAllowed).Reaches e ∧
      e.At k tail (o.add [.scalar (Text.ofChars (c :: cs)) false]) := by
  have positive : 0 < (p.next ' ').column := by rw [Place.column_next isLineBreak_space]; omega
  obtain ⟨q, column, read⟩ := readBlockScalar_literal follows (by omega) deeper noBlank noBreak cs
    ((p.next ' ').next '|')
  rw [line_writeLiteral noBlank noBreak, List.cons_append]
  have scanned : (inBlock (p.next ' ') ('|' :: (literalTail n (c :: cs) ++ (spaces k ++ tail))) o key?
      keyAllowed).token '|' = some (inBlock q tail (o.add [.scalar (Text.ofChars (c :: cs)) false]) none true) := by
    rw [token_literal positive, blockScalar, dropKey_inBlock free]
    simp [read, inBlock, emit, Outline.add]
  refine ⟨_, .one (step_of_settle (settle_space rfl (Int.le_of_lt inside) _ _ _) rfl scanned) ?_,
    At.of_place follows column _ free_none⟩
  simp
  omega

/-- The token in front of a text in base 64. -/
def binaryTag : Token := .tag ⟨utf8 "!!", utf8 "binary"⟩

theorem readTag_binary (p : Place) (rest : List Char) :
    ∃ q, p.column ≤ q.column ∧ readTag (p.spots ("!binary ".toList ++ rest)) =
      some (⟨utf8 "!!", utf8 "binary"⟩, Place.spots q (' ' :: rest)) := by
  have within : ∀ c ∈ "!binary".toList, isTagChar c = true := by simp [isTagChar, isNameChar, Char.isAlphanum]
  have unbroken : ∀ c ∈ "!binary".toList, isLineBreak c = false := by simp [isLineBreak]
  have name : tagOf "!binary".toList = some ⟨utf8 "!!", utf8 "binary"⟩ := by decide +kernel
  have text : "!binary ".toList ++ rest = "!binary".toList ++ ' ' :: rest := rfl
  have ends : isTagChar ' ' = false := rfl
  have cut := span_spots within ends p rest
  refine ⟨p.after "!binary".toList, ?_, ?_⟩
  · rw [Place.after_eq unbroken]
    exact Nat.le_add_right _ _
  · rw [text, readTag, cut]
    simp only [Place.map_char_spots, name, Place.atBoundary_spots]
    rfl

/-- The mark of a text in base 64. -/
theorem scan_tag (body : List Char) (inside : o.indent < p.column) (free : Free key?) (keyAllowed : Bool) :
    ∃ q key?', o.indent < (Place.column q : Int) ∧ Free key?' ∧
      (inBlock p (' ' :: ("!!binary ".toList ++ body)) o key? keyAllowed).Reaches
        (inBlock q (' ' :: body) (o.add [binaryTag]) key?' false) := by
  have positive : 0 < (p.next ' ').column := by rw [Place.column_next isLineBreak_space]; omega
  have inside' : o.indent < (p.next ' ').column := by rw [Place.column_next isLineBreak_space]; omega
  obtain ⟨q, column, read⟩ := readTag_binary ((p.next ' ').next '!') body
  obtain ⟨key?', free', noted⟩ := noteKey_inBlock free inside' '!' ("!binary ".toList ++ body) keyAllowed
  have scanned : (inBlock (p.next ' ') ('!' :: ("!binary ".toList ++ body)) o key? keyAllowed).token '!' =
      some (inBlock q (' ' :: body) (o.add [binaryTag]) key?' false) := by
    rw [token_tag positive, read, named, noted]
    simp [inBlock, emit, Outline.add, binaryTag]
  refine ⟨q, key?', ?_, free', .one (step_of_settle (settle_space rfl (Int.le_of_lt inside) _ _ _) rfl scanned) ?_⟩
  · rw [Place.column_next rfl] at column
    omega
  · simp

/-- A list without items. -/
theorem scan_empty (follows : Follows k tail) (inside : o.indent < p.column) (free : Free key?) (keyAllowed : Bool) :
    ∃ e, (inBlock p (" []\n".toList ++ (spaces k ++ tail)) o key? keyAllowed).Reaches e ∧
      e.At k tail (o.add [.flowListStart, .flowListEnd]) := by
  have positive : 0 < (p.next ' ').column := by rw [Place.column_next isLineBreak_space]; omega
  have inside' : o.indent < (p.next ' ').column := by rw [Place.column_next isLineBreak_space]; omega
  obtain ⟨key?', free', noted⟩ := noteKey_inBlock free inside' '[' (']' :: '\n' :: (spaces k ++ tail)) keyAllowed
  let opened : Scan := { inBlock ((p.next ' ').next '[') (']' :: '\n' :: (spaces k ++ tail))
    (o.add [.flowListStart]) none true with flowLevel := 1, keys := [none, key?'] }
  have taken : (inBlock (p.next ' ') ('[' :: ']' :: '\n' :: (spaces k ++ tail)) o key? keyAllowed).token '[' =
      some opened := by
    rw [token_open positive, flowStart, noted]
    simp [opened, inBlock, emit, skip, Outline.add]
  have closed : opened.step = some (inBlock (((p.next ' ').next '[').next ']') ('\n' :: (spaces k ++ tail))
      (o.add [.flowListStart, .flowListEnd]) key?' false, true) := by
    have column : 0 < ((p.next ' ').next '[').column := by rw [Place.column_next rfl]; omega
    have settled : opened.settle = opened := by
      simp [settle, opened, inBlock, Place.spots_cons, skipBlanks, isLineBreak, unrollIndent]
    refine step_of_settle settled rfl ?_
    simp [token, opened, Place.startsMark_spots column, flowEnd, dropKey, inBlock, emit, skip, Outline.add]
  refine ⟨_, .step (step_of_settle (settle_space rfl (Int.le_of_lt inside) _ _ _) rfl taken) ?_ (.one closed ?_),
    At.of_lineEnd follows _ _ free' false⟩
  · simp [opened]
  · simp [opened]

theorem insert_toArray (front back : List Token) (token : Token) :
    ((front ++ back).toArray.take front.length).push token ++ (front ++ back).toArray.drop front.length =
      (front ++ token :: back).toArray := by
  apply Array.ext'
  simp

/-- A block starts in front of the tokens of its first key. -/
theorem rollIndent_inBlock (p : Place) (text : List Char) (o : Outline) (key? : Option KeyMark) (keyAllowed : Bool)
    (column : Int) (token : Token) (tokens : List Token) :
    (inBlock p text (o.add tokens) key? keyAllowed).rollIndent column o.tokens.length token =
      inBlock p text ((o.reach column token).add tokens) key? keyAllowed := by
  by_cases inside : column ≤ o.indent
  · simp [rollIndent, inBlock, Outline.reach, Outline.add, inside]
  · simp only [rollIndent, inBlock, Outline.reach, Outline.add, Outline.enter, inside, insert, insert_toArray]
    simp

/-- The mark of an item, which may start the list. -/
theorem At.item {s : Scan} {w : Nat} {rest : List Char} (here : s.At w ('-' :: rest) o) (inside : o.indent ≤ w)
    (boundary : rest.head?.all (fun c => isBlank c || isLineBreak c) = true) :
    ∃ p, p.column = w + 1 ∧ s.Reaches (inBlock p rest ((o.reach w .blockList).add [.item]) none true) := by
  obtain ⟨q, key?, rfl, free, settled⟩ := here.settled
  rw [unrollIndent_of_le inside] at settled
  have scanned : (inBlock q ('-' :: rest) o key? true).token '-' =
      some (inBlock (q.next '-') rest ((o.reach q.column .blockList).add [.item]) none true) := by
    have rolled := rollIndent_inBlock q ('-' :: rest) o key? true q.column .blockList []
    rw [Outline.add_nil, Outline.add_nil] at rolled
    have column : (inBlock q ('-' :: rest) o key? true).column = q.column := by
      simp [Scan.column, Place.spots_cons]
    have size : (inBlock q ('-' :: rest) o key? true).tokens.size = o.tokens.length := by simp [inBlock]
    rw [token_item q (by rwa [Place.atBoundary_spots]), Scan.item, column, size, rolled]
    simp only [dropKey_inBlock free]
    simp [inBlock, emit, skip, Outline.add]
  refine ⟨q.next '-', Place.column_next rfl q, .one (step_of_settle settled rfl scanned) ?_⟩
  have shorter := length_settle s
  rw [settled] at shorter
  simp at shorter ⊢
  omega

/-- The note that a key may start at a place. -/
def keyMark (o : Outline) (p : Place) : KeyMark :=
  ⟨o.tokens.length, p.line, p.column, p.index, decide (o.indent = p.column)⟩

theorem noteKey_keyMark (free : Free key?) (p : Place) (o : Outline) (c : Char) (rest : List Char) :
    (inBlock p (c :: rest) o key? true).noteKey = some (inBlock p (c :: rest) o (some (keyMark o p)) true) := by
  rw [noteKey, dropKey_inBlock free]
  simp [inBlock, Place.spots_cons, keyMark]

/-- The colon makes a key of the scalar in front of it. -/
theorem value_keyMark {cs : List Char} (unbroken : ∀ c ∈ cs, isLineBreak c = false) (short : cs.length ≤ maxKeyLength)
    (p : Place) (o : Outline) (token : Token) (rest : List Char) :
    (inBlock (p.after cs) (':' :: rest) (o.add [token]) (some (keyMark o p)) false).value =
      some (inBlock ((p.after cs).next ':') rest ((o.reach p.column .blockMap).add [.key, token, .value]) none
        false) := by
  have place := Place.after_eq unbroken p
  have current : (inBlock (p.after cs) (':' :: rest) (o.add [token]) (some (keyMark o p)) false).currentKey =
      some (some (keyMark o p)) := by
    simp [currentKey, inBlock, Place.spots_cons, place, keyMark, short]
  have marked : (inBlock (p.after cs) (':' :: rest) (o.add [token]) (some (keyMark o p)) false).insert o.tokens.length
      .key = inBlock (p.after cs) (':' :: rest) (o.add [.key, token]) (some (keyMark o p)) false := by
    simp only [Scan.insert, inBlock, Outline.add, insert_toArray]
  rw [value, current]
  simp only [Option.bind_eq_bind, Option.bind_some, keyMark] at marked ⊢
  simp only [marked, rollIndent_inBlock]
  simp [inBlock, emit, skip, Outline.add]

/-- A key with its colon, which may start the record. -/
theorem At.key {s : Scan} {w : Nat} {cs rest : List Char} (here : s.At w (cs ++ ':' :: rest) o)
    (inside : o.indent ≤ w) (plain : PlainText cs) (short : cs.length ≤ maxKeyLength)
    (apart : ∀ c ∈ cs.head?, markIndicators.contains c = false ∧ c ≠ '.')
    (boundary : rest.head?.all (fun c => isBlank c || isLineBreak c) = true) :
    ∃ p, w < p.column ∧ s.Reaches (inBlock p rest
      ((o.reach w .blockMap).add [.key, .scalar (Text.ofChars cs) true, .value]) none false) := by
  obtain ⟨q, key?, rfl, free, settled⟩ := here.settled
  rw [unrollIndent_of_le inside] at settled
  obtain ⟨c, more, rfl⟩ := List.exists_cons_of_ne_nil plain.nonempty
  obtain ⟨solid, other⟩ := plain.first c rfl
  obtain ⟨unmarked, noDot⟩ := apart c rfl
  have noTab : c ≠ '\t' := by rintro rfl; cases solid
  have read := (readPlain_within plain.nonempty plain.unbroken plain.unmarked plain.uncommented plain.last
    (':' :: rest) [] [] (absurd rfl) (Int.add_le_add_right inside 1) (absurd rfl)).trans
    (readPlain_colon (o.indent + 1) _ boundary _)
  have marks (mark : Char) (member : mark ∈ ['-', '.']) :
      startsMark mark (q.spots (c :: (more ++ ':' :: rest))) = false := by
    refine Place.startsMark_spots_of_ne ?_ q _
    rintro rfl
    rcases by simpa using member with rfl | rfl
    · cases unmarked
    · exact noDot rfl
  have token := token_plain other noTab marks (fun isMark => absurd (unmarked.symm.trans isMark) (by decide)) o key?
    true
  have scanned : (inBlock q (c :: (more ++ ':' :: rest)) o key? true).token c =
        some (inBlock (q.after (c :: more)) (':' :: rest) (o.add [.scalar (Text.ofChars (c :: more)) true])
          (some (keyMark o q)) false) := by
    rw [List.cons_append] at read
    rw [token, keyScalar, noteKey_keyMark free, read]
    simp [inBlock, emit, Outline.add]
  have beyond : q.column < (q.after (c :: more)).column := by
    rw [Place.after_eq plain.unbroken]
    simp
  have within : (o.add [.scalar (Text.ofChars (c :: more)) true]).indent ≤ (q.after (c :: more)).column := by
    rw [Outline.indent_add]
    omega
  have colon := settle_solid (c := ':') rfl within rest (some (keyMark o q)) false
  have valued := (token_value (q.after (c :: more)) (by rwa [Place.atBoundary_spots]) _ _ _).trans
    (value_keyMark plain.unbroken short q o (.scalar (Text.ofChars (c :: more)) true) rest)
  refine ⟨(q.after (c :: more)).next ':', ?_,
    .step (step_of_settle settled rfl scanned) ?_ (.one (step_of_settle colon rfl valued) ?_)⟩
  · rw [Place.column_next rfl]
    omega
  · have shorter := length_settle s
    rw [settled] at shorter
    simp at shorter ⊢
    omega
  · simp

end Scan

end JvmCoupling.Yaml
