import JvmCoupling.Yaml.Token
import Mathlib

/-! # Scalars read back

The scanner reads a written scalar back to its characters, whatever follows on the next line.  Each style has its own
reader, and each is followed here character by character.

* `Place`, `Place.spots` — positions, and a text from a position on;
* `Follows` — what can stand behind a scalar;
* `readPlain_within`, `readPlain_lineEnd`, `readPlain_colon` — a plain scalar and its ends;
* `readSingleQuoted_body`, `readDoubleQuoted_escaped` — scalars in quotes;
* `readBlockScalar_literal` — literal blocks that start with neither a blank nor a line break.
-/

namespace JvmCoupling.Yaml

/-! ## Positions -/

/-- Where a character stands. -/
structure Place where
  line : Nat
  column : Nat
  index : Nat

namespace Place

def next (p : Place) (c : Char) : Place :=
  if isLineBreak c then ⟨p.line + 1, 0, p.index + 1⟩ else ⟨p.line, p.column + 1, p.index + 1⟩

/-- The place behind a text. -/
def after (p : Place) (cs : List Char) : Place := cs.foldl next p

/-- A text whose first character stands at a place. -/
def spots (p : Place) (cs : List Char) : List Spot := spotsFrom p.line p.column p.index cs

@[simp] theorem spots_nil (p : Place) : p.spots [] = [] := rfl

theorem spots_cons (p : Place) (c : Char) (cs : List Char) :
    p.spots (c :: cs) = ⟨c, p.line, p.column, p.index⟩ :: (p.next c).spots cs := by
  rw [spots, spotsFrom, next]
  split <;> rfl

@[simp] theorem tail_spots (p : Place) (c : Char) (cs : List Char) :
    (p.spots (c :: cs)).tail = (p.next c).spots cs := by
  rw [spots_cons, List.tail_cons]

theorem after_cons (p : Place) (c : Char) (cs : List Char) : p.after (c :: cs) = (p.next c).after cs := rfl

@[simp] theorem length_spots (p : Place) (cs : List Char) : (p.spots cs).length = cs.length := by
  induction cs generalizing p with
  | nil => rfl
  | cons c cs ih => rw [spots_cons, List.length_cons, ih, List.length_cons]

theorem spots_append (p : Place) (cs ds : List Char) : p.spots (cs ++ ds) = p.spots cs ++ (p.after cs).spots ds := by
  induction cs generalizing p with
  | nil => rfl
  | cons c cs ih => rw [List.cons_append, spots_cons, spots_cons, ih, List.cons_append, after_cons]

theorem map_char_spots (p : Place) (cs : List Char) : (p.spots cs).map (·.char) = cs := by
  induction cs generalizing p with
  | nil => rfl
  | cons c cs ih => rw [spots_cons, List.map_cons, ih]

theorem column_next {c : Char} (unbroken : isLineBreak c = false) (p : Place) : (p.next c).column = p.column + 1 := by
  rw [next, unbroken]
  rfl

theorem column_next_break {c : Char} (isBreak : isLineBreak c = true) (p : Place) : (p.next c).column = 0 := by
  rw [next, isBreak]
  rfl

theorem column_after_breaks {brs : List Char} (allBreaks : ∀ c ∈ brs, isLineBreak c = true) {p : Place}
    (start : p.column = 0) : (p.after brs).column = 0 := by
  induction brs generalizing p with
  | nil => exact start
  | cons b brs ih =>
    obtain ⟨here, allBreaks⟩ := List.forall_mem_cons.1 allBreaks
    exact ih allBreaks (column_next_break here p)

/-- A text without line breaks stands on one line. -/
theorem after_eq {cs : List Char} (unbroken : ∀ c ∈ cs, isLineBreak c = false) (p : Place) :
    p.after cs = ⟨p.line, p.column + cs.length, p.index + cs.length⟩ := by
  induction cs generalizing p with
  | nil => rfl
  | cons c cs ih =>
    obtain ⟨first, rest⟩ := List.forall_mem_cons.1 unbroken
    rw [after_cons, ih rest, next, first]
    simp [Nat.add_assoc, Nat.add_comm 1]

theorem peek?_spots (p : Place) (cs : List Char) : peek? (p.spots cs) = cs.head? := by
  cases cs with
  | nil => rfl
  | cons c cs => rw [spots_cons]; rfl

theorem atBoundary_spots (p : Place) (cs : List Char) :
    atBoundary (p.spots cs) = cs.head?.all fun c => isBlank c || isLineBreak c := by
  rw [atBoundary, peek?_spots]

/-- Marks of documents stand at the start of a line. -/
theorem startsMark_spots {p : Place} (inside : 0 < p.column) (c : Char) (cs : List Char) :
    startsMark c (p.spots cs) = false := by
  cases cs with
  | nil => rfl
  | cons d cs =>
    have elsewhere : p.column ≠ 0 := by omega
    simp [startsMark, spots_cons, elsewhere]

theorem startsMark_spots_of_ne {c d : Char} (other : d ≠ c) (p : Place) (cs : List Char) :
    startsMark c (p.spots (d :: cs)) = false := by
  simp [startsMark, spots_cons, other]

theorem startsMark_spots_of_boundary (p : Place) (d : Char) {cs : List Char}
    (boundary : atBoundary ((p.next d).spots cs) = true) (noBoundary : isBlank d = false ∧ isLineBreak d = false)
    (c : Char) : startsMark c (p.spots (d :: cs)) = false := by
  rw [atBoundary_spots] at boundary
  cases cs with
  | nil => simp [startsMark, spots_cons]
  | cons e cs =>
    have other : e ≠ d := by
      rintro rfl
      simp [noBoundary] at boundary
    rw [startsMark, spots_cons, spots_cons]
    grind

theorem startsDocumentMark_spots {p : Place} (inside : 0 < p.column) (cs : List Char) :
    startsDocumentMark (p.spots cs) = false := by
  rw [startsDocumentMark, startsMark_spots inside, startsMark_spots inside]
  rfl

end Place

theorem isLineBreak_space : isLineBreak ' ' = false := rfl

theorem unbroken_spaces (n : Nat) : ∀ c ∈ spaces n, isLineBreak c = false := by
  intro c member
  rw [List.eq_of_mem_replicate member]
  rfl

theorem length_spaces (n : Nat) : (spaces n).length = n := List.length_replicate

theorem spaces_succ (n : Nat) : spaces (n + 1) = ' ' :: spaces n := rfl

theorem Place.column_after_spaces (p : Place) (n : Nat) : (p.after (spaces n)).column = p.column + n := by
  rw [Place.after_eq (unbroken_spaces n), length_spaces]

/-! ## Characters -/

theorem isBlank_eq_false {c : Char} : isBlank c = false ↔ c ≠ ' ' ∧ c ≠ '\t' := by
  simp [isBlank]

/-- A break is no blank. -/
theorem isBlank_of_isLineBreak {c : Char} (isBreak : isLineBreak c = true) : isBlank c = false := by
  rw [isBlank_eq_false]
  constructor <;> rintro rfl <;> cases isBreak

theorem hasPair_tail {f g : Char → Bool} {c : Char} {cs : List Char} (none : hasPair f g (c :: cs) = false) :
    hasPair f g cs = false := by
  cases cs with
  | nil => rfl
  | cons d cs => exact (Bool.or_eq_false_iff.1 none).2

theorem hasKeyMark_tail {c : Char} {cs : List Char} (none : hasKeyMark (c :: cs) = false) : hasKeyMark cs = false := by
  cases cs with
  | nil => rfl
  | cons d cs => exact (Bool.or_eq_false_iff.1 none).2

/-- A character that is not passed over between tokens. -/
def isSolid (c : Char) : Bool := !isBlank c && !isLineBreak c && c ≠ '#' && c.toNat ≠ 0xFEFF

theorem isSolid_iff {c : Char} :
    isSolid c = true ↔ isBlank c = false ∧ isLineBreak c = false ∧ c ≠ '#' ∧ c.toNat ≠ 0xFEFF := by
  simp [isSolid, and_assoc]

/-- What can stand behind a scalar and its line: the end of the text, or a line that is indented by so many spaces and
has something else than a comment on it. -/
structure Follows (indent : Nat) (tail : List Char) : Prop where
  solid : ∀ c ∈ tail.head?, isSolid c = true
  empty : tail = [] → indent = 0

theorem Follows.of_solid {c : Char} (solid : isSolid c = true) (indent : Nat) (rest : List Char) :
    Follows indent (c :: rest) where
  solid := by simpa using solid
  empty := by simp

/-! ## Plain scalars -/

/-- Characters of a plain scalar up to one that is no blank.  The blanks in front of them are kept. -/
theorem readPlain_within {indent : Int} {cs : List Char} (nonempty : cs ≠ [])
    (unbroken : ∀ c ∈ cs, isLineBreak c = false) (unmarked : hasKeyMark cs = false)
    (uncommented : hasPair isBlank (· = '#') cs = false) (last : ∀ c ∈ cs.getLast?, isBlank c = false)
    (rest text blanks : List Char) (first : blanks ≠ [] → cs.head? ≠ some '#') {p : Place}
    (near : indent ≤ p.column + 1) (inside : blanks ≠ [] → indent ≤ p.column ∧ 0 < p.column) :
    readPlain false indent text { blanks } (p.spots (cs ++ rest)) =
      readPlain false indent (text ++ blanks ++ cs) {} ((p.after cs).spots rest) := by
  induction cs generalizing text blanks p with
  | nil => exact absurd rfl nonempty
  | cons c cs ih =>
    obtain ⟨here, unbroken⟩ := List.forall_mem_cons.1 unbroken
    have near' : indent ≤ (p.next c).column + 1 := by rw [Place.column_next here]; omega
    have inside' : indent ≤ (p.next c).column ∧ 0 < (p.next c).column := by rw [Place.column_next here]; omega
    have unmarked' := hasKeyMark_tail unmarked
    have uncommented' := hasPair_tail uncommented
    rw [List.cons_append, Place.spots_cons, readPlain]
    by_cases blank : isBlank c = true
    · have more : cs ≠ [] := by
        rintro rfl
        exact absurd blank (by simpa using last)
      have last' : ∀ c ∈ cs.getLast?, isBlank c = false := by rwa [List.getLast?_cons_of_ne_nil more] at last
      have first' : blanks ++ [c] ≠ [] → cs.head? ≠ some '#' := by
        intro _ comment
        obtain ⟨cs, rfl⟩ := List.head?_eq_some_iff.1 comment
        simp [hasPair, blank] at uncommented
      simp only [blank, Bool.false_and, Bool.false_eq_true, if_true, if_false, Gap.addBlank]
      rw [ih more unbroken unmarked' uncommented' last' _ _ first' near' fun _ => inside', Place.after_cons]
      simp
    · have noComment : blanks ≠ [] → c ≠ '#' := fun given same => first given (by rw [same]; rfl)
      have goesOn : (!Gap.isEmpty { blanks } && ((!false && decide ((p.column : Int) < indent)) || decide (c = '#') ||
          startsDocumentMark (p.spots (c :: (cs ++ rest))))) = false := by
        by_cases none : blanks = []
        · simp [Gap.isEmpty, none]
        · simp [Place.startsDocumentMark_spots (inside none).2, noComment none, (inside none).1]
      have noEnd : endsPlain false c ((p.next c).spots (cs ++ rest)) = false := by
        rw [endsPlain, Place.atBoundary_spots]
        cases cs with
        | nil =>
          have colon : c ≠ ':' := by simpa [hasKeyMark] using unmarked
          simp [colon]
        | cons d cs =>
          have pair := (Bool.or_eq_false_iff.1 unmarked).1
          have next := unbroken d List.mem_cons_self
          by_cases colon : c = ':'
          · simp only [colon, decide_true, Bool.true_and] at pair
            simp [pair, next]
          · simp [colon]
      rw [← Place.spots_cons, goesOn, noEnd]
      simp only [blank, here, Bool.false_eq_true, if_false, Gap.fold, Bool.not_false, if_true]
      by_cases more : cs = []
      · subst more
        rfl
      · have last' : ∀ c ∈ cs.getLast?, isBlank c = false := by rwa [List.getLast?_cons_of_ne_nil more] at last
        have continued := ih more unbroken unmarked' uncommented' last' (text ++ blanks ++ [c]) []
          (absurd rfl) near' fun _ => inside'
        rw [continued, Place.after_cons]
        simp

/-- Indentation at the start of a line is passed over. -/
theorem readPlain_spaces {indent : Int} {gap : Gap} (broken : gap.isBroken = true) (n : Nat) (text tail : List Char)
    (p : Place) :
    readPlain false indent text gap (p.spots (spaces n ++ tail)) =
      readPlain false indent text gap ((p.after (spaces n)).spots tail) := by
  induction n generalizing p with
  | zero => rfl
  | succ n ih =>
    rw [spaces_succ, List.cons_append, Place.spots_cons, readPlain]
    have blank : isBlank ' ' = true := rfl
    simp only [blank, if_true, Gap.addBlank, broken, Bool.true_and]
    exact ih _

/-- A plain scalar ends with its line if the next one is not indented far enough. -/
theorem readPlain_lineEnd {indent : Int} {k : Nat} {tail : List Char} (follows : Follows k tail)
    (outside : (k : Int) < indent) (text : List Char) (p : Place) :
    readPlain false indent text {} (p.spots ('\n' :: (spaces k ++ tail))) =
      some ⟨text, ((p.next '\n').after (spaces k)).spots tail, true⟩ := by
  have noBlank : isBlank '\n' = false := rfl
  have isBreak : isLineBreak '\n' = true := rfl
  rw [Place.spots_cons, readPlain]
  simp only [noBlank, isBreak, Bool.false_eq_true, if_false, if_true, Gap.addBreak]
  rw [readPlain_spaces rfl]
  have column : ((p.next '\n').after (spaces k)).column = k := by
    rw [Place.after_eq (unbroken_spaces k), length_spaces]
    exact Nat.zero_add k
  generalize (p.next '\n').after (spaces k) = q at column ⊢
  cases tail with
  | nil => rfl
  | cons c tail =>
    obtain ⟨solid, unbroken, -, -⟩ := isSolid_iff.1 (follows.solid c rfl)
    have ends : decide ((q.column : Int) < indent) = true := by rw [column]; simpa using outside
    rw [Place.spots_cons, readPlain]
    simp [solid, unbroken, ends, Gap.isEmpty]

/-- A plain scalar ends at the colon of a key. -/
theorem readPlain_colon (indent : Int) (text : List Char) {rest : List Char}
    (boundary : rest.head?.all (fun c => isBlank c || isLineBreak c) = true) (p : Place) :
    readPlain false indent text {} (p.spots (':' :: rest)) = some ⟨text, p.spots (':' :: rest), false⟩ := by
  have noBlank : isBlank ':' = false := rfl
  have noBreak : isLineBreak ':' = false := rfl
  rw [Place.spots_cons, readPlain]
  simp [noBlank, noBreak, Gap.isEmpty, endsPlain, Place.atBoundary_spots, boundary]

/-! ## Quoted scalars -/

/-- A blank or break in quotes adds to the gap. -/
theorem readSingleQuoted_blank {c : Char} (blank : isBlank c = true) (text : List Char) (gap : Gap) (p : Place)
    (rest : List Char) :
    readSingleQuoted text gap (p.spots (c :: rest)) =
      readSingleQuoted text (gap.addBlank c) ((p.next c).spots rest) := by
  rw [Place.spots_cons, readSingleQuoted.eq_def]
  simp only [blank, if_true]

theorem readSingleQuoted_break {c : Char} (noBlank : isBlank c = false) (isBreak : isLineBreak c = true)
    (text : List Char) (gap : Gap) (p : Place) (rest : List Char) :
    readSingleQuoted text gap (p.spots (c :: rest)) =
      readSingleQuoted text (gap.addBreak c) ((p.next c).spots rest) := by
  rw [Place.spots_cons, readSingleQuoted.eq_def]
  simp only [noBlank, isBreak, if_true, Bool.false_eq_true, if_false]

theorem readSingleQuoted_spaces {gap : Gap} (broken : gap.isBroken = true) (n : Nat) (text tail : List Char)
    (p : Place) :
    readSingleQuoted text gap (p.spots (spaces n ++ tail)) =
      readSingleQuoted text gap ((p.after (spaces n)).spots tail) := by
  induction n generalizing p with
  | zero => rfl
  | succ n ih =>
    rw [spaces_succ, List.cons_append, readSingleQuoted_blank rfl, Gap.addBlank, if_pos broken]
    exact ih _

theorem readSingleQuoted_char {c : Char} (noBlank : isBlank c = false) (noBreak : isLineBreak c = false)
    (text : List Char) (gap : Gap) {p : Place} (inside : 0 < p.column) (rest : List Char) :
    readSingleQuoted text gap (p.spots ((if c = '\'' then ['\''] else []) ++ c :: rest)) =
      readSingleQuoted (text ++ gap.fold ++ [c]) {}
        ((p.after ((if c = '\'' then ['\''] else []) ++ [c])).spots rest) := by
  by_cases quote : c = '\''
  · subst quote
    have mark := Place.startsDocumentMark_spots inside ('\'' :: '\'' :: rest)
    rw [Place.spots_cons, Place.spots_cons] at mark
    rw [if_pos rfl, List.singleton_append, Place.spots_cons, Place.spots_cons, readSingleQuoted.eq_def]
    simp only [noBlank, noBreak, mark, Bool.false_eq_true, if_false, if_true]
    rfl
  · have mark := Place.startsDocumentMark_spots inside (c :: rest)
    rw [Place.spots_cons] at mark
    rw [if_neg quote, List.nil_append, Place.spots_cons, readSingleQuoted.eq_def]
    simp only [noBlank, noBreak, mark, quote, Bool.false_eq_true, if_false]
    rfl

theorem readSingleQuoted_close {rest : List Char} (unquoted : rest.head? ≠ some '\'') (text : List Char) (gap : Gap)
    (p : Place) :
    readSingleQuoted text gap (p.spots ('\'' :: rest)) = some ⟨text ++ gap.fold, (p.next '\'').spots rest, false⟩ := by
  have noBlank : isBlank '\'' = false := rfl
  have noBreak : isLineBreak '\'' = false := rfl
  have mark : startsDocumentMark (p.spots ('\'' :: rest)) = false := by
    rw [startsDocumentMark, Place.startsMark_spots_of_ne (by decide), Place.startsMark_spots_of_ne (by decide)]
    rfl
  rw [Place.spots_cons] at mark ⊢
  rw [readSingleQuoted.eq_def]
  simp only [noBlank, noBreak, mark, Bool.false_eq_true, if_false, if_true]
  cases rest with
  | nil => rfl
  | cons d rest =>
    have other : d ≠ '\'' := by simpa using unquoted
    simp only [Place.spots_cons, other, if_false]

/-- A gap whose breaks are all kept: its first one is no line feed. -/
def Gap.Kept (gap : Gap) : Prop := gap.isBroken = true → ∃ c, gap.firstBreak = some c ∧ c ≠ '\n'

theorem Gap.fold_addBreak {gap : Gap} (kept : gap.Kept) {c : Char} (notFeed : c ≠ '\n')
    (bare : gap.isBroken = false → gap.blanks = []) :
    (gap.addBreak c).fold = gap.fold ++ [c] ∧ (gap.addBreak c).isBroken = true ∧ (gap.addBreak c).Kept := by
  by_cases broken : gap.isBroken = true
  · obtain ⟨b, first, other⟩ := kept broken
    refine ⟨?_, by simp [addBreak, broken], fun _ => ⟨b, by simp [addBreak, broken, first], other⟩⟩
    simp [addBreak, fold, broken, first, other]
  · refine ⟨?_, by simp [addBreak, broken], fun _ => ⟨c, by simp [addBreak, broken], notFeed⟩⟩
    simp [addBreak, fold, broken, notFeed, bare]

/-- The indentation of a new line is passed over. -/
theorem readSingleQuoted_indent {indent : Nat} (indented : 0 < indent) (text : List Char) {gap : Gap} {p : Place}
    (inside : gap.isBroken = false → 0 < p.column) :
    ∃ q : Place, 0 < q.column ∧ ∀ tail,
      readSingleQuoted text gap (p.spots ((if gap.isBroken = true then spaces indent else []) ++ tail)) =
        readSingleQuoted text gap (q.spots tail) := by
  by_cases broken : gap.isBroken = true
  · refine ⟨p.after (spaces indent), ?_, fun tail => ?_⟩
    · rw [Place.column_after_spaces]
      omega
    · rw [if_pos broken, readSingleQuoted_spaces broken]
  · exact ⟨p, inside (by simpa using broken), fun tail => by rw [if_neg broken, List.nil_append]⟩

theorem column_after_quote {c : Char} (noBreak : isLineBreak c = false) {p : Place} (inside : 0 < p.column) :
    0 < (p.after ((if c = '\'' then ['\''] else []) ++ [c])).column := by
  have unbroken : ∀ d ∈ (if c = '\'' then ['\''] else []) ++ [c], isLineBreak d = false := by
    intro d member
    rcases List.mem_append.1 member with quote | last
    · rw [List.mem_ite_nil_right, List.mem_singleton] at quote
      rw [quote.2]
      rfl
    · rw [List.mem_singleton.1 last, noBreak]
  rw [Place.after_eq unbroken]
  exact Nat.lt_of_lt_of_le inside (Nat.le_add_right _ _)

/-- The text between single quotes is read back.  The gap in front of it is that of the characters before. -/
theorem readSingleQuoted_body {indent : Nat} (indented : 0 < indent) {rest : List Char}
    (unquoted : rest.head? ≠ some '\'') {cs : List Char} (unfed : '\n' ∉ cs) (untabbed : '\t' ∉ cs)
    (noSpaceBreak : hasSpaceBreak cs = false) (noBreakSpace : hasPair isLineBreak (· = ' ') cs = false)
    (text : List Char) (gap : Gap) (kept : gap.Kept)
    (bare : gap.isBroken = false → ∀ c ∈ cs.head?, isLineBreak c = true → gap.blanks = [])
    (unspaced : gap.isBroken = true → cs.head? ≠ some ' ') {p : Place} (inside : gap.isBroken = false → 0 < p.column) :
    ∃ q : Place, readSingleQuoted text gap (p.spots (singleQuotedBody indent gap.isBroken cs ++ '\'' :: rest)) =
      some ⟨text ++ gap.fold ++ cs, q.spots rest, false⟩ := by
  induction cs generalizing text gap p with
  | nil => exact ⟨_, by rw [singleQuotedBody, List.nil_append, readSingleQuoted_close unquoted, List.append_nil]⟩
  | cons c cs ih =>
    obtain ⟨notFeed, unfed⟩ := not_or.1 (mt List.mem_cons.2 unfed)
    obtain ⟨notTab, untabbed⟩ := not_or.1 (mt List.mem_cons.2 untabbed)
    have go := ih unfed untabbed (hasPair_tail noSpaceBreak) (hasPair_tail noBreakSpace)
    by_cases isBreak : isLineBreak c = true
    · obtain ⟨fold, broken, kept'⟩ := Gap.fold_addBreak kept (Ne.symm notFeed) fun whole => bare whole c rfl isBreak
      have unspaced' : cs.head? ≠ some ' ' := by
        intro space
        obtain ⟨cs, rfl⟩ := List.head?_eq_some_iff.1 space
        simp [hasPair, isBreak] at noBreakSpace
      obtain ⟨q, read⟩ := go text _ kept' (fun whole => by simp [broken] at whole) (fun _ => unspaced')
        (p := p.next c) (fun whole => by simp [broken] at whole)
      refine ⟨q, ?_⟩
      rw [singleQuotedBody, if_pos isBreak, List.cons_append,
        readSingleQuoted_break (isBlank_of_isLineBreak isBreak) isBreak, ← broken, read, fold]
      simp
    · have noBreak : isLineBreak c = false := by simpa using isBreak
      rw [singleQuotedBody, if_neg isBreak]
      by_cases space : c = ' '
      · -- a space joins the blanks of a gap without breaks
        subst space
        have whole : gap.isBroken = false := by
          rw [Bool.eq_false_iff]
          exact fun broken => unspaced broken rfl
        have added : gap.addBlank ' ' = { gap with blanks := gap.blanks ++ [' '] } := if_neg (by simp [whole])
        have bare' : ∀ c ∈ cs.head?, isLineBreak c = true → gap.blanks ++ [' '] = [] := by
          intro d first isBreak'
          obtain ⟨cs, rfl⟩ := List.head?_eq_some_iff.1 first
          simp [hasSpaceBreak, hasPair, isBreak'] at noSpaceBreak
        obtain ⟨q, read⟩ := go text (gap.addBlank ' ') (by simp [added, Gap.Kept, whole])
          (fun _ => by rw [added]; exact bare') (by simp [added, whole]) (p := p.next ' ')
          (fun _ => by rw [Place.column_next noBreak]; omega)
        refine ⟨q, ?_⟩
        have broken' : (gap.addBlank ' ').isBroken = false := by rw [added, whole]
        have fold : (gap.addBlank ' ').fold = gap.fold ++ [' '] := by simp [added, Gap.fold, whole]
        rw [broken'] at read
        rw [whole, if_neg (by decide), if_neg (by decide), List.nil_append, List.nil_append, List.cons_append,
          readSingleQuoted_blank rfl, read, fold]
        simp
      · have noBlank : isBlank c = false := isBlank_eq_false.2 ⟨space, Ne.symm notTab⟩
        obtain ⟨q, inside', skip⟩ := readSingleQuoted_indent indented text inside
        obtain ⟨q', read⟩ := go (text ++ gap.fold ++ [c]) {} (by simp [Gap.Kept]) (fun _ _ _ _ => rfl)
          (by simp) (fun _ => column_after_quote noBreak inside')
        refine ⟨q', ?_⟩
        have empty : Gap.fold {} = [] := rfl
        rw [empty] at read
        simp only [List.append_assoc, List.cons_append, List.nil_append] at read ⊢
        rw [skip, readSingleQuoted_char noBlank noBreak text gap inside', List.append_assoc, read]

/-! ### Escapes -/

/-- A character that can stand unescaped inside a line. -/
def isInline (c : Char) : Bool := isPrintable c && !isLineBreak c

theorem isLineBreak_of_isInline {c : Char} (inline : isInline c = true) : isLineBreak c = false := by
  simpa using (Bool.and_eq_true_iff.1 inline).2

theorem hexValue?_hexDigit {d : Nat} (small : d < 16) :
    hexValue? (.ofNat (Text.hexDigit 0x41 d).toNat) = some d ∧
      isInline (.ofNat (Text.hexDigit 0x41 d).toNat) = true := by
  interval_cases d <;> exact ⟨rfl, rfl⟩

theorem asciiChars_append (s t : Bytes) : asciiChars (s ++ t) = asciiChars s ++ asciiChars t := List.map_append

/-- Hexadecimal digits stand for their number. -/
theorem mapM_hexUpper (width n : Nat) :
    (∀ c ∈ asciiChars (Text.hexUpper width n), isInline c = true) ∧
    (asciiChars (Text.hexUpper width n)).length = width ∧
    ∃ digits : List Nat, (asciiChars (Text.hexUpper width n)).mapM hexValue? = some digits ∧ digits.length = width ∧
      digits.foldl (fun n d => 16 * n + d) 0 = n % 16 ^ width := by
  induction width generalizing n with
  | zero => exact ⟨by simp [Text.hexUpper, Text.hexDigits, asciiChars], rfl, [], rfl, rfl, by simp [Nat.mod_one]⟩
  | succ width ih =>
    obtain ⟨inline, length, digits, read, count, value⟩ := ih (n / 16)
    obtain ⟨last, lastInline⟩ := hexValue?_hexDigit (Nat.mod_lt n (by decide : 16 > 0))
    have split : asciiChars (Text.hexUpper (width + 1) n) =
        asciiChars (Text.hexUpper width (n / 16)) ++ [.ofNat (Text.hexDigit 0x41 (n % 16)).toNat] := by
      rw [Text.hexUpper, Text.hexDigits, asciiChars_append]
      rfl
    refine ⟨?_, by rw [split, List.length_append, length]; rfl, digits ++ [n % 16], ?_, by simp [count], ?_⟩
    · rw [split, List.forall_mem_append]
      exact ⟨inline, by simpa using lastInline⟩
    · rw [split, List.mapM_append, read]
      simp [last]
    · rw [List.foldl_append, value, List.foldl_cons, List.foldl_nil, Nat.pow_succ', Nat.mod_mul, Nat.add_comm]

/-- A code of enough hexadecimal digits is read back. -/
theorem hexChar?_hexUpper {width : Nat} {c : Char} (fits : c.toNat < 16 ^ width) (p : Place) (tail : List Char) :
    hexChar? width (p.spots (asciiChars (Text.hexUpper width c.toNat) ++ tail)) = some c := by
  obtain ⟨-, length, digits, read, count, value⟩ := mapM_hexUpper width c.toNat
  have front : ((p.spots (asciiChars (Text.hexUpper width c.toNat) ++ tail)).take width).mapM
      (fun spot => hexValue? spot.char) = some digits := by
    have chars := Place.map_char_spots p (asciiChars (Text.hexUpper width c.toNat))
    rw [Place.spots_append, List.take_left' (by rw [Place.length_spots, length]), ← read, ← chars, List.mapM_map, chars]
    rfl
  have valid : ¬((0xD800 ≤ c.toNat ∧ c.toNat ≤ 0xDFFF) ∨ 0x10FFFF < c.toNat) := by
    have := c.valid
    simp only [UInt32.isValidChar, Nat.isValidChar, Char.toNat] at this ⊢
    omega
  rw [Nat.mod_eq_of_lt fits] at value
  rw [hexChar?]
  simp [front, count, value, valid]

theorem escapeValue?_of_lookup {n : Nat} {letter : Char} (found : escapeLetters.lookup n = some letter) :
    isInline letter = true ∧ escapeValue? letter = some n := by
  have all : ∀ pair ∈ escapeLetters, isInline pair.2 = true ∧ escapeValue? pair.2 = some pair.1 := by decide
  obtain ⟨before, after, split, -⟩ := List.lookup_eq_some_iff.1 found
  exact all (n, letter) (by rw [split]; simp)

theorem inline_escapeCode (n : Nat) : ∀ d ∈ escapeCode n, isInline d = true := by
  unfold escapeCode
  split
  · exact List.forall_mem_cons.2 ⟨rfl, (mapM_hexUpper 2 n).1⟩
  · split
    · exact List.forall_mem_cons.2 ⟨rfl, (mapM_hexUpper 4 n).1⟩
    · exact List.forall_mem_cons.2 ⟨rfl, (mapM_hexUpper 8 n).1⟩

theorem inline_escaped (c : Char) : ∀ d ∈ escaped c, isInline d = true := by
  unfold escaped
  split
  · next stays =>
    simp only [Bool.and_eq_true] at stays
    simpa [isInline] using stays.1.1
  · split
    · next letter found =>
      have inline := (escapeValue?_of_lookup found).1
      simpa using ⟨rfl, inline⟩
    · exact List.forall_mem_cons.2 ⟨rfl, inline_escapeCode _⟩

theorem readDoubleQuoted_backslash (text blanks : List Char) {p : Place} (inside : 0 < p.column) {letter : Char}
    (unbroken : isLineBreak letter = false) (rest : List Char) :
    readDoubleQuoted text { blanks } (p.spots ('\\' :: letter :: rest)) =
      match escapeValue? letter, escapeLength? letter with
      | some n, _ => readDoubleQuoted (text ++ blanks ++ [.ofNat n]) {} (((p.next '\\').next letter).spots rest)
      | none, some length =>
        match hexChar? length (((p.next '\\').next letter).spots rest) with
        | some h => readDoubleQuoted (text ++ blanks ++ [h]) {} ((((p.next '\\').next letter).spots rest).drop length)
        | none => none
      | none, none => none := by
  have mark := Place.startsDocumentMark_spots inside ('\\' :: letter :: rest)
  have noBlank : isBlank '\\' = false := rfl
  have noBreak : isLineBreak '\\' = false := rfl
  have noQuote : ('\\' = '"') = False := by decide
  rw [Place.spots_cons, Place.spots_cons] at mark ⊢
  rw [readDoubleQuoted.eq_def]
  simp only [noBlank, noBreak, mark, noQuote, unbroken, Bool.false_eq_true, if_false, if_true]
  rfl

theorem readDoubleQuoted_space (text blanks : List Char) (p : Place) (tail : List Char) :
    readDoubleQuoted text { blanks } (p.spots (escaped ' ' ++ tail)) =
      readDoubleQuoted text { blanks := blanks ++ [' '] } ((p.after (escaped ' ')).spots tail) := by
  have stays : escaped ' ' = [' '] := rfl
  have blank : isBlank ' ' = true := rfl
  rw [stays, List.singleton_append, Place.spots_cons, readDoubleQuoted.eq_def]
  simp only [blank, if_true]
  rfl

/-- A code with enough digits stands for its character. -/
theorem readDoubleQuoted_code (c : Char) (text blanks : List Char) {p : Place} (inside : 0 < p.column)
    (tail : List Char) :
    readDoubleQuoted text { blanks } (p.spots ('\\' :: escapeCode c.toNat ++ tail)) =
      readDoubleQuoted (text ++ blanks ++ [c]) {} ((p.after ('\\' :: escapeCode c.toNat)).spots tail) := by
  have coded (letter : Char) (width : Nat) (noValue : escapeValue? letter = none)
      (hasLength : escapeLength? letter = some width) (unbroken : isLineBreak letter = false)
      (fits : c.toNat < 16 ^ width) :
      readDoubleQuoted text { blanks }
          (p.spots ('\\' :: letter :: (asciiChars (Text.hexUpper width c.toNat) ++ tail))) =
        readDoubleQuoted (text ++ blanks ++ [c]) {}
          ((p.after ('\\' :: letter :: asciiChars (Text.hexUpper width c.toNat))).spots tail) := by
    have length := (mapM_hexUpper width c.toNat).2.1
    rw [readDoubleQuoted_backslash text blanks inside unbroken, noValue, hasLength]
    simp only [hexChar?_hexUpper fits]
    rw [Place.spots_append, List.drop_left' (by rw [Place.length_spots, length])]
    rfl
  have bound : c.toNat < 16 ^ 8 := by
    have := c.valid
    simp only [UInt32.isValidChar, Nat.isValidChar, Char.toNat] at this ⊢
    omega
  unfold escapeCode
  split
  · exact coded 'x' 2 rfl rfl rfl (by omega)
  · split
    · exact coded 'u' 4 rfl rfl rfl (by omega)
    · exact coded 'U' 8 rfl rfl rfl bound

theorem readDoubleQuoted_char {c : Char} (solid : c ≠ ' ') (text blanks : List Char) {p : Place}
    (inside : 0 < p.column) (tail : List Char) :
    readDoubleQuoted text { blanks } (p.spots (escaped c ++ tail)) =
      readDoubleQuoted (text ++ blanks ++ [c]) {} ((p.after (escaped c)).spots tail) := by
  unfold escaped
  split
  · next stays =>
    simp only [Bool.and_eq_true, Bool.not_eq_true', decide_eq_true_eq] at stays
    obtain ⟨⟨⟨printable, noBreak⟩, noQuote⟩, noBackslash⟩ := stays
    have noTab : c ≠ '\t' := by
      rintro rfl
      cases printable
    have noBlank : isBlank c = false := isBlank_eq_false.2 ⟨solid, noTab⟩
    have mark := Place.startsDocumentMark_spots inside (c :: tail)
    rw [List.singleton_append]
    rw [Place.spots_cons] at mark ⊢
    rw [readDoubleQuoted.eq_def]
    simp only [noBlank, noBreak, mark, noQuote, noBackslash, Bool.false_eq_true, if_false]
    rfl
  · split
    · next letter found =>
      obtain ⟨inline, value⟩ := escapeValue?_of_lookup found
      rw [List.cons_append, List.singleton_append,
        readDoubleQuoted_backslash text blanks inside (isLineBreak_of_isInline inline), value]
      simp only [Char.ofNat_toNat]
      rfl
    · exact readDoubleQuoted_code c text blanks inside tail

/-- The text between double quotes is read back; blanks wait for what comes next. -/
theorem readDoubleQuoted_escaped (cs text blanks rest : List Char) {p : Place} (inside : 0 < p.column) :
    ∃ q : Place, readDoubleQuoted text { blanks } (p.spots (cs.flatMap escaped ++ '"' :: rest)) =
      some ⟨text ++ blanks ++ cs, q.spots rest, false⟩ := by
  induction cs generalizing text blanks p with
  | nil =>
    have mark := Place.startsDocumentMark_spots inside ('"' :: rest)
    have noBlank : isBlank '"' = false := rfl
    have noBreak : isLineBreak '"' = false := rfl
    refine ⟨p.next '"', ?_⟩
    rw [List.flatMap_nil, List.nil_append]
    rw [Place.spots_cons] at mark ⊢
    rw [readDoubleQuoted.eq_def]
    simp only [noBlank, noBreak, mark, Bool.false_eq_true, if_false, if_true, List.append_nil]
    rfl
  | cons c cs ih =>
    have inside' : 0 < (p.after (escaped c)).column := by
      rw [Place.after_eq fun d member => isLineBreak_of_isInline (inline_escaped c d member)]
      exact Nat.lt_of_lt_of_le inside (Nat.le_add_right _ _)
    rw [List.flatMap_cons, List.append_assoc]
    by_cases space : c = ' '
    · subst space
      obtain ⟨q, read⟩ := ih text (blanks ++ [' ']) inside'
      exact ⟨q, by rw [readDoubleQuoted_space, read]; simp⟩
    · obtain ⟨q, read⟩ := ih (text ++ blanks ++ [c]) [] inside'
      exact ⟨q, by rw [readDoubleQuoted_char space text blanks inside, read]; simp⟩

/-! ## Literal blocks -/

section Literal

variable {indent k : Nat} {c b : Char} {line brs tail : List Char} {p : Place}

/-- The longest start of a text whose characters have a property. -/
theorem span_spots {f : Char → Bool} {front : List Char} (within : ∀ c ∈ front, f c = true) (ends : f b = false)
    (p : Place) (more : List Char) :
    (p.spots (front ++ b :: more)).span (fun s => f s.char) = (p.spots front, (p.after front).spots (b :: more)) := by
  simp only [List.span_eq_takeWhile_dropWhile]
  induction front generalizing p with
  | nil => simp [Place.spots_cons, Place.after, ends]
  | cons c front ih =>
    obtain ⟨here, within⟩ := List.forall_mem_cons.1 within
    have rest := Prod.mk.inj (ih within (p.next c))
    simp only [List.cons_append, Place.spots_cons p, List.takeWhile_cons, List.dropWhile_cons, here, if_true, rest.1,
      rest.2]
    rfl

/-- The first line gives the indentation of a block. -/
theorem skipBlockGap_first (noBlank : isBlank c = false) (noBreak : isLineBreak c = false) (breaks : List Char)
    (widest n : Nat) (p : Place) (rest : List Char) :
    skipBlockGap 0 breaks widest (p.spots (spaces n ++ c :: rest)) =
      some ⟨breaks, max widest (p.column + n), (p.after (spaces n)).spots (c :: rest)⟩ := by
  obtain ⟨noSpace, noTab⟩ := isBlank_eq_false.1 noBlank
  induction n generalizing p widest with
  | zero =>
    simp only [spaces, List.replicate_zero, List.nil_append, Place.spots_cons, skipBlockGap, noSpace, noTab, noBreak]
    rfl
  | succ n ih =>
    rw [spaces_succ, List.cons_append, Place.spots_cons, skipBlockGap]
    simp only [decide_true, Bool.true_or, Bool.true_and, if_true]
    rw [ih, Place.column_next isLineBreak_space]
    congr 2
    omega

/-- Indentation is passed over up to that of the block. -/
theorem skipBlockGap_spaces {indent n : Nat} (inside : p.column + n ≤ indent) (breaks : List Char) (widest : Nat)
    (rest : List Char) :
    ∃ widest', skipBlockGap indent breaks widest (p.spots (spaces n ++ rest)) =
      skipBlockGap indent breaks widest' ((p.after (spaces n)).spots rest) := by
  induction n generalizing p widest with
  | zero => exact ⟨widest, rfl⟩
  | succ n ih =>
    have here : p.column < indent := by omega
    have inside' : (p.next ' ').column + n ≤ indent := by rw [Place.column_next isLineBreak_space]; omega
    obtain ⟨widest', skipped⟩ := ih inside' (max widest (p.column + 1))
    refine ⟨widest', ?_⟩
    rw [spaces_succ, List.cons_append, Place.spots_cons, skipBlockGap]
    simp only [here, decide_true, Bool.or_true, Bool.true_and, if_true]
    exact skipped

theorem skipBlockGap_breaks (allBreaks : ∀ c ∈ brs, isLineBreak c = true) (indent : Nat) (breaks : List Char)
    (widest : Nat) (p : Place) (rest : List Char) :
    skipBlockGap indent breaks widest (p.spots (brs ++ rest)) =
      skipBlockGap indent (breaks ++ brs) widest ((p.after brs).spots rest) := by
  induction brs generalizing p breaks with
  | nil => simp [Place.after]
  | cons b brs ih =>
    obtain ⟨here, allBreaks⟩ := List.forall_mem_cons.1 allBreaks
    obtain ⟨noSpace, noTab⟩ := isBlank_eq_false.1 (isBlank_of_isLineBreak here)
    rw [List.cons_append, Place.spots_cons, skipBlockGap]
    simp only [noSpace, noTab, here, decide_false, Bool.and_false, Bool.false_eq_true, if_false, if_true]
    rw [ih allBreaks, List.append_assoc]
    rfl

/-- A line of the block starts where its indentation ends, whatever its first character is. -/
theorem skipBlockGap_line (indented : 0 < indent) (here : p.column = indent) (noBreak : isLineBreak c = false)
    (breaks : List Char) (widest : Nat) (rest : List Char) :
    ∃ widest',
      skipBlockGap indent breaks widest (p.spots (c :: rest)) = some ⟨breaks, widest', p.spots (c :: rest)⟩ := by
  have inside : (decide (indent = 0) || decide (p.column < indent)) = false := by
    rw [Bool.or_eq_false_iff, decide_eq_false_iff_not, decide_eq_false_iff_not]
    omega
  refine ⟨max widest p.column, ?_⟩
  rw [Place.spots_cons, skipBlockGap]
  simp only [inside, noBreak, Bool.false_and, Bool.false_eq_true, if_false]

/-- Behind the block its gap ends at the next line or with the text. -/
theorem skipBlockGap_follows (follows : Follows k tail) (inside : p.column + k < indent) (breaks : List Char)
    (widest : Nat) :
    ∃ widest', skipBlockGap indent breaks widest (p.spots (spaces k ++ tail)) =
      some ⟨breaks, widest', (p.after (spaces k)).spots tail⟩ := by
  obtain ⟨widest', skipped⟩ := skipBlockGap_spaces (Nat.le_of_lt inside) breaks widest tail
  rw [skipped]
  cases tail with
  | nil => exact ⟨widest', rfl⟩
  | cons c tail =>
    obtain ⟨noBlank, noBreak, -, -⟩ := isSolid_iff.1 (follows.solid c rfl)
    obtain ⟨noSpace, noTab⟩ := isBlank_eq_false.1 noBlank
    refine ⟨max widest' (p.after (spaces k)).column, ?_⟩
    rw [Place.spots_cons, skipBlockGap]
    simp only [noSpace, noTab, noBreak, decide_false, Bool.and_false, Bool.false_eq_true, if_false]

theorem line_literalBody (unbroken : ∀ c ∈ line, isLineBreak c = false) (indent : Nat) (rest : List Char) :
    (literalBody indent true false (line ++ rest)).line = line ++ (literalBody indent true false rest).line := by
  induction line with
  | nil => rfl
  | cons c line ih =>
    obtain ⟨here, unbroken⟩ := List.forall_mem_cons.1 unbroken
    have tail := ih unbroken
    rw [List.cons_append, literalBody, here, List.cons_append, ← tail]
    simp only [Bool.false_eq_true, if_false, List.nil_append, Written.line]
    split <;> rfl

theorem line_literalBody_breaks (allBreaks : ∀ c ∈ brs, isLineBreak c = true) (indent : Nat) (rest : List Char) :
    (literalBody indent false true (brs ++ rest)).line = brs ++ (literalBody indent false true rest).line := by
  induction brs with
  | nil => rfl
  | cons b brs ih =>
    obtain ⟨here, allBreaks⟩ := List.forall_mem_cons.1 allBreaks
    have tail := ih allBreaks
    rw [List.cons_append, literalBody, here, List.cons_append, ← tail]
    simp only [if_true, Written.line]
    split <;> rfl

/-- The line break behind a line that is not the last. -/
theorem line_literalBody_break (isBreak : isLineBreak b = true) (indent : Nat) (rest : List Char) :
    (literalBody indent true false (b :: rest)).line = b :: (literalBody indent false true rest).line := by
  rw [literalBody, isBreak]
  simp only [if_true, Written.line]
  split <;> rfl

/-- A line behind the first is indented. -/
theorem line_literalBody_start (noBreak : isLineBreak c = false) (indent : Nat) (rest : List Char) :
    (literalBody indent false true (c :: rest)).line =
      spaces indent ++ (literalBody indent true false (c :: rest)).line := by
  rw [literalBody, literalBody, noBreak]
  simp only [Bool.false_eq_true, if_false, if_true, List.nil_append, Written.line]
  split <;> simp

/-- The parts of a literal block: the text up to its last character that is no line break, and the line breaks behind
it.  A block without any gets one. -/
structure BlockParts (cs body pending breaks : List Char) : Prop where
  last : ∃ c ∈ body.getLast?, isLineBreak c = false
  whole : cs = body ∨ cs = body ++ pending ++ breaks
  pending : ∃ b, pending = [b] ∧ isLineBreak b = true
  breaks : ∀ b ∈ breaks, isLineBreak b = true

theorem BlockParts.prepend {cs body pending breaks : List Char} (parts : BlockParts cs body pending breaks)
    (front : List Char) : BlockParts (front ++ cs) (front ++ body) pending breaks where
  last := by
    obtain ⟨c, last, noBreak⟩ := parts.last
    exact ⟨c, List.mem_getLast?_append_of_mem_getLast? last, noBreak⟩
  whole := by
    refine parts.whole.imp (congrArg (front ++ ·)) fun whole => ?_
    rw [whole, List.append_assoc, List.append_assoc, List.append_assoc]
  pending := parts.pending
  breaks := parts.breaks

/-- Reading stops at a line that is indented less. -/
theorem readBlockLines_stop (outside : p.column ≠ indent) (isLiteral : Bool) (text pending breaks : List Char)
    (afterBlank : Bool) (tail : List Char) (fuel : Nat) :
    readBlockLines isLiteral indent text pending breaks afterBlank (p.spots tail) fuel =
      some (text, pending, breaks, p.spots tail) := by
  cases fuel with
  | zero => rfl
  | succ fuel =>
    cases tail with
    | nil => rfl
    | cons c tail =>
      rw [Place.spots_cons, readBlockLines]
      exact if_pos outside

/-- One line of a literal block and the gap behind it. -/
theorem readBlockLines_line {p q : Place} (here : p.column = indent)
    (unbroken : ∀ d ∈ c :: line, isLineBreak d = false) (isBreak : isLineBreak b = true) {more brs rest : List Char}
    {widest : Nat}
    (gap : skipBlockGap indent [] 0 (((p.after (c :: line)).next b).spots more) = some ⟨brs, widest, q.spots rest⟩)
    (text pending breaks : List Char) (afterBlank : Bool) (fuel : Nat) :
    readBlockLines true indent text pending breaks afterBlank (p.spots (c :: line ++ b :: more)) (fuel + 1) =
      readBlockLines true indent (text ++ pending ++ breaks ++ c :: line) [b] brs (isBlank c) (q.spots rest) fuel := by
  subst here
  have within : ∀ d ∈ c :: line, (!isLineBreak d) = true := fun d member => by rw [unbroken d member]; rfl
  have cut := span_spots within (by rw [isBreak]; rfl) p more
  rw [List.cons_append, Place.spots_cons] at cut ⊢
  rw [readBlockLines]
  simp only [ne_eq, not_true_eq_false, if_false, cut, Place.spots_cons _ b, Place.map_char_spots, gap,
    Bool.not_true, Bool.false_and, Bool.false_eq_true]

/-- The first line of a text, its break with those behind it, and the lines that follow. -/
theorem exists_firstLine {cs : List Char} (first : ∃ c ∈ cs.head?, isLineBreak c = false) :
    ∃ c line, (∀ d ∈ c :: line, isLineBreak d = false) ∧
      (cs = c :: line ∨ ∃ b brs rest, isLineBreak b = true ∧ (∀ d ∈ brs, isLineBreak d = true) ∧
        (∀ d ∈ rest.head?, isLineBreak d = false) ∧ cs = c :: line ++ b :: (brs ++ rest)) := by
  obtain ⟨c, head, noBreak⟩ := first
  obtain ⟨cs, rfl⟩ := List.head?_eq_some_iff.1 head
  have cut := List.takeWhile_append_dropWhile (p := fun d => !isLineBreak d) (l := cs)
  refine ⟨c, cs.takeWhile fun d => !isLineBreak d, ?_, ?_⟩
  · rintro d (_ | ⟨_, member⟩)
    · exact noBreak
    · simpa using List.mem_takeWhile_imp member
  · cases ends : cs.dropWhile fun d => !isLineBreak d with
    | nil =>
      rw [ends, List.append_nil] at cut
      exact Or.inl (by rw [cut])
    | cons b more =>
      have isBreak : isLineBreak b = true := by
        have stop := List.head?_dropWhile_not (fun d => !isLineBreak d) cs
        rw [ends] at stop
        simpa using stop
      refine Or.inr ⟨b, more.takeWhile isLineBreak, more.dropWhile isLineBreak, isBreak,
        fun d member => List.mem_takeWhile_imp member, ?_, ?_⟩
      · intro d member
        have stop := List.head?_dropWhile_not isLineBreak more
        rw [Option.mem_def.1 member] at stop
        simpa using stop
      · rw [List.takeWhile_append_dropWhile, List.cons_append, ← ends, cut]

/-- The last line of a literal block, its line break and those behind it. -/
theorem readBlockLines_lastLine (follows : Follows k tail) (outside : k < indent) (here : p.column = indent)
    (unbroken : ∀ d ∈ c :: line, isLineBreak d = false) (isBreak : isLineBreak b = true)
    (allBreaks : ∀ d ∈ brs, isLineBreak d = true) (text pending breaks : List Char) (afterBlank : Bool) (fuel : Nat) :
    ∃ q, q.column = k ∧
      readBlockLines true indent text pending breaks afterBlank
          (p.spots (c :: line ++ b :: (brs ++ (spaces k ++ tail)))) (fuel + 1) =
        some (text ++ pending ++ breaks ++ c :: line, [b], brs, Place.spots q tail) := by
  have start : (((p.after (c :: line)).next b).after brs).column = 0 :=
    Place.column_after_breaks allBreaks (Place.column_next_break isBreak _)
  have behind : ((((p.after (c :: line)).next b).after brs).after (spaces k)).column = k := by
    rw [Place.column_after_spaces, start, Nat.zero_add]
  have skipped := skipBlockGap_breaks allBreaks indent [] 0 ((p.after (c :: line)).next b) (spaces k ++ tail)
  have less : (((p.after (c :: line)).next b).after brs).column + k < indent := by omega
  obtain ⟨_, gap⟩ := skipBlockGap_follows follows less brs 0
  exact ⟨_, behind, (readBlockLines_line here unbroken isBreak (skipped.trans gap) _ _ _ _ _).trans
    (readBlockLines_stop (by omega) _ _ _ _ _ _ _)⟩

/-- A line of a literal block in front of another one. -/
theorem readBlockLines_innerLine (indented : 0 < indent) (here : p.column = indent)
    (unbroken : ∀ d ∈ c :: line, isLineBreak d = false) (isBreak : isLineBreak b = true)
    (allBreaks : ∀ d ∈ brs, isLineBreak d = true) {d : Char} (noBreak : isLineBreak d = false)
    (rest text pending breaks : List Char) (afterBlank : Bool) (fuel : Nat) :
    ∃ q, q.column = indent ∧
      readBlockLines true indent text pending breaks afterBlank
          (p.spots (c :: line ++ b :: (brs ++ (spaces indent ++ d :: rest)))) (fuel + 1) =
        readBlockLines true indent (text ++ pending ++ breaks ++ c :: line) [b] brs (isBlank c)
          (Place.spots q (d :: rest)) fuel := by
  have start : (((p.after (c :: line)).next b).after brs).column = 0 :=
    Place.column_after_breaks allBreaks (Place.column_next_break isBreak _)
  have behind : ((((p.after (c :: line)).next b).after brs).after (spaces indent)).column = indent := by
    rw [Place.column_after_spaces, start, Nat.zero_add]
  have skipped := skipBlockGap_breaks allBreaks indent [] 0 ((p.after (c :: line)).next b)
    (spaces indent ++ d :: rest)
  have upTo : (((p.after (c :: line)).next b).after brs).column + indent ≤ indent := by omega
  obtain ⟨_, passed⟩ := skipBlockGap_spaces upTo brs 0 (d :: rest)
  obtain ⟨_, stopped⟩ := skipBlockGap_line indented behind noBreak brs _ rest
  exact ⟨_, behind, readBlockLines_line here unbroken isBreak (skipped.trans (passed.trans stopped)) _ _ _ _ _⟩

/-- A literal block is read line by line, up to a line that is indented less or the end of the text. -/
theorem readBlockLines_literal (follows : Follows k tail) (outside : k < indent) (n : Nat) {cs : List Char}
    (size : cs.length ≤ n) (first : ∃ c ∈ cs.head?, isLineBreak c = false) (text pending breaks : List Char)
    (afterBlank : Bool) (here : p.column = indent) {fuel : Nat} (enough : cs.length < fuel) :
    ∃ body pending' breaks' q, BlockParts cs body pending' breaks' ∧ q.column = k ∧
      readBlockLines true indent text pending breaks afterBlank
          (p.spots ((literalBody indent true false cs).line ++ (spaces k ++ tail))) fuel =
        some (text ++ pending ++ breaks ++ body, pending', breaks', Place.spots q tail) := by
  -- on the length of the text, of which each step takes a line
  induction n generalizing cs text pending breaks afterBlank p fuel with
  | zero =>
    obtain ⟨c, head, -⟩ := first
    rw [List.length_eq_zero_iff.1 (Nat.le_zero.1 size)] at head
    cases head
  | succ n ih =>
    obtain ⟨fuel, rfl⟩ : ∃ fuel', fuel = fuel' + 1 := ⟨fuel - 1, by omega⟩
    obtain ⟨c, line, unbroken, split⟩ := exists_firstLine first
    have last : ∃ d ∈ (c :: line).getLast?, isLineBreak d = false :=
      ⟨_, List.getLast?_eq_some_getLast (List.cons_ne_nil c line), unbroken _ (List.getLast_mem _)⟩
    rcases split with rfl | ⟨b, brs, rest, isBreak, allBreaks, solid, rfl⟩
    · -- the text ends without a break, and its line gets one
      have none : ∀ d ∈ ([] : List Char), isLineBreak d = true := by simp
      obtain ⟨q, column, read⟩ := readBlockLines_lastLine follows outside here unbroken (b := '\n') rfl none text
        pending breaks afterBlank fuel
      refine ⟨c :: line, ['\n'], [], q, ⟨last, Or.inl rfl, ⟨'\n', rfl, rfl⟩, by simp⟩, column, ?_⟩
      have written := line_literalBody unbroken indent []
      rw [List.append_nil] at written
      rw [written, List.append_assoc]
      exact read
    · have written : (literalBody indent true false (c :: line ++ b :: (brs ++ rest))).line =
          c :: line ++ b :: (brs ++ (literalBody indent false true rest).line) := by
        rw [line_literalBody unbroken, line_literalBody_break isBreak, line_literalBody_breaks allBreaks]
      cases rest with
      | nil =>
        obtain ⟨q, column, read⟩ := readBlockLines_lastLine follows outside here unbroken isBreak allBreaks text
          pending breaks afterBlank fuel
        refine ⟨c :: line, [b], brs, q, ⟨last, Or.inr (by simp), ⟨b, rfl, isBreak⟩, allBreaks⟩, column, ?_⟩
        have joined : (literalBody indent true false (c :: line ++ b :: (brs ++ []))).line ++ (spaces k ++ tail) =
            c :: line ++ b :: (brs ++ (spaces k ++ tail)) := by
          rw [written]
          simp [literalBody, Written.line]
        rw [joined, read]
      | cons d rest =>
        have noBreak := solid d rfl
        have indented : 0 < indent := by omega
        obtain ⟨q, behind, read⟩ := readBlockLines_innerLine indented here unbroken isBreak allBreaks noBreak
          ((literalBody indent true false rest).line ++ (spaces k ++ tail)) text pending breaks afterBlank fuel
        have shorter : (d :: rest).length ≤ n := by simp at size ⊢; omega
        have enough' : (d :: rest).length < fuel := by simp at enough ⊢; omega
        obtain ⟨body, pending', breaks', q', parts, column, continued⟩ := ih shorter ⟨d, rfl, noBreak⟩
          (text ++ pending ++ breaks ++ c :: line) [b] brs (isBlank c) behind enough'
        refine ⟨c :: line ++ b :: brs ++ body, pending', breaks', q', ?_, column, ?_⟩
        · have joined := parts.prepend (c :: line ++ b :: brs)
          rwa [List.append_assoc, List.cons_append] at joined
        · have first : (literalBody indent true false (d :: rest)).line =
              d :: (literalBody indent true false rest).line :=
            line_literalBody (List.forall_mem_singleton.2 noBreak) indent rest
          have joined : (literalBody indent true false (c :: line ++ b :: (brs ++ d :: rest))).line ++
              (spaces k ++ tail) = c :: line ++ b :: (brs ++ (spaces indent ++
                d :: ((literalBody indent true false rest).line ++ (spaces k ++ tail)))) := by
            rw [written, line_literalBody_start noBreak, first]
            simp only [List.append_assoc, List.cons_append]
          rw [first, List.cons_append] at continued
          rw [joined, read, continued]
          simp

/-- The mark for the end of a block tells which of the line breaks behind it are part of the text. -/
theorem BlockParts.literalEnd_cases {cs body pending breaks : List Char} (parts : BlockParts cs body pending breaks) :
    (literalEnd cs = ['-'] ∧ body = cs) ∨ (literalEnd cs = [] ∧ body ++ pending = cs) ∨
      (literalEnd cs = ['+'] ∧ body ++ (pending ++ breaks) = cs) := by
  obtain ⟨c, last, noBreak⟩ := parts.last
  obtain ⟨front, rfl⟩ := List.getLast?_eq_some_iff.1 last
  obtain ⟨b, rfl, isBreak⟩ := parts.pending
  rcases parts.whole with rfl | rfl
  · exact Or.inl ⟨by simp [literalEnd, noBreak], rfl⟩
  · rcases List.eq_nil_or_concat breaks with rfl | ⟨brs, d, rfl⟩
    · exact Or.inr (Or.inl ⟨by simp [literalEnd, isBreak, noBreak], by simp⟩)
    · refine Or.inr (Or.inr ⟨?_, by simp⟩)
      have lastBreak : isLineBreak d = true := parts.breaks d (by simp)
      rcases List.eq_nil_or_concat brs with rfl | ⟨brs, e, rfl⟩
      · simp [literalEnd, lastBreak, isBreak]
      · have lastButOne : isLineBreak e = true := parts.breaks e (by simp)
        simp [literalEnd, lastBreak, lastButOne]

theorem literalEnd_mem (cs : List Char) : literalEnd cs ∈ [['-'], [], ['+']] := by
  rw [literalEnd]
  split
  · decide
  · split_ifs <;> decide

/-- The mark for the end of a literal block is read back, and gives the text from its parts. -/
theorem readBlockMarks_literalEnd (cs : List Char) (p : Place) (rest : List Char) :
    ∃ chomping q, readBlockMarks (p.spots (literalEnd cs ++ '\n' :: rest)) =
        some (chomping, 0, Place.spots q ('\n' :: rest)) ∧
      ∀ body pending breaks, BlockParts cs body pending breaks → body ++ chomping.kept pending breaks = cs := by
  have ends := literalEnd_mem cs
  simp only [List.mem_cons, List.not_mem_nil, or_false] at ends
  rcases ends with mark | mark | mark
  · refine ⟨.strip, p.next '-', ?_, fun body pending breaks parts => ?_⟩
    · simp [mark, readBlockMarks, startsWith, Place.spots_cons, peek?]
    · have cases := parts.literalEnd_cases
      simpa [mark, Chomping.kept] using cases
  · refine ⟨.clip, p, ?_, fun body pending breaks parts => ?_⟩
    · simp [mark, readBlockMarks, startsWith, Place.spots_cons, peek?]
    · have cases := parts.literalEnd_cases
      simpa [mark, Chomping.kept] using cases
  · refine ⟨.keep, p.next '+', ?_, fun body pending breaks parts => ?_⟩
    · simp [mark, readBlockMarks, startsWith, Place.spots_cons, peek?]
    · have cases := parts.literalEnd_cases
      simpa [mark, Chomping.kept] using cases

theorem skipLineEnd_break (p : Place) (rest : List Char) :
    skipLineEnd (p.spots ('\n' :: rest)) = some ((p.next '\n').spots rest) := by
  simp [skipLineEnd, Place.spots_cons, isBlank, startsWith, peek?, isLineBreak]

/-- The text of a literal block behind the mark it starts with. -/
def literalTail (indent : Nat) (cs : List Char) : List Char :=
  literalEnd cs ++ '\n' :: (spaces indent ++ (literalBody indent true false cs).line)

theorem line_writeLiteral (noBlank : isBlank c = false) (noBreak : isLineBreak c = false) (indent : Nat)
    (cs : List Char) : (writeLiteral indent (c :: cs)).line = '|' :: literalTail indent (c :: cs) := by
  obtain ⟨noSpace, -⟩ := isBlank_eq_false.1 noBlank
  simp [writeLiteral, literalTail, literalHeader, literalBody, Written.line, noSpace, noBreak]
  split <;> simp

theorem length_literalBody (indent : Nat) (lineOpen afterBreak : Bool) (cs : List Char) :
    cs.length ≤ (literalBody indent lineOpen afterBreak cs).line.length := by
  have written : cs.length ≤ (literalBody indent lineOpen afterBreak cs).text.length := by
    induction cs generalizing lineOpen afterBreak with
    | nil => exact Nat.zero_le _
    | cons c cs ih =>
      rw [literalBody]
      split
      · exact Nat.succ_le_succ (ih false true)
      · have rest := ih true false
        simp only [List.length_append, List.length_cons]
        omega
  rw [Written.line]
  split
  · exact written
  · rw [List.length_append]
    omega

/-- The lines of a literal block are found from the indentation of the first. -/
theorem readBlockScalar_lines (follows : Follows k tail) (outside : k < indent) {outer : Int}
    (deeper : outer < indent) (noBlank : isBlank c = false) (noBreak : isLineBreak c = false) {cs : List Char}
    {chomping : Chomping} {s : List Spot} (marks : readBlockMarks s = some (chomping, 0, p.spots ('\n' ::
      (spaces indent ++ ((literalBody indent true false (c :: cs)).line ++ (spaces k ++ tail)))))) :
    ∃ body pending breaks q, BlockParts (c :: cs) body pending breaks ∧ q.column = k ∧
      readBlockScalar true outer s = some ⟨body ++ chomping.kept pending breaks, Place.spots q tail, true⟩ := by
  have first : (literalBody indent true false (c :: cs)).line = c :: (literalBody indent true false cs).line :=
    line_literalBody (List.forall_mem_singleton.2 noBreak) indent cs
  have start : (p.next '\n').column = 0 := Place.column_next_break rfl p
  have here : ((p.next '\n').after (spaces indent)).column = indent := by
    rw [Place.column_after_spaces, start, Nat.zero_add]
  have enough : (c :: cs).length <
      ((literalBody indent true false (c :: cs)).line ++ (spaces k ++ tail)).length + 1 := by
    have size := length_literalBody indent true false (c :: cs)
    rw [List.length_append]
    omega
  have found : max (max 0 ((p.next '\n').column + indent)) (max (outer + 1) 1).toNat = indent := by omega
  obtain ⟨body, pending, breaks, q, parts, column, lines⟩ :=
    readBlockLines_literal follows outside _ (Nat.le_refl _) ⟨c, rfl, noBreak⟩ [] [] [] false here enough
  refine ⟨body, pending, breaks, q, parts, column, ?_⟩
  rw [first] at marks lines
  have gap := skipBlockGap_first noBlank noBreak [] 0 indent (p.next '\n')
    ((literalBody indent true false cs).line ++ (spaces k ++ tail))
  rw [readBlockScalar, marks]
  simp only [Option.bind_eq_bind, Option.bind_some, skipLineEnd_break, if_true, List.cons_append] at gap ⊢
  rw [gap]
  simp only [Option.bind_some, found, Place.length_spots]
  rw [← List.cons_append, lines]
  rfl

/-- A literal block is read back if it starts with neither a blank nor a line break. -/
theorem readBlockScalar_literal (follows : Follows k tail) (outside : k < indent) {outer : Int}
    (deeper : outer < indent) (noBlank : isBlank c = false) (noBreak : isLineBreak c = false) (cs : List Char)
    (p : Place) :
    ∃ q, q.column = k ∧ readBlockScalar true outer (p.spots (literalTail indent (c :: cs) ++ (spaces k ++ tail))) =
      some ⟨c :: cs, Place.spots q tail, true⟩ := by
  have written : literalTail indent (c :: cs) ++ (spaces k ++ tail) = literalEnd (c :: cs) ++ '\n' ::
      (spaces indent ++ ((literalBody indent true false (c :: cs)).line ++ (spaces k ++ tail))) := by
    simp only [literalTail, List.append_assoc, List.cons_append]
  obtain ⟨chomping, _, marks, whole⟩ := readBlockMarks_literalEnd (c :: cs) p
    (spaces indent ++ ((literalBody indent true false (c :: cs)).line ++ (spaces k ++ tail)))
  obtain ⟨body, pending, breaks, q, parts, column, read⟩ :=
    readBlockScalar_lines follows outside deeper noBlank noBreak marks
  exact ⟨q, column, by rw [written, read, whole _ _ _ parts]⟩

end Literal

end JvmCoupling.Yaml
