import JvmCoupling.Storage.Tree
import Mathlib.Tactic.SplitIfs

/-! # Paths by their elements

A path is text, and joining a name to a directory cleans the result.  For a name that can stand in a
directory this has no effect on the name itself: it is the last element of the joined path.

* `Bytes.piecesBy_append_cons` — a separator cuts a text in two;
* `Bytes.Segment`, `Bytes.exists_segment_of_mem_piecesBy` — a piece is what stands between two separators;
* `Path.isElement` — a name that can stand in a directory;
* `Path.join_ends`, `Path.base_join`, `Path.base_ofElements_concat` — the last element of a path is the name at its end;
* `Path.join_join` — below a joined path nothing is left to clean;
* `Tree.stat_of_linkStat` — following the last link makes a difference for links only.
-/

namespace JvmCoupling

/-! ## Pieces between separators -/

namespace Bytes

variable {isSep : UInt8 → Bool}

theorem piecesBy_ne_nil (isSep : UInt8 → Bool) (s : Bytes) : piecesBy isSep s ≠ [] := by
  cases s with
  | nil => simp [piecesBy]
  | cons b s =>
    rw [piecesBy]
    split
    · simp
    · split <;> simp

/-- The pieces of a text are those in front of a separator and those behind it. -/
theorem piecesBy_append_cons {b : UInt8} (separator : isSep b = true) (front back : Bytes) :
    piecesBy isSep (front ++ b :: back) = piecesBy isSep front ++ piecesBy isSep back := by
  induction front with
  | nil => simp [piecesBy, separator]
  | cons x front ih =>
    obtain ⟨piece, pieces, shape⟩ := List.exists_cons_of_ne_nil (piecesBy_ne_nil isSep front)
    rw [List.cons_append, piecesBy, piecesBy, ih, shape]
    by_cases cut : isSep x = true
    · simp [cut]
    · simp [cut]

theorem piecesBy_eq_singleton {s : Bytes} (uncut : ∀ b ∈ s, isSep b = false) : piecesBy isSep s = [s] := by
  induction s with
  | nil => rfl
  | cons b s ih =>
    rw [piecesBy, uncut b List.mem_cons_self, ih fun x member => uncut x (List.mem_cons_of_mem b member)]
    simp

theorem fieldsBy_append_cons {b : UInt8} (separator : isSep b = true) (front back : Bytes) :
    fieldsBy isSep (front ++ b :: back) = fieldsBy isSep front ++ fieldsBy isSep back := by
  simp only [fieldsBy, piecesBy_append_cons separator, List.filter_append]

theorem fieldsBy_eq_singleton {s : Bytes} (uncut : ∀ b ∈ s, isSep b = false) (nonempty : s ≠ []) :
    fieldsBy isSep s = [s] := by
  simp [fieldsBy, piecesBy_eq_singleton uncut, nonempty]

/-! ## Segments -/

section Segments

variable {front segment back s : Bytes}

/-- A segment of the text `front ++ segment ++ back`: it holds no separator, and there is one on either side of it
unless the text ends there. -/
structure Segment (isSep : UInt8 → Bool) (front segment back : Bytes) : Prop where
  uncut : ∀ b ∈ segment, isSep b = false
  before : ∀ b ∈ front.getLast?, isSep b = true
  after : ∀ b ∈ back.head?, isSep b = true

/-- Every text is its first segment, alone or with a separator and another text after it. -/
theorem exists_segment_append (isSep : UInt8 → Bool) (s : Bytes) :
    ∃ segment, (∀ b ∈ segment, isSep b = false) ∧
      (s = segment ∨ ∃ b rest, isSep b = true ∧ s = segment ++ b :: rest) := by
  induction s with
  | nil => exact ⟨[], by simp, .inl rfl⟩
  | cons b s ih =>
    cases separator : isSep b with
    | true => exact ⟨[], by simp, .inr ⟨b, s, separator, rfl⟩⟩
    | false =>
      obtain ⟨segment, uncut, others⟩ := ih
      refine ⟨b :: segment, List.forall_mem_cons.mpr ⟨separator, uncut⟩, ?_⟩
      simpa using others

theorem exists_segment_of_mem_piecesBy (member : segment ∈ piecesBy isSep s) :
    ∃ front back, s = front ++ segment ++ back ∧ Segment isSep front segment back := by
  induction length : s.length using Nat.strongRecOn generalizing s with
  | ind n ih =>
    subst length
    obtain ⟨first, uncut, rfl | ⟨b, rest, cut, rfl⟩⟩ := exists_segment_append isSep s
    · obtain rfl : segment = s := by simpa [piecesBy_eq_singleton uncut] using member
      exact ⟨[], [], by simp, uncut, by simp, by simp⟩
    · rw [piecesBy_append_cons cut, piecesBy_eq_singleton uncut, List.singleton_append] at member
      rcases List.mem_cons.mp member with rfl | member
      · exact ⟨[], b :: rest, by simp, uncut, by simp, by simpa using cut⟩
      · obtain ⟨front, back, rfl, segment⟩ := ih rest.length (by simp; omega) member rfl
        refine ⟨first ++ b :: front, back, by simp, segment.uncut, ?_, segment.after⟩
        intro last ends
        cases front with
        | nil =>
          obtain rfl : b = last := by simpa using ends
          exact cut
        | cons c front => exact segment.before last (by simpa using ends)

end Segments

/-! ## Behind the last occurrence of a byte -/

section AfterLast

variable {back s : Bytes} {b : UInt8}

theorem afterLast_append (absent : b ∉ back) (front : Bytes) :
    afterLast b (front ++ back) = afterLast b front ++ back := by
  have passes : ∀ x ∈ back.reverse, decide (x ≠ b) = true := by
    intro x member
    exact decide_eq_true fun same => absent (same ▸ List.mem_reverse.mp member)
  rw [afterLast, List.reverse_append, List.takeWhile_append_of_pos passes, List.reverse_append, List.reverse_reverse,
    afterLast]

theorem afterLast_append_cons (absent : b ∉ back) (front : Bytes) :
    afterLast b (front ++ b :: back) = back := by
  rw [List.append_cons, afterLast_append absent]
  simp [afterLast]

theorem cons_afterLast_suffix (member : b ∈ s) : b :: afterLast b s <:+ s := by
  obtain ⟨back, front, parts, absent⟩ := List.eq_append_cons_of_mem (List.mem_reverse.mpr member)
  obtain rfl : s = front.reverse ++ b :: back.reverse := by
    rw [← List.reverse_reverse s, parts]
    simp
  rw [afterLast_append_cons (by simpa using absent)]
  exact List.suffix_append _ _

theorem afterLast_suffix (b : UInt8) (s : Bytes) : afterLast b s <:+ s := by
  rw [afterLast, ← List.reverse_prefix, List.reverse_reverse]
  exact List.takeWhile_prefix _

end AfterLast

end Bytes

/-! ## Names in a directory -/

namespace Path

/-- A name that an entry of a directory can have. -/
def isElement (name : Bytes) : Bool :=
  name ≠ [] && !name.contains Bytes.slash && name ≠ here && name ≠ parent

theorem isElement_iff {name : Bytes} :
    isElement name = true ↔
      name ≠ [] ∧ (∀ b ∈ name, decide (b = Bytes.slash) = false) ∧ name ≠ here ∧ name ≠ parent := by
  have uncut : Bytes.slash ∉ name ↔ ∀ b ∈ name, decide (b = Bytes.slash) = false := by
    simp only [decide_eq_false_iff_not]
    exact ⟨fun absent b member same => absent (same ▸ member), fun none member => none _ member rfl⟩
  rw [← uncut]
  simp [isElement, and_assoc]

variable {name : Bytes}

theorem elements_of_isElement (element : isElement name = true) : elements name = [name] := by
  obtain ⟨nonempty, uncut, -, -⟩ := isElement_iff.1 element
  exact Bytes.fieldsBy_eq_singleton uncut nonempty

theorem elements_append_slash (element : isElement name = true) (front : Bytes) :
    elements (front ++ Bytes.slash :: name) = elements front ++ [name] := by
  rw [← elements_of_isElement element]
  exact Bytes.fieldsBy_append_cons (decide_eq_true rfl) front name

/-- The last element of a path that ends in a name, either alone or behind a slash. -/
theorem base_eq {path : Bytes} (element : isElement name = true)
    (ends : path = name ∨ ∃ front, path = front ++ Bytes.slash :: name) : base path = name := by
  rcases ends with rfl | ⟨front, rfl⟩
  · have nonempty : path ≠ [] := (isElement_iff.1 element).1
    simp [base, nonempty, elements_of_isElement element]
  · simp [base, elements_append_slash element]

theorem ofElements_cons (first : Bytes) {names : List Bytes} (nonempty : names ≠ []) :
    ofElements (first :: names) = first ++ Bytes.slash :: ofElements names := by
  obtain ⟨second, others, rfl⟩ := List.exists_cons_of_ne_nil nonempty
  simp [ofElements, List.intercalate_cons_cons]

theorem ofElements_starts (first : Bytes) (names : List Bytes) :
    ∃ rest, ofElements (first :: names) = first ++ rest := by
  by_cases last : names = []
  · exact ⟨[], by simp [last, ofElements]⟩
  · exact ⟨_, ofElements_cons first last⟩

theorem ofElements_append_singleton {names : List Bytes} (nonempty : names ≠ []) (name : Bytes) :
    ofElements (names ++ [name]) = ofElements names ++ Bytes.slash :: name := by
  induction names with
  | nil => exact absurd rfl nonempty
  | cons first names ih =>
    rw [List.cons_append, ofElements_cons first (List.concat_ne_nil name names)]
    by_cases last : names = []
    · simp [last, ofElements]
    · rw [ih last, ofElements_cons first last]
      simp

theorem ofElements_concat (names : List Bytes) (name : Bytes) :
    ofElements (names ++ [name]) = name ∨ ∃ front, ofElements (names ++ [name]) = front ++ Bytes.slash :: name := by
  by_cases alone : names = []
  · exact .inl (by simp [alone, ofElements])
  · exact .inr ⟨_, ofElements_append_singleton alone name⟩

theorem base_ofElements_concat (element : isElement name = true) (names : List Bytes) :
    base (ofElements (names ++ [name])) = name :=
  base_eq element (ofElements_concat names name)

/-- Cleaning a path keeps the name at its end. -/
theorem clean_ends {path : Bytes} (front : List Bytes) (element : isElement name = true)
    (ends : elements path = front ++ [name]) :
    clean path = name ∨ ∃ before, clean path = before ++ Bytes.slash :: name := by
  obtain ⟨nonempty, -, notHere, notParent⟩ := isElement_iff.1 element
  have kept : ((elements path).foldl (pushElement (isAbsolute path)) []).reverse =
      (front.foldl (pushElement (isAbsolute path)) []).reverse ++ [name] := by
    simp [ends, pushElement, notHere, notParent]
  have last := ofElements_concat (front.foldl (pushElement (isAbsolute path)) []).reverse name
  simp only [clean, kept]
  split
  · right
    rcases last with alone | ⟨before, behind⟩
    · exact ⟨[], by rw [alone]; rfl⟩
    · exact ⟨Bytes.slash :: before, by rw [behind]; rfl⟩
  · split
    · next empty =>
      rcases last with alone | ⟨before, behind⟩
      · exact absurd (alone.symm.trans empty) nonempty
      · simp [behind] at empty
    · exact last

theorem join_ends (element : isElement name = true) (directory : Bytes) :
    join directory name = name ∨ ∃ before, join directory name = before ++ Bytes.slash :: name := by
  have nonempty : name ≠ [] := (isElement_iff.1 element).1
  unfold join
  rw [if_neg nonempty, if_neg nonempty]
  split
  · exact clean_ends [] element (elements_of_isElement element)
  · exact clean_ends (elements directory) element (elements_append_slash element directory)

theorem base_join (element : isElement name = true) (directory : Bytes) : base (join directory name) = name :=
  base_eq element (join_ends element directory)

theorem clean_ne_nil (path : Bytes) : clean path ≠ [] := by
  simp only [clean]
  split
  · simp
  · split
    · simp [here]
    · assumption

theorem join_ne_nil (nonempty : name ≠ []) (directory : Bytes) : join directory name ≠ [] := by
  rw [join, if_neg nonempty, if_neg nonempty]
  split
  · exact clean_ne_nil name
  · exact clean_ne_nil _

theorem extension_suffix (path : Bytes) : extension path <:+ path := by
  simp only [extension]
  split
  · next dotted =>
    exact (Bytes.cons_afterLast_suffix (by simpa using dotted)).trans (Bytes.afterLast_suffix _ _)
  · exact List.nil_suffix

theorem extension_append_dot {rest : Bytes} (noSlash : Bytes.slash ∉ rest) (noDot : Bytes.dot ∉ rest) (stem : Bytes) :
    extension (stem ++ Bytes.dot :: rest) = Bytes.dot :: rest := by
  have last : Bytes.afterLast Bytes.slash (stem ++ Bytes.dot :: rest)
      = Bytes.afterLast Bytes.slash stem ++ Bytes.dot :: rest :=
    Bytes.afterLast_append (by simpa using ⟨by decide, noSlash⟩) stem
  rw [extension, last, Bytes.afterLast_append_cons noDot]
  simp

/-! ## Clean paths -/

/-- Elements of a path hold no slash and are not empty. -/
theorem mem_elements {element path : Bytes} (member : element ∈ elements path) :
    element ≠ [] ∧ ∀ b ∈ element, decide (b = Bytes.slash) = false := by
  obtain ⟨piece, nonempty⟩ := List.mem_filter.1 member
  obtain ⟨front, back, -, segment⟩ := Bytes.exists_segment_of_mem_piecesBy piece
  exact ⟨by simpa using nonempty, segment.uncut⟩

theorem elements_slash_cons (path : Bytes) : elements (Bytes.slash :: path) = elements path := by
  have cut : elements ([] ++ Bytes.slash :: path) = elements [] ++ elements path :=
    Bytes.fieldsBy_append_cons (decide_eq_true rfl) [] path
  exact cut

theorem elements_ofElements {names : List Bytes}
    (proper : ∀ name ∈ names, name ≠ [] ∧ ∀ b ∈ name, decide (b = Bytes.slash) = false) :
    elements (ofElements names) = names := by
  induction names with
  | nil => rfl
  | cons first names ih =>
    obtain ⟨⟨nonempty, uncut⟩, others⟩ := List.forall_mem_cons.1 proper
    have single : elements first = [first] := Bytes.fieldsBy_eq_singleton uncut nonempty
    by_cases last : names = []
    · simp [last, ofElements, single]
    · have parts :
          elements (first ++ Bytes.slash :: ofElements names) = elements first ++ elements (ofElements names) :=
        Bytes.fieldsBy_append_cons (decide_eq_true rfl) _ _
      rw [ofElements_cons first last, parts, single, ih others, List.singleton_append]

/-- The elements that cleaning keeps, in reverse: proper names, behind steps to a parent if the path does not start at
the root. -/
def Kept (rooted : Bool) (done : List Bytes) : Prop :=
  ∃ names parents, done = names ++ List.replicate parents parent ∧
    (∀ name ∈ names, name ≠ here ∧ name ≠ parent) ∧ (rooted = true → parents = 0)

theorem Kept.push {rooted : Bool} {done : List Bytes} (kept : Kept rooted done) (element : Bytes) :
    Kept rooted (pushElement rooted done element) := by
  obtain ⟨names, parents, rfl, proper, unrooted⟩ := kept
  unfold pushElement
  split
  · exact ⟨names, parents, rfl, proper, unrooted⟩
  · next notHere =>
    split
    · next isParent =>
      cases names with
      | cons name names =>
        obtain ⟨first, others⟩ := List.forall_mem_cons.1 proper
        rw [List.cons_append]
        simp only [if_neg first.2]
        exact ⟨names, parents, rfl, others, unrooted⟩
      | nil =>
        cases parents with
        | zero =>
          cases rooted with
          | true => exact ⟨[], 0, rfl, by simp, by simp⟩
          | false => exact ⟨[], 1, rfl, by simp, by simp⟩
        | succ parents =>
          cases rooted with
          | true => cases unrooted rfl
          | false => exact ⟨[], parents + 2, by simp [List.replicate_succ], by simp, by simp⟩
    · next notParent =>
      exact ⟨element :: names, parents, rfl, List.forall_mem_cons.2 ⟨⟨notHere, notParent⟩, proper⟩, unrooted⟩

/-- Cleaning once more changes nothing. -/
theorem Kept.foldl_reverse {rooted : Bool} {done : List Bytes} (kept : Kept rooted done) :
    done.reverse.foldl (pushElement rooted) [] = done := by
  obtain ⟨names, parents, rfl, proper, unrooted⟩ := kept
  induction names with
  | nil =>
    induction parents with
    | zero => rfl
    | succ parents ih =>
      cases rooted with
      | true => cases unrooted rfl
      | false =>
        rw [List.nil_append] at ih ⊢
        rw [List.replicate_succ, List.reverse_cons, List.foldl_append, ih (by simp)]
        cases parents <;> simp [pushElement, here, parent, List.replicate_succ]
  | cons name names ih =>
    obtain ⟨⟨notHere, notParent⟩, others⟩ := List.forall_mem_cons.1 proper
    rw [List.cons_append, List.reverse_cons, List.foldl_append, ih others]
    simp [pushElement, notHere, notParent]

theorem mem_foldl_pushElement {rooted : Bool} {path done : List Bytes} {element : Bytes}
    (member : element ∈ path.foldl (pushElement rooted) done) : element ∈ path ∨ element ∈ done ∨ element = parent := by
  induction path generalizing done with
  | nil => exact .inr (.inl member)
  | cons first rest ih =>
    rcases ih member with later | pushed | isParent
    · exact .inl (List.mem_cons_of_mem _ later)
    · unfold pushElement at pushed
      grind
    · exact .inr (.inr isParent)

/-- The elements of a path that cleaning keeps. -/
def cleanElements (path : Bytes) : List Bytes := ((elements path).foldl (pushElement (isAbsolute path)) []).reverse

theorem kept_cleanElements (path : Bytes) : Kept (isAbsolute path) (cleanElements path).reverse := by
  rw [cleanElements, List.reverse_reverse]
  exact List.foldlRecOn (elements path) _ ⟨[], 0, rfl, by simp, by simp⟩ fun _ kept element _ => kept.push element

theorem foldl_cleanElements (path : Bytes) :
    (cleanElements path).foldl (pushElement (isAbsolute path)) [] = (cleanElements path).reverse := by
  have again := (kept_cleanElements path).foldl_reverse
  rwa [List.reverse_reverse] at again

theorem mem_cleanElements (path : Bytes) {element : Bytes} (member : element ∈ cleanElements path) :
    element ≠ [] ∧ ∀ b ∈ element, decide (b = Bytes.slash) = false := by
  rcases mem_foldl_pushElement (List.mem_reverse.1 member) with given | none | rfl
  · exact mem_elements given
  · cases none
  · exact ⟨by decide, by decide +kernel⟩

section CleanElements

variable {path : Bytes} (nonempty : cleanElements path ≠ [])
include nonempty

theorem clean_eq_append :
    clean path = (if isAbsolute path then [Bytes.slash] else []) ++ ofElements (cleanElements path) := by
  have body : ofElements (cleanElements path) ≠ [] := by
    intro empty
    have none := elements_ofElements fun _ => mem_cleanElements path
    rw [empty] at none
    exact nonempty none.symm
  have body : ofElements ((elements path).foldl (pushElement (isAbsolute path)) []).reverse ≠ [] := body
  simp only [clean, if_neg body]
  split <;> rfl

theorem elements_clean : elements (clean path) = cleanElements path := by
  rw [clean_eq_append nonempty]
  split
  · rw [List.singleton_append, elements_slash_cons, elements_ofElements fun _ => mem_cleanElements path]
  · rw [List.nil_append, elements_ofElements fun _ => mem_cleanElements path]

theorem head?_clean : (clean path).head? = some Bytes.slash ↔ isAbsolute path = true := by
  rw [clean_eq_append nonempty]
  split
  · next rooted => simp [rooted]
  · next relative =>
    -- the first element does not start with a slash
    obtain ⟨first, others, shape⟩ := List.exists_cons_of_ne_nil nonempty
    obtain ⟨firstNonempty, uncut⟩ := mem_cleanElements path (shape ▸ List.mem_cons_self)
    obtain ⟨b, tail, rfl⟩ := List.exists_cons_of_ne_nil firstNonempty
    have different : b ≠ Bytes.slash := of_decide_eq_false (uncut b List.mem_cons_self)
    obtain ⟨rest, starts⟩ := ofElements_starts (b :: tail) others
    rw [shape, starts]
    simp [relative, different]

theorem isAbsolute_clean : isAbsolute (clean path) = isAbsolute path := by
  rw [Bool.eq_iff_iff, ← head?_clean nonempty]
  simp [isAbsolute]

/-- A name is put behind a clean path as it is. -/
theorem clean_clean_append (element : isElement name = true) :
    clean (clean path ++ Bytes.slash :: name) = clean path ++ Bytes.slash :: name := by
  obtain ⟨-, -, notHere, notParent⟩ := isElement_iff.1 element
  have absolute : isAbsolute (clean path ++ Bytes.slash :: name) = isAbsolute path := by
    obtain ⟨b, rest, shape⟩ := List.exists_cons_of_ne_nil (clean_ne_nil path)
    rw [← isAbsolute_clean nonempty, shape]
    rfl
  have all : cleanElements (clean path ++ Bytes.slash :: name) = cleanElements path ++ [name] := by
    rw [cleanElements, absolute, elements_append_slash element, elements_clean nonempty, List.foldl_append,
      foldl_cleanElements]
    simp [pushElement, notHere, notParent]
  rw [clean_eq_append (by simp [all]), all, absolute, ofElements_append_singleton nonempty, ← List.append_assoc,
    ← clean_eq_append nonempty]

end CleanElements

theorem cleanElements_ne_nil {path : Bytes} {front : List Bytes} (element : isElement name = true)
    (ends : elements path = front ++ [name]) : cleanElements path ≠ [] := by
  obtain ⟨-, -, notHere, notParent⟩ := isElement_iff.1 element
  simp [cleanElements, ends, pushElement, notHere, notParent]

/-- A name below a directory is the clean form of a path that ends in it. -/
theorem join_eq_clean (element : isElement name = true) (directory : Bytes) :
    ∃ path, join directory name = clean path ∧ elements path = elements directory ++ [name] ∧
      isAbsolute path = isAbsolute directory := by
  obtain ⟨nonempty, uncut, -, -⟩ := isElement_iff.1 element
  unfold join
  rw [if_neg nonempty, if_neg nonempty]
  split
  · next none =>
    subst none
    refine ⟨name, rfl, elements_of_isElement element, ?_⟩
    obtain ⟨b, rest, rfl⟩ := List.exists_cons_of_ne_nil nonempty
    have different : b ≠ Bytes.slash := of_decide_eq_false (uncut b List.mem_cons_self)
    simp [isAbsolute, different]
  · next some =>
    refine ⟨_, rfl, elements_append_slash element directory, ?_⟩
    obtain ⟨b, rest, rfl⟩ := List.exists_cons_of_ne_nil some
    rfl

/-- A name below a name below a directory: only the directory is cleaned. -/
theorem join_join (element : isElement name = true) {below : Bytes} (inner : isElement below = true)
    (directory : Bytes) : join (join directory name) below = join directory name ++ Bytes.slash :: below := by
  have belowNonempty : below ≠ [] := (isElement_iff.1 inner).1
  obtain ⟨path, joined, ends, -⟩ := join_eq_clean element directory
  rw [joined, join, if_neg (clean_ne_nil path), if_neg belowNonempty,
    clean_clean_append (cleanElements_ne_nil element ends) inner]

end Path

/-! ## Following the last link -/

namespace Tree

variable {t : Tree}

theorem walk_follow {links : Nat} {names elements : List Bytes} {d : Destination}
    (walks : t.walk false links names elements = .ok d) (proper : ∀ names target, d ≠ .found names (.link target)) :
    t.walk true links names elements = .ok d := by
  fun_induction walk t false links names elements with
  | case3 links names rest ih =>
    unfold walk
    rw [if_pos rfl]
    exact ih walks
  | case4 links names rest notHere ih =>
    unfold walk
    rw [if_neg notHere, if_pos rfl]
    exact ih walks
  | case10 links names element rest notHere notParent target follow last =>
    -- only here does it matter whether the last link is followed
    exact absurd (Except.ok.inj walks).symm (proper _ target)
  | case13 names element rest notHere notParent target follow further links nonempty ih =>
    rw [walk, if_neg notHere, if_neg notParent]
    simp only [follow, if_neg nonempty, Bool.not_true, Bool.false_eq_true, and_false, if_false]
    exact ih walks
  | _ => simp_all [walk]

theorem locate_follow {path : Bytes} {d : Destination} (found : t.locate false path = .ok d)
    (proper : ∀ names target, d ≠ .found names (.link target)) : t.locate true path = .ok d := by
  unfold locate at found ⊢
  split_ifs at found ⊢ with zero empty long
  cases slash : Path.endsInSlash path with
  | true => simpa [slash] using found
  | false =>
    simp only [slash, Bool.or_false, Bool.false_and, Bool.false_eq_true, if_false] at found ⊢
    have walked : t.walk false maxLinks (t.start path) (Path.elements path) = .ok d := by
      cases result : t.walk false maxLinks (t.start path) (Path.elements path) with
      | error refusal => simp [result] at found
      | ok d' => cases d' <;> simpa [result] using found
    rw [walk_follow walked proper]
    cases d <;> rfl

theorem locate_of_linkStat {path : Bytes} {node : Node} (found : t.linkStat path = .ok node) :
    ∃ names, t.locate false path = .ok (.found names node) := by
  unfold linkStat nodeAt at found
  cases located : t.locate false path with
  | error refusal => simp [located, Except.mapError] at found
  | ok d =>
    cases d with
    | free directory name => simp [located, Except.mapError] at found
    | found names other =>
      simp only [located, Except.mapError, Except.ok.injEq] at found
      exact ⟨names, by rw [found]⟩

theorem stat_of_linkStat {path : Bytes} {node : Node} (found : t.linkStat path = .ok node)
    (proper : ∀ target, node ≠ .link target) : t.stat path = .ok node := by
  obtain ⟨names, located⟩ := locate_of_linkStat found
  have followed := locate_follow located fun names target same => proper target (by cases same; rfl)
  rw [stat, nodeAt, followed]
  rfl

theorem stat_of_readFile {path : Bytes} {content : Content} (readable : t.readFile path = .ok content) :
    t.stat path = .ok (.file content) := by
  unfold readFile at readable
  unfold stat
  split at readable
  · next found =>
    rw [found, Except.ok.inj readable]
    rfl
  · cases readable
  · cases readable

end Tree

end JvmCoupling
