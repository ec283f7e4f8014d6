import JvmCoupling.Proofs.Storage.Paths
import Mathlib.Data.List.Infix
import Mathlib.Tactic.Push

/-! # Files by their places

A place is a list of names that leads from the root to a node, without links and without steps to a parent.  A path
that is followed ends at such a place, and a write changes the file at its place and no other.

* `Node.get?_put_cases` — what is where after a node was put somewhere;
* `Tree.file?` — the file at a place;
* `Tree.Accepts`, `Tree.file?_put` — a write is seen at its own place only;
* `Tree.writeFile_eq_ok`, `Tree.makeDirectories_induction` — what the operations put, and where;
* `Path.place`, `Tree.LinkFree` — without links, the path and the working directory tell the place;
* `Path.place_join`, `Tree.LinkFree.locate_join` — without links, a name is found below its directory;
* `Tree.pairwise_listDirectory` — a listing is in order.
-/

namespace JvmCoupling

theorem lookup_cons_if {α β : Type} [DecidableEq α] [BEq α] [LawfulBEq α] (key other : α) (value : β)
    (rest : List (α × β)) :
    ((key, value) :: rest).lookup other = if other = key then some value else rest.lookup other := by
  by_cases same : other = key
  · simp [same]
  · have unequal : (other == key) = false := beq_eq_false_iff_ne.2 same
    simp [List.lookup_cons, unequal, same]

/-! ## Nodes at places -/

namespace Node

theorem lookup_insertEntry (name other : Bytes) (node : Node) (entries : List (Bytes × Node)) :
    (insertEntry name node entries).lookup other = if other = name then some node else entries.lookup other := by
  induction entries with
  | nil => rw [insertEntry, lookup_cons_if]
  | cons entry rest ih =>
    obtain ⟨first, old⟩ := entry
    unfold insertEntry
    rw [lookup_cons_if]
    split
    · next replaced =>
      rw [lookup_cons_if, replaced]
      by_cases same : other = name
      · rw [if_pos same, if_pos same]
      · rw [if_neg same, if_neg same, if_neg same]
    · next different =>
      split
      · rw [lookup_cons_if, lookup_cons_if]
      · rw [lookup_cons_if, ih]
        by_cases same : other = name
        · rw [if_pos same, if_pos same, if_neg fun known => different (known.symm.trans same)]
        · rw [if_neg same, if_neg same]

theorem get?_append (p r : List Bytes) (node : Node) : get? (p ++ r) node = (get? p node).bind (get? r) := by
  induction p generalizing node with
  | nil => rfl
  | cons name p ih =>
    simp only [List.cons_append, get?]
    cases node.entries.lookup name with
    | none => rfl
    | some child => exact ih child

/-- Only a directory has something below it. -/
theorem directory_of_get?_cons {node found : Node} {name : Bytes} {rest : List Bytes}
    (present : get? (name :: rest) node = some found) : ∃ entries, node = directory entries := by
  cases node with
  | directory entries => exact ⟨entries, rfl⟩
  | file content => simp [get?, entries] at present
  | link target => simp [get?, entries] at present

theorem get?_put_append (new : Node) (p r : List Bytes) (node : Node) :
    get? (p ++ r) (put new p node) = get? r new := by
  induction p generalizing node with
  | nil => rfl
  | cons name p ih =>
    rw [List.cons_append, put, get?, entries, lookup_insertEntry, if_pos rfl]
    exact ih _

theorem get?_put_above (new : Node) (q : List Bytes) (name : Bytes) (rest : List Bytes) (node : Node) :
    ∃ entries, get? q (put new (q ++ name :: rest) node) = some (directory entries) := by
  induction q generalizing node with
  | nil => exact ⟨_, rfl⟩
  | cons first q ih =>
    obtain ⟨entries, above⟩ := ih ((node.entries.lookup first).getD (directory []))
    refine ⟨entries, ?_⟩
    rw [List.cons_append, put, get?, Node.entries, lookup_insertEntry, if_pos rfl]
    exact above

theorem get?_put_apart (new : Node) {p q : List Bytes} (node : Node) (notBelow : ¬ p <+: q) (notAbove : ¬ q <+: p) :
    get? q (put new p node) = get? q node := by
  induction p generalizing q node with
  | nil => exact absurd List.nil_prefix notBelow
  | cons name p ih =>
    cases q with
    | nil => exact absurd List.nil_prefix notAbove
    | cons first q =>
      rw [put, get?, get?, entries, lookup_insertEntry]
      by_cases same : first = name
      · subst same
        rw [List.prefix_cons_inj] at notBelow notAbove
        rw [if_pos rfl, Option.bind_some, ih _ notBelow notAbove]
        cases node.entries.lookup first with
        | some child => rfl
        | none =>
          -- nothing was there, and the directory that is made on the way is empty
          cases q with
          | nil => exact absurd List.nil_prefix notAbove
          | cons second q => rfl
      · rw [if_neg same]

/-- What is where after a node was put at a place: below the place what the node holds, above it directories, and
elsewhere what was there. -/
theorem get?_put_cases (new : Node) (p : List Bytes) (node : Node) (q : List Bytes) :
    (∃ r, q = p ++ r ∧ get? q (put new p node) = get? r new) ∨
    (∃ name rest entries, p = q ++ name :: rest ∧ get? q (put new p node) = some (directory entries)) ∨
    (¬ p <+: q ∧ ¬ q <+: p ∧ get? q (put new p node) = get? q node) := by
  by_cases below : p <+: q
  · obtain ⟨r, rfl⟩ := below
    exact .inl ⟨r, rfl, get?_put_append new p r node⟩
  · by_cases above : q <+: p
    · obtain ⟨r, rfl⟩ := above
      cases r with
      | nil => simp at below
      | cons name rest =>
        obtain ⟨entries, directory⟩ := get?_put_above new q name rest node
        exact .inr (.inl ⟨name, rest, entries, rfl, directory⟩)
    · exact .inr (.inr ⟨below, above, get?_put_apart new node below above⟩)

/-- What a file holds. -/
def content? : Node → Option Content
  | file content => some content
  | _ => none

/-- Nothing is below an item. -/
theorem get?_item (item : Item) (name : Bytes) (rest : List Bytes) : get? (name :: rest) item.node = none := by
  cases item <;> rfl

end Node

/-! ## Files of a tree -/

namespace Tree

variable {t t' : Tree} {names p q : List Bytes}

/-- The file at a place. -/
def file? (t : Tree) (names : List Bytes) : Option Content := (t.get? names).bind Node.content?

/-- The tree has no links. -/
def LinkFree (t : Tree) : Prop := ∀ names target, t.get? names ≠ some (.link target)

/-- A place at which names can be looked up. -/
def IsDirectory (t : Tree) (names : List Bytes) : Prop := ∃ entries, t.get? names = some (.directory entries)

theorem directory_above {rest : List Bytes} {name : Bytes} {node : Node}
    (present : t.get? (names ++ name :: rest) = some node) : t.IsDirectory names := by
  rw [get?, Node.get?_append] at present
  obtain ⟨above, found, below⟩ := Option.bind_eq_some_iff.1 present
  obtain ⟨entries, rfl⟩ := Node.directory_of_get?_cons below
  exact ⟨entries, found⟩

theorem IsDirectory.above {rest : List Bytes} (directory : t.IsDirectory (names ++ rest)) : t.IsDirectory names := by
  cases rest with
  | nil => rwa [List.append_nil] at directory
  | cons name rest => exact directory_above directory.choose_spec

/-- A place where a file is or can be: what leads there are directories, and there is nothing or a file. -/
structure Accepts (t : Tree) (p : List Bytes) : Prop where
  above : ∀ q name rest, p = q ++ name :: rest → t.IsDirectory q
  vacant : t.get? p = none ∨ ∃ content, t.get? p = some (.file content)

/-- Nothing but a file is at such a place, and nothing is below it. -/
theorem Accepts.file_of_get? (accepts : t.Accepts p) {rest : List Bytes} {node : Node}
    (present : t.get? (p ++ rest) = some node) : rest = [] ∧ ∃ content, node = .file content := by
  cases rest with
  | nil =>
    rw [List.append_nil] at present
    rcases accepts.vacant with none | ⟨content, file⟩
    · simp [none] at present
    · exact ⟨rfl, content, Option.some.inj (present.symm.trans file)⟩
  | cons name rest =>
    obtain ⟨entries, directory⟩ := directory_above present
    rcases accepts.vacant with none | ⟨content, file⟩
    · simp [none] at directory
    · simp [file] at directory

theorem Accepts.below (accepts : t.Accepts p) (name : Bytes) (rest : List Bytes) :
    t.get? (p ++ name :: rest) = none := by
  rw [Option.eq_none_iff_forall_ne_some]
  intro node present
  obtain ⟨empty, -⟩ := accepts.file_of_get? present
  cases empty

theorem accepts_of_free {directory : List Bytes} {name : Bytes} (above : t.IsDirectory directory)
    (free : t.get? (directory ++ [name]) = none) : t.Accepts (directory ++ [name]) where
  above q first rest same := by
    obtain ⟨between, rfl⟩ : q <+: directory := by
      have before : directory = (directory ++ [name]).dropLast := List.dropLast_concat.symm
      rw [before, same, List.dropLast_append_cons]
      exact List.prefix_append _ _
    exact above.above
  vacant := .inl free

theorem accepts_of_file {content : Content} (file : t.get? p = some (.file content)) : t.Accepts p where
  above _ _ _ same := directory_above (same ▸ file)
  vacant := .inr ⟨content, file⟩

/-- What is put at a place is seen there and nowhere else. -/
theorem file?_put (accepts : t.Accepts p) (item : Item) (q : List Bytes) :
    (t.put p item).file? q = if q = p then item.node.content? else t.file? q := by
  unfold file? put get?
  rcases item.node.get?_put_cases p t.root q with
    ⟨r, rfl, seen⟩ | ⟨name, rest, entries, rfl, seen⟩ | ⟨notBelow, -, seen⟩
  · rw [seen]
    cases r with
    | nil => simp [Node.get?]
    | cons name rest =>
      have before : Node.get? (p ++ name :: rest) t.root = none := accepts.below name rest
      simp [Node.get?_item, before]
  · obtain ⟨entries', before⟩ := accepts.above q name rest rfl
    have before : Node.get? q t.root = some (.directory entries') := before
    rw [seen, before]
    simp [Node.content?]
  · have different : q ≠ p := fun same => notBelow (same ▸ List.prefix_refl q)
    rw [seen, if_neg different]

theorem LinkFree.put (linkFree : t.LinkFree) {item : Item} (proper : ∀ target, item ≠ .link target) (p : List Bytes) :
    (t.put p item).LinkFree := by
  intro q target present
  have present : Node.get? q (Node.put item.node p t.root) = some (.link target) := present
  rcases item.node.get?_put_cases p t.root q with ⟨r, rfl, seen⟩ | ⟨name, rest, entries, rfl, seen⟩ | ⟨-, -, seen⟩
  · rw [seen] at present
    cases r with
    | nil => cases item <;> simp_all [Node.get?, Item.node]
    | cons name rest => simp [Node.get?_item] at present
  · simp [seen] at present
  · exact linkFree q target (seen.symm.trans present)

/-! ## Where paths lead -/

theorem get?_concat (t : Tree) (names : List Bytes) (name : Bytes) :
    t.get? (names ++ [name]) = (t.get? names).bind fun node => node.entries.lookup name := by
  rw [get?, Node.get?_append]
  congr 1
  funext node
  exact Option.bind_fun_some _

theorem get?_concat_of_directory {entries : List (Bytes × Node)} (directory : t.get? names = some (.directory entries))
    (name : Bytes) : t.get? (names ++ [name]) = entries.lookup name := by
  rw [get?_concat, directory]
  rfl

/-- How a name that can be had is looked up: by what is at its place. -/
theorem lookup_eq {name : Bytes} (directory : t.IsDirectory names) (short : name.length ≤ maxNameLength) :
    t.lookup names name =
      match t.get? (names ++ [name]) with
      | none => .free
      | some (.link target) => .follow target
      | some node => .into node := by
  obtain ⟨entries, found⟩ := directory
  rw [get?_concat_of_directory found, lookup, found]
  exact if_neg (Nat.not_lt.2 short)

/-- A name is refused if there is no directory or if it is too long. -/
theorem lookup_eq_refuse {name : Bytes} (cannot : ¬ (t.IsDirectory names ∧ name.length ≤ maxNameLength)) :
    ∃ refusal, t.lookup names name = .refuse refusal := by
  unfold lookup
  split
  · exact ⟨_, rfl⟩
  · next entries found =>
    have long : maxNameLength < name.length := Nat.not_le.1 fun short => cannot ⟨⟨entries, found⟩, short⟩
    exact ⟨_, if_pos long⟩
  · exact ⟨_, rfl⟩

theorem lookup_eq_into {name : Bytes} {node : Node} :
    t.lookup names name = .into node ↔
      name.length ≤ maxNameLength ∧ t.get? (names ++ [name]) = some node ∧ ∀ target, node ≠ .link target := by
  by_cases can : t.IsDirectory names ∧ name.length ≤ maxNameLength
  · rw [lookup_eq can.1 can.2]
    split
    · next absent => simp [absent]
    · next target found =>
      exact iff_of_false (by simp) fun ⟨_, same, proper⟩ => proper target (Option.some.inj (found.symm.trans same)).symm
    · next other proper found =>
      simp only [Step.into.injEq, can.2, found, Option.some.injEq, true_and]
      constructor
      · rintro rfl
        exact ⟨rfl, proper⟩
      · exact And.left
  · obtain ⟨refusal, refused⟩ := lookup_eq_refuse can
    rw [refused]
    exact iff_of_false (by simp) fun ⟨short, present, _⟩ => can ⟨directory_above present, short⟩

theorem lookup_eq_free {name : Bytes} :
    t.lookup names name = .free ↔
      name.length ≤ maxNameLength ∧ t.IsDirectory names ∧ t.get? (names ++ [name]) = none := by
  by_cases can : t.IsDirectory names ∧ name.length ≤ maxNameLength
  · rw [lookup_eq can.1 can.2]
    split <;> simp [*]
  · obtain ⟨refusal, refused⟩ := lookup_eq_refuse can
    rw [refused]
    exact iff_of_false (by simp) fun ⟨short, directory, _⟩ => can ⟨directory, short⟩

theorem lookup_eq_follow {name target : Bytes} :
    t.lookup names name = .follow target ↔
      name.length ≤ maxNameLength ∧ t.get? (names ++ [name]) = some (.link target) := by
  by_cases can : t.IsDirectory names ∧ name.length ≤ maxNameLength
  · rw [lookup_eq can.1 can.2]
    split
    · next absent => simp [absent]
    · next found => simp [can.2, found]
    · next proper found =>
      simp only [reduceCtorEq, can.2, found, Option.some.injEq, true_and, false_iff]
      exact fun same => proper target same
  · obtain ⟨refusal, refused⟩ := lookup_eq_refuse can
    rw [refused]
    exact iff_of_false (by simp) fun ⟨short, present⟩ => can ⟨directory_above present, short⟩

/-- What a destination says about the tree. -/
def Confirms (t : Tree) : Destination → Prop
  | .found names node => t.get? names = some node
  | .free directory name => t.IsDirectory directory ∧ t.get? (directory ++ [name]) = none

theorem walk_confirms {followLast : Bool} {links : Nat} {elements : List Bytes} {d : Destination}
    (walks : t.walk followLast links names elements = .ok d) : t.Confirms d := by
  fun_induction walk t followLast links names elements with
  | case1 links names node found =>
    cases walks
    exact found
  | case3 links names rest ih => exact ih walks
  | case4 links names rest _ ih => exact ih walks
  | case6 links names element _ _ free =>
    cases walks
    exact (lookup_eq_free.1 free).2
  | case9 links names element rest _ _ node into passable ih => exact ih walks
  | case10 links names element rest _ _ target follow =>
    cases walks
    exact (lookup_eq_follow.1 follow).2
  | case13 names element rest _ _ target follow _ links _ ih => exact ih walks
  | _ => cases walks

theorem walk_of_locate {followLast : Bool} {path : Bytes} {d : Destination}
    (located : t.locate followLast path = .ok d) :
    t.walk (followLast || Path.endsInSlash path) maxLinks (t.start path) (Path.elements path) = .ok d := by
  unfold locate at located
  split_ifs at located
  split at located
  · next walks =>
    split at located
    · cases located
    · cases located
      exact walks
  · exact located

theorem locate_confirms {followLast : Bool} {path : Bytes} {d : Destination}
    (located : t.locate followLast path = .ok d) :
    t.Confirms d :=
  walk_confirms (walk_of_locate located)

/-! ## Places of paths -/

end Tree

namespace Path

/-- One step from a place; the root is its own parent. -/
def descend (names : List Bytes) (element : Bytes) : List Bytes :=
  if element = here then names
  else if element = parent then names.dropLast
  else names ++ [element]

/-- The place that a path names if no link is on the way, from the root or from the working directory. -/
def place (home : List Bytes) (path : Bytes) : List Bytes :=
  (elements path).foldl descend (if isAbsolute path then [] else home)

theorem foldl_descend {names : List Bytes} (proper : ∀ name ∈ names, name ≠ here ∧ name ≠ parent)
    (front : List Bytes) : names.foldl descend front = front ++ names := by
  induction names generalizing front with
  | nil => simp
  | cons name names ih =>
    obtain ⟨⟨notHere, notParent⟩, proper⟩ := List.forall_mem_cons.1 proper
    rw [List.foldl_cons, ih proper, descend, if_neg notHere, if_neg notParent]
    simp

/-- An element more of the clean path is a step from its place. -/
theorem Kept.foldl_pushElement {rooted : Bool} {done : List Bytes} (kept : Kept rooted done) (element : Bytes)
    (home : List Bytes) :
    (pushElement rooted done element).reverse.foldl descend (if rooted then [] else home) =
      descend (done.reverse.foldl descend (if rooted then [] else home)) element := by
  obtain ⟨names, parents, rfl, proper, unrooted⟩ := kept
  unfold pushElement
  by_cases isHere : element = here
  · simp [isHere, descend]
  rw [if_neg isHere]
  by_cases isParent : element = parent
  · have step (front : List Bytes) : descend front element = front.dropLast := by
      rw [descend, if_neg isHere, if_pos isParent]
    rw [if_pos isParent, step]
    cases names with
    | cons name names =>
      obtain ⟨⟨notHere, notParent⟩, -⟩ := List.forall_mem_cons.1 proper
      simp [notParent, descend, notHere]
    | nil =>
      cases parents with
      | zero => cases rooted <;> simp [descend, here, parent]
      | succ parents => simp [List.replicate_succ, descend, here, parent]
  · rw [if_neg isParent, List.reverse_cons, List.foldl_append]
    rfl

/-- Cleaning a path does not change the place that it names. -/
theorem place_clean {path : Bytes} (nonempty : cleanElements path ≠ []) (home : List Bytes) :
    place home (clean path) = place home path := by
  rw [place, elements_clean nonempty, isAbsolute_clean nonempty, place, cleanElements]
  have both (steps : List Bytes) : Kept (isAbsolute path) (steps.foldl (pushElement (isAbsolute path)) []) ∧
      (steps.foldl (pushElement (isAbsolute path)) []).reverse.foldl descend (if isAbsolute path then [] else home) =
        steps.foldl descend (if isAbsolute path then [] else home) := by
    induction steps using List.reverseRecOn with
    | nil => exact ⟨⟨[], 0, rfl, by simp, by simp⟩, rfl⟩
    | append_singleton steps last ih =>
      obtain ⟨kept, same⟩ := ih
      simp only [List.foldl_append, List.foldl_cons, List.foldl_nil]
      exact ⟨kept.push last, by rw [kept.foldl_pushElement, same]⟩
  exact (both (elements path)).2

/-- The place of a name below a directory. -/
theorem place_join {name : Bytes} (element : isElement name = true) (home : List Bytes) (directory : Bytes) :
    place home (join directory name) = place home directory ++ [name] := by
  obtain ⟨-, -, notHere, notParent⟩ := isElement_iff.1 element
  obtain ⟨path, joined, ends, rooted⟩ := join_eq_clean element directory
  rw [joined, place_clean (cleanElements_ne_nil element ends), place, ends, rooted, List.foldl_append, List.foldl_cons,
    List.foldl_nil, descend, if_neg notHere, if_neg notParent]
  rfl

/-- The elements below a directory are no longer than the name and those of the directory. -/
theorem short_elements_join {name : Bytes} (element : isElement name = true) {directory : Bytes}
    (short : ∀ e ∈ elements directory, e.length ≤ maxNameLength) (shortName : name.length ≤ maxNameLength) :
    ∀ e ∈ elements (join directory name), e.length ≤ maxNameLength := by
  obtain ⟨path, joined, ends, -⟩ := join_eq_clean element directory
  intro e member
  rw [joined, elements_clean (cleanElements_ne_nil element ends), cleanElements, List.mem_reverse] at member
  rcases mem_foldl_pushElement member with given | none | rfl
  · rw [ends, List.mem_append, List.mem_singleton] at given
    rcases given with above | rfl
    · exact short e above
    · exact shortName
  · cases none
  · decide

/-- A path that is not too long and holds no zero. -/
def isOpenable (path : Bytes) : Bool := !path.contains 0 && path.length < maxPathLength

theorem endsInSlash_join {name : Bytes} (element : isElement name = true) (directory : Bytes) :
    endsInSlash (join directory name) = false := by
  obtain ⟨nonempty, uncut, -, -⟩ := isElement_iff.1 element
  obtain ⟨before, last, rfl⟩ := name.eq_nil_or_concat.resolve_left nonempty
  have different : last ≠ Bytes.slash := of_decide_eq_false (uncut last (by simp))
  unfold endsInSlash
  rcases join_ends element directory with alone | ⟨front, behind⟩
  · rw [alone]
    simp [different]
  · rw [behind, List.concat_eq_append, ← List.cons_append, ← List.append_assoc, List.getLast?_concat]
    simp [different]

end Path

/-- The place of a destination. -/
def Destination.place : Destination → List Bytes
  | .found names _ => names
  | .free directory name => directory ++ [name]

namespace Tree

variable {t t' : Tree} {names p q : List Bytes}

/-- Without links, a path leads to the place that it names. -/
theorem LinkFree.walk_place (linkFree : t.LinkFree) {followLast : Bool} {links : Nat} {elements : List Bytes}
    {d : Destination} (walks : t.walk followLast links names elements = .ok d) :
    elements.foldl Path.descend names = d.place := by
  fun_induction walk t followLast links names elements with
  | case1 links names node found =>
    cases walks
    rfl
  | case3 links names rest ih =>
    rw [List.foldl_cons, Path.descend, if_pos rfl]
    exact ih walks
  | case4 links names rest notHere ih =>
    rw [List.foldl_cons, Path.descend, if_neg notHere, if_pos rfl]
    exact ih walks
  | case6 links names element notHere notParent free =>
    cases walks
    rw [List.foldl_cons, Path.descend, if_neg notHere, if_neg notParent]
    rfl
  | case9 links names element rest notHere notParent node into passable ih =>
    rw [List.foldl_cons, Path.descend, if_neg notHere, if_neg notParent]
    exact ih walks
  | case10 links names element rest _ _ target follow =>
    exact absurd (lookup_eq_follow.1 follow).2 (linkFree _ target)
  | case13 names element rest _ _ target follow =>
    exact absurd (lookup_eq_follow.1 follow).2 (linkFree _ target)
  | _ => cases walks

theorem LinkFree.locate_place (linkFree : t.LinkFree) {followLast : Bool} {path : Bytes} {d : Destination}
    (located : t.locate followLast path = .ok d) : Path.place t.home path = d.place :=
  linkFree.walk_place (walk_of_locate located)

section Present

variable {followLast : Bool} {links : Nat} {elements : List Bytes} {node : Node}

/-- Names that are there, each below the one before, are walked down. -/
theorem LinkFree.walk_names (linkFree : t.LinkFree)
    (proper : ∀ name ∈ elements, name ≠ Path.here ∧ name ≠ Path.parent)
    (short : ∀ name ∈ elements, name.length ≤ maxNameLength) (present : t.get? (names ++ elements) = some node) :
    t.walk followLast links names elements = .ok (.found (names ++ elements) node) := by
  induction elements generalizing names with
  | nil =>
    rw [List.append_nil] at present ⊢
    unfold walk
    simp only [present]
  | cons name rest ih =>
    obtain ⟨⟨notHere, notParent⟩, proper⟩ := List.forall_mem_cons.1 proper
    obtain ⟨shortName, short⟩ := List.forall_mem_cons.1 short
    have split : names ++ name :: rest = names ++ [name] ++ rest := by simp
    rw [split] at present ⊢
    obtain ⟨child, there, below⟩ : ∃ child, t.get? (names ++ [name]) = some child ∧ child.get? rest = some node := by
      rw [get?, Node.get?_append] at present
      exact Option.bind_eq_some_iff.1 present
    have into : t.lookup names name = .into child :=
      lookup_eq_into.2 ⟨shortName, there, fun target link => linkFree _ target (there.trans (congrArg some link))⟩
    have passable : ¬(rest ≠ [] ∧ (!child.isDirectory) = true) := by
      rintro ⟨more, file⟩
      obtain ⟨_, _, rfl⟩ := List.exists_cons_of_ne_nil more
      obtain ⟨entries, rfl⟩ := Node.directory_of_get?_cons below
      cases file
    rw [walk, if_neg notHere, if_neg notParent, into]
    simp only [if_neg passable]
    exact ih proper short present

theorem walk_parents (t : Tree) (followLast : Bool) (links : Nat) (names : List Bytes) (n : Nat) (rest : List Bytes) :
    t.walk followLast links names (List.replicate n Path.parent ++ rest) =
      t.walk followLast links ((List.replicate n Path.parent).foldl Path.descend names) rest := by
  induction n generalizing names with
  | zero => rfl
  | succ n ih =>
    rw [List.replicate_succ, List.cons_append, List.foldl_cons, walk, if_neg (by decide), if_pos rfl, ih]
    rfl

/-- The elements of a clean path lead to what is at its place. -/
theorem LinkFree.walk_kept (linkFree : t.LinkFree) {rooted : Bool} {done : List Bytes} (kept : Path.Kept rooted done)
    (short : ∀ name ∈ done, name.length ≤ maxNameLength)
    (present : t.get? (done.reverse.foldl Path.descend names) = some node) :
    t.walk followLast links names done.reverse = .ok (.found (done.reverse.foldl Path.descend names) node) := by
  obtain ⟨proper, parents, rfl, areProper, -⟩ := kept
  have areProper' : ∀ name ∈ proper.reverse, name ≠ Path.here ∧ name ≠ Path.parent :=
    fun name member => areProper name (List.mem_reverse.1 member)
  rw [List.reverse_append, List.reverse_replicate, List.foldl_append, Path.foldl_descend areProper'] at present ⊢
  rw [walk_parents]
  exact linkFree.walk_names areProper' (fun name member => short name (by simp_all)) present

/-- All elements of a path that leads somewhere are short. -/
theorem LinkFree.short_of_walk (linkFree : t.LinkFree) {d : Destination}
    (walks : t.walk followLast links names elements = .ok d) : ∀ name ∈ elements, name.length ≤ maxNameLength := by
  fun_induction walk t followLast links names elements with
  | case1 => simp
  | case3 links names rest ih => exact List.forall_mem_cons.2 ⟨by decide, ih walks⟩
  | case4 links names rest _ ih => exact List.forall_mem_cons.2 ⟨by decide, ih walks⟩
  | case6 links names element _ _ free => simpa using (lookup_eq_free.1 free).1
  | case9 links names element rest _ _ node into passable ih =>
    exact List.forall_mem_cons.2 ⟨(lookup_eq_into.1 into).1, ih walks⟩
  | case10 links names element rest _ _ target follow =>
    exact absurd (lookup_eq_follow.1 follow).2 (linkFree _ target)
  | case13 names element rest _ _ target follow =>
    exact absurd (lookup_eq_follow.1 follow).2 (linkFree _ target)
  | _ => cases walks

/-- Without links, a name is found below its directory however the directory is spelled. -/
theorem LinkFree.locate_join (linkFree : t.LinkFree) {name directory : Bytes} (element : Path.isElement name = true)
    (short : ∀ e ∈ Path.elements directory, e.length ≤ maxNameLength) (shortName : name.length ≤ maxNameLength)
    (openable : Path.isOpenable (Path.join directory name) = true)
    (present : t.get? (Path.place t.home directory ++ [name]) = some node) (followLast : Bool) :
    t.locate followLast (Path.join directory name) = .ok (.found (Path.place t.home directory ++ [name]) node) := by
  obtain ⟨path, joined, ends, -⟩ := Path.join_eq_clean element directory
  have nonempty := Path.cleanElements_ne_nil element ends
  have elements : Path.elements (Path.join directory name) = (Path.cleanElements path).reverse.reverse := by
    rw [joined, Path.elements_clean nonempty, List.reverse_reverse]
  have short' : ∀ e ∈ (Path.cleanElements path).reverse, e.length ≤ maxNameLength := by
    intro e member
    rw [← List.mem_reverse, ← elements] at member
    exact Path.short_elements_join element short shortName e member
  have walked : t.walk followLast maxLinks (t.start (Path.join directory name))
      (Path.elements (Path.join directory name)) = .ok (.found (Path.place t.home directory ++ [name]) node) := by
    rw [← Path.place_join element, Path.place, elements] at present ⊢
    exact linkFree.walk_kept (Path.kept_cleanElements path) short' present
  simp only [Path.isOpenable, Bool.and_eq_true, Bool.not_eq_true', decide_eq_true_eq] at openable
  rw [locate, if_neg (by rw [openable.1]; decide), if_neg (Path.join_ne_nil (Path.isElement_iff.1 element).1 _),
    if_neg (Nat.not_le.2 openable.2), Path.endsInSlash_join element, Bool.or_false, walked]
  rfl

end Present

/-! ## What the operations put -/

section Put

variable (content : Content)

theorem get?_put_self (t : Tree) (p : List Bytes) (item : Item) : (t.put p item).get? p = some item.node := by
  have self := item.node.get?_put_append p [] t.root
  rwa [List.append_nil] at self

theorem Accepts.get?_put_link (accepts : t.Accepts p) {target : Bytes} (link : t.get? q = some (.link target)) :
    (t.put p (.file content)).get? q = some (.link target) := by
  rcases (Node.file content).get?_put_cases p t.root q with ⟨rest, rfl, -⟩ | ⟨name, rest, _, rfl, -⟩ | ⟨-, -, seen⟩
  · obtain ⟨-, _, file⟩ := accepts.file_of_get? link
    cases file
  · obtain ⟨entries, directory⟩ := accepts.above q name rest rfl
    simp [directory] at link
  · exact seen.trans link

theorem Accepts.get?_put_directory (accepts : t.Accepts p) (directory : t.IsDirectory q) :
    (t.put p (.file content)).IsDirectory q := by
  obtain ⟨entries, found⟩ := directory
  rcases (Node.file content).get?_put_cases p t.root q with ⟨rest, rfl, -⟩ | ⟨_, _, entries, rfl, seen⟩ | ⟨-, -, seen⟩
  · obtain ⟨-, _, file⟩ := accepts.file_of_get? found
    cases file
  · exact ⟨entries, seen⟩
  · exact ⟨entries, seen.trans found⟩

/-- A walk that would end at a free name or at a file ends at the file that was put there. -/
theorem Accepts.walk_put (accepts : t.Accepts p) {links : Nat} {elements : List Bytes} {d : Destination}
    (walks : t.walk true links names elements = .ok d) (ends : d.place = p) :
    (t.put p (.file content)).walk true links names elements = .ok (.found p (.file content)) := by
  have arrives (links : Nat) : (t.put p (.file content)).walk true links p [] = .ok (.found p (.file content)) := by
    unfold walk
    simp only [get?_put_self, Item.node]
  fun_induction walk t true links names elements with
  | case1 links names node found =>
    cases walks
    cases ends
    exact arrives links
  | case3 links names rest ih =>
    unfold walk
    rw [if_pos rfl]
    exact ih walks
  | case4 links names rest notHere ih =>
    unfold walk
    rw [if_neg notHere, if_pos rfl]
    exact ih walks
  | case6 links names element notHere notParent free =>
    cases walks
    cases ends
    obtain ⟨short, -⟩ := lookup_eq_free.1 free
    have step := lookup_eq_into.2 ⟨short, get?_put_self t (names ++ [element]) (.file content), by simp [Item.node]⟩
    rw [walk, if_neg notHere, if_neg notParent]
    simp only [Destination.place, step, ne_eq, not_true_eq_false, false_and, if_false]
    exact arrives links
  | case9 links names element rest notHere notParent node into passable ih =>
    obtain ⟨short, found, proper⟩ := lookup_eq_into.1 into
    rw [walk, if_neg notHere, if_neg notParent]
    by_cases last : rest = []
    · subst last
      have here : names ++ [element] = p := by
        unfold walk at walks
        simp only [found] at walks
        cases walks
        exact ends
      subst here
      have step := lookup_eq_into.2 ⟨short, get?_put_self t (names ++ [element]) (.file content), by simp [Item.node]⟩
      simp only [step, ne_eq, not_true_eq_false, false_and, if_false]
      exact arrives links
    · cases node with
      | directory entries =>
        obtain ⟨entries, still⟩ := accepts.get?_put_directory content ⟨entries, found⟩
        have step := lookup_eq_into.2 ⟨short, still, by simp⟩
        simp only [step, Node.isDirectory, Bool.not_true, Bool.false_eq_true, and_false, if_false]
        exact ih walks
      | file content => exact absurd ⟨last, rfl⟩ passable
      | link target => exact absurd rfl (proper target)
  | case10 links names element rest _ _ target follow unfollowed => simp at unfollowed
  | case13 names element rest notHere notParent target follow followed links nonempty ih =>
    obtain ⟨short, link⟩ := lookup_eq_follow.1 follow
    have step := lookup_eq_follow.2 ⟨short, accepts.get?_put_link content link⟩
    rw [walk, if_neg notHere, if_neg notParent]
    simp only [step, Bool.not_true, Bool.false_eq_true, and_false, if_false, if_neg nonempty]
    exact ih walks
  | _ => cases walks

end Put

/-- What a write does: it puts the file at the place where the path leads, and the path then leads to the file. -/
theorem writeFile_eq_ok {path : Bytes} {content : Content} (writes : t.writeFile path content = .ok t') :
    ∃ d, t.locate true path = .ok d ∧ t.Accepts d.place ∧ t' = t.put d.place (.file content) ∧
      (Path.endsInSlash path = false → t'.readFile path = .ok content) := by
  have reads {d : Destination} (located : t.locate true path = .ok d) (accepts : t.Accepts d.place)
      (plain : Path.endsInSlash path = false) : (t.put d.place (.file content)).readFile path = .ok content := by
    have walks := accepts.walk_put content (walk_of_locate located) rfl
    have again : (t.put d.place (.file content)).locate true path = .ok (.found d.place (.file content)) := by
      unfold locate at located ⊢
      split_ifs at located ⊢
      have sameStart : (t.put d.place (.file content)).start path = t.start path := rfl
      rw [Bool.true_or, sameStart, walks]
      simp [plain]
    simp [readFile, nodeAt, again]
  unfold writeFile at writes
  split at writes
  · next names old located =>
    cases writes
    have accepts : t.Accepts names := accepts_of_file (locate_confirms located)
    exact ⟨_, located, accepts, rfl, reads located accepts⟩
  · cases writes
  · next directory name located =>
    cases writes
    obtain ⟨above, free⟩ := locate_confirms located
    have accepts := accepts_of_free above free
    exact ⟨_, located, accepts, rfl, reads located accepts⟩
  · cases writes

theorem makeDirectory_eq_ok {path : Bytes} (makes : t.makeDirectory path = .ok t') :
    ∃ p, t.Accepts p ∧ t.get? p = none ∧ t' = t.put p .directory := by
  unfold makeDirectory at makes
  split at makes
  · next directory name located =>
    cases makes
    obtain ⟨above, free⟩ := locate_confirms located
    exact ⟨directory ++ [name], accepts_of_free above free, free, rfl⟩
  · cases makes
  · split at makes
    · cases makes
    · cases makes
  · cases makes

/-- What holds of a tree after directories were made: anything that a new directory at a free place preserves. -/
theorem makeDirectories_induction {P : Tree → Prop} (path : Bytes) (now : P t)
    (step : ∀ t p, P t → t.Accepts p → t.get? p = none → P (t.put p .directory)) : P (t.makeDirectories path).1 := by
  have single {t t' : Tree} {path : Bytes} (now : P t) (ensures : t.ensureDirectory path = .ok t') : P t' := by
    unfold ensureDirectory at ensures
    split at ensures
    · split at ensures
      · cases ensures
        exact now
      · cases ensures
    · split at ensures
      · next makes =>
        cases ensures
        obtain ⟨p, accepts, free, rfl⟩ := makeDirectory_eq_ok makes
        exact step _ p now accepts free
      · split at ensures
        · split at ensures
          · cases ensures
            exact now
          · cases ensures
        · cases ensures
  have all (paths : List Bytes) : ∀ {t : Tree}, P t → P (t.ensureDirectories paths).1 := by
    induction paths with
    | nil => exact id
    | cons path paths ih =>
      intro t now
      unfold ensureDirectories
      split
      · next ensures => exact ih (single now ensures)
      · exact now
  unfold makeDirectories
  split
  · exact now
  · exact all _ now

/-- Making directories changes no file, makes no links and leaves the working directory. -/
theorem makeDirectories_files (t : Tree) (path : Bytes) :
    (t.LinkFree → (t.makeDirectories path).1.LinkFree) ∧ (t.makeDirectories path).1.home = t.home ∧
      ∀ q, (t.makeDirectories path).1.file? q = t.file? q := by
  apply makeDirectories_induction
    (P := fun s => (t.LinkFree → s.LinkFree) ∧ s.home = t.home ∧ ∀ q, s.file? q = t.file? q) path
    ⟨id, rfl, fun _ => rfl⟩
  rintro s p ⟨linkFree, home, files⟩ accepts free
  refine ⟨fun none => (linkFree none).put (by simp) p, home, fun q => ?_⟩
  rw [file?_put accepts, ← files q]
  split
  · next same => simp [same, file?, free, Item.node, Node.content?]
  · rfl

end Tree

/-! ## Listings -/

theorem pairwise_of_areOrdered {entries : List (Bytes × Node)} (ordered : areOrdered entries = true) :
    (entries.map Prod.fst).Pairwise (· < ·) := by
  induction entries with
  | nil => exact .nil
  | cons entry rest ih =>
    simp only [areOrdered, Bool.and_eq_true, List.all_eq_true, decide_eq_true_eq] at ordered
    rw [List.map_cons, List.pairwise_cons, List.forall_mem_map]
    exact ⟨ordered.1.1, ih ordered.2⟩

theorem Node.isOrdered_get? {node below : Node} (ordered : node.isOrdered = true) {names : List Bytes}
    (present : node.get? names = some below) : below.isOrdered = true := by
  induction names generalizing node with
  | nil => rwa [← Option.some.inj present]
  | cons name rest ih =>
    obtain ⟨child, there, present⟩ := Option.bind_eq_some_iff.1 present
    exact ih (isOrdered_of_lookup (areOrdered_entries ordered) there) present

namespace Tree

variable {t : Tree} {path : Bytes} {entries : List (Bytes × Node)}

theorem listDirectory_eq_ok : t.listDirectory path = .ok entries ↔ t.nodeAt true path = .ok (.directory entries) := by
  unfold listDirectory
  split
  · next found => simp [found]
  · next other found =>
    refine iff_of_false (by simp) fun same => ?_
    rw [found] at same
    exact other entries (Except.ok.inj same)
  · next failed => simp [failed]

/-- An entry of a directory is found by its name, since no other has it. -/
theorem lookup_of_mem {names : List Bytes} {entry : Bytes × Node} (present : t.get? names = some (.directory entries))
    (member : entry ∈ entries) : entries.lookup entry.1 = some entry.2 := by
  have ordered := pairwise_of_areOrdered (Node.isOrdered_get? t.ordered present)
  obtain ⟨front, back, rfl⟩ := List.append_of_mem member
  refine List.lookup_eq_some_iff.2 ⟨front, back, rfl, fun other earlier => ?_⟩
  rw [List.map_append, List.pairwise_append] at ordered
  have less := ordered.2.2 other.1 (List.mem_map_of_mem earlier) entry.1 (by simp)
  refine bne_iff_ne.2 fun same => ?_
  rw [same] at less
  exact List.lt_irrefl _ less

/-- A directory is listed in bytewise order of the names, each of them once. -/
theorem pairwise_listDirectory (listed : t.listDirectory path = .ok entries) :
    (entries.map Prod.fst).Pairwise (· < ·) := by
  have there := listDirectory_eq_ok.1 listed
  unfold nodeAt at there
  split at there
  · next names node located =>
    cases there
    exact pairwise_of_areOrdered (Node.isOrdered_get? t.ordered (locate_confirms located))
  · cases there
  · cases there

end Tree

end JvmCoupling
