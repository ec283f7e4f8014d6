import JvmCoupling.Analysis.Hierarchy
import JvmCoupling.Proofs.Analysis.Shared
import Mathlib.Data.List.Find

/-! # Class numbers

The analyses keep their records under class numbers.  A number stands for one name and keeps standing for it when
more names are seen, so a run over numbers is a run over names.

* `ClassIndex.find?_eq_some` — the number of a name and the name of a number;
* `ClassIndex.name?_intern`, `ClassIndex.name?_internAll` — numbers that were handed out stay as they are;
* `Forest.rename` — a forest with other keys;
* `Forest.build` — the forest of the classes in scope, over their names;
* `analyzeHierarchy_eq` — the analysis, said without numbers.
-/

namespace JvmCoupling

namespace ClassIndex

variable {x : ClassIndex} {name : Bytes} {id : Nat}

theorem find?_eq_none : x.find? name = none ↔ name ∉ x.names := List.idxOf?_eq_none_iff

theorem find?_eq_some : x.find? name = some id ↔ x.name? id = some name := by
  rw [find?, name?, List.idxOf?_eq_some_iff, List.getElem?_eq_some_iff]
  constructor
  · rintro ⟨inside, here, -⟩
    exact ⟨inside, here⟩
  · rintro ⟨inside, here⟩
    refine ⟨inside, here, fun j before same => ?_⟩
    exact Nat.ne_of_lt before ((x.nodup.getElem_inj_iff).1 (same.trans here.symm))

theorem name?_eq_some_nameOf (inside : id < x.size) : x.name? id = some (x.nameOf id) := by
  rw [nameOf, name?, List.getElem?_eq_getElem inside, Option.getD_some]

theorem nameOf_eq (named : x.name? id = some name) : x.nameOf id = name := by rw [nameOf, named, Option.getD_some]

theorem lt_size (named : x.name? id = some name) : id < x.size := (List.getElem?_eq_some_iff.1 named).1

theorem nameOf_mem (inside : id < x.size) : x.nameOf id ∈ x.names :=
  List.mem_of_getElem? (name?_eq_some_nameOf inside)

/-- Different numbers stand for different names. -/
theorem id_eq_iff {id' : Nat} {name' : Bytes} (named : x.name? id = some name) (named' : x.name? id' = some name') :
    id = id' ↔ name = name' := by
  rw [← find?_eq_some] at named named'
  constructor
  · rintro rfl
    exact Option.some.inj ((find?_eq_some.1 named).symm.trans (find?_eq_some.1 named'))
  · rintro rfl
    exact Option.some.inj (named.symm.trans named')

theorem nameOf_inj {id' : Nat} (inside : id < x.size) (inside' : id' < x.size) :
    x.nameOf id = x.nameOf id' ↔ id = id' :=
  (id_eq_iff (name?_eq_some_nameOf inside) (name?_eq_some_nameOf inside')).symm

/-- A name is known, or it gets the next number. -/
theorem intern_cases (x : ClassIndex) (name : Bytes) :
    (x.name? (x.intern name).1 = some name ∧ (x.intern name).2 = x) ∨
    (name ∉ x.names ∧ (x.intern name).1 = x.size ∧ (x.intern name).2.names = x.names ++ [name]) := by
  unfold intern
  split
  · next id known => exact .inl ⟨find?_eq_some.1 known, rfl⟩
  · next fresh => exact .inr ⟨find?_eq_none.1 fresh, rfl, rfl⟩

theorem name?_intern_self (x : ClassIndex) (name : Bytes) : (x.intern name).2.name? (x.intern name).1 = some name := by
  rcases intern_cases x name with ⟨known, same⟩ | ⟨-, id, names⟩
  · rw [same, known]
  · rw [name?, names, id, size, List.getElem?_concat_length]

/-- Numbers that were handed out keep their names. -/
theorem name?_intern {seen : Bytes} (named : x.name? id = some seen) (name : Bytes) :
    (x.intern name).2.name? id = some seen := by
  rcases intern_cases x name with ⟨-, same⟩ | ⟨-, -, names⟩
  · rw [same, named]
  · rw [name?, names, List.getElem?_append_left (lt_size named)]
    exact named

theorem mem_names_intern (x : ClassIndex) (name : Bytes) {seen : Bytes} :
    seen ∈ (x.intern name).2.names ↔ seen = name ∨ seen ∈ x.names := by
  rcases intern_cases x name with ⟨known, same⟩ | ⟨-, -, names⟩
  · have member : name ∈ x.names := List.mem_of_getElem? known
    rw [same]
    exact ⟨.inr, Or.rec (fun here => here ▸ member) fun old => old⟩
  · rw [names, List.mem_append, List.mem_singleton, or_comm]

theorem lt_size_intern (x : ClassIndex) (name : Bytes) :
    id < (x.intern name).2.size ↔ id = (x.intern name).1 ∨ id < x.size := by
  rcases intern_cases x name with ⟨known, same⟩ | ⟨-, new, names⟩
  · rw [same]
    exact ⟨.inr, Or.rec (fun here => here ▸ lt_size known) fun old => old⟩
  · rw [size, names, new, List.length_append, List.length_singleton, ← size]
    omega

theorem name?_internAll {seen : Bytes} (names : List Bytes) {x : ClassIndex} (named : x.name? id = some seen) :
    (x.internAll names).2.name? id = some seen := by
  induction names generalizing x with
  | nil => exact named
  | cons name names ih => exact ih (name?_intern named name)

/-- The numbers of a list of names stand for these names at the end. -/
theorem map_name?_internAll (x : ClassIndex) (names : List Bytes) :
    (x.internAll names).1.map (x.internAll names).2.name? = names.map some := by
  induction names generalizing x with
  | nil => rfl
  | cons name names ih =>
    have first := name?_internAll names (name?_intern_self x name)
    exact List.cons_eq_cons.2 ⟨first, ih (x.intern name).2⟩

theorem lt_size_of_mem_internAll {names : List Bytes} (member : id ∈ (x.internAll names).1) :
    id < (x.internAll names).2.size := by
  have named := List.mem_map_of_mem (f := (x.internAll names).2.name?) member
  rw [map_name?_internAll] at named
  obtain ⟨name, -, found⟩ := List.mem_map.1 named
  exact lt_size found.symm

theorem map_nameOf_internAll (x : ClassIndex) (names : List Bytes) :
    (x.internAll names).1.map (x.internAll names).2.nameOf = names := by
  have named := map_name?_internAll x names
  have each : (x.internAll names).1.map (x.internAll names).2.name? =
      ((x.internAll names).1.map (x.internAll names).2.nameOf).map some := by
    rw [List.map_map]
    exact List.map_congr_left fun id member => name?_eq_some_nameOf (lt_size_of_mem_internAll member)
  exact (List.map_inj_right fun _ _ => Option.some.inj).1 (each.symm.trans named)

end ClassIndex

/-! ## Forests under other keys -/

namespace Forest

variable {α β : Type}

/-- The same forest with other keys. -/
def rename (name : α → β) (f : Forest α) : Forest β where
  members := f.members.map fun m => ⟨name m.key, m.tree⟩
  links := f.links.map fun link => (name link.1, name link.2)
  missing := f.missing

/-- The keys of a forest are among those that have a property. -/
structure Within (valid : α → Prop) (f : Forest α) : Prop where
  members : ∀ m ∈ f.members, valid m.key
  links : ∀ link ∈ f.links, valid link.1 ∧ valid link.2

theorem rename_singletons (name : α → β) (keys : List α) :
    (singletons keys).rename name = singletons (keys.map name) := by
  simp [rename, singletons, List.zipIdx_map, Function.comp_def]

theorem treeMembers_rename (name : α → β) (f : Forest α) (tree : Nat) :
    (f.rename name).treeMembers tree = (f.treeMembers tree).map name := by
  simp [rename, treeMembers, List.filter_map, Function.comp_def]

theorem trees_rename (name : α → β) (f : Forest α) : (f.rename name).trees = f.trees.map (List.map name) := by
  have numbers : (f.rename name).members.map (·.tree) = f.members.map (·.tree) := by simp [rename, Function.comp_def]
  rw [trees, numbers, trees, List.map_map]
  exact List.map_congr_left fun tree _ => treeMembers_rename name f tree

theorem within_singletons {valid : α → Prop} {keys : List α} (each : ∀ key ∈ keys, valid key) :
    Within valid (singletons keys) where
  members m member := by
    obtain ⟨⟨key, i⟩, listed, rfl⟩ := List.mem_map.1 member
    exact each key (List.fst_mem_of_mem_zipIdx listed)
  links _ member := absurd member List.not_mem_nil

theorem Within.mem_treeMembers {valid : α → Prop} {f : Forest α} (within : Within valid f) {tree : Nat} {key : α}
    (member : key ∈ f.treeMembers tree) : valid key := by
  obtain ⟨m, listed, rfl⟩ := List.mem_map.1 member
  exact within.members m (List.mem_filter.1 listed).1

section Link

variable [DecidableEq α] [DecidableEq β] {valid : α → Prop} {name : α → β} {f : Forest α} {child ancestor : α}
  (inj : ∀ {a b}, valid a → valid b → (name a = name b ↔ a = b)) (within : Within valid f)

theorem Within.link (within : Within valid f) (hc : valid child) (ha : valid ancestor) :
    Within valid (f.link child ancestor) := by
  unfold Forest.link
  split
  · split
    · exact within
    · refine ⟨fun m member => ?_, fun link member => ?_⟩
      · obtain ⟨m, listed, rfl⟩ := List.mem_map.1 member
        split <;> exact within.members m listed
      · rcases List.mem_cons.1 member with rfl | old
        · exact ⟨hc, ha⟩
        · exact within.links link old
  · exact within

include inj within

theorem treeOf?_rename {key : α} (hk : valid key) : (f.rename name).treeOf? (name key) = f.treeOf? key := by
  have same : ∀ m ∈ f.members, decide (name m.key = name key) = decide (m.key = key) := fun m member =>
    decide_eq_decide.2 (inj (within.members m member) hk)
  rw [treeOf?, treeOf?, rename, List.find?_map, Option.map_map]
  simp only [Function.comp_def]
  rw [List.find?_congr same]

theorem linked_rename (hc : valid child) (ha : valid ancestor) :
    (f.rename name).linked (name child) (name ancestor) = f.linked child ancestor := by
  have contains {a b : α} (ha : valid a) (hb : valid b) :
      (f.rename name).links.contains (name a, name b) = f.links.contains (a, b) := by
    rw [Bool.eq_iff_iff, List.contains_iff_mem, List.contains_iff_mem, rename, List.mem_map]
    constructor
    · rintro ⟨link, listed, same⟩
      obtain ⟨first, second⟩ := Prod.mk.inj same
      obtain rfl := (inj (within.links link listed).1 ha).1 first
      obtain rfl := (inj (within.links link listed).2 hb).1 second
      exact listed
    · intro listed
      exact ⟨_, listed, rfl⟩
  rw [linked, contains hc ha, contains ha hc, linked]

/-- Links are the same under keys that tell the classes apart. -/
theorem rename_link (hc : valid child) (ha : valid ancestor) :
    (f.link child ancestor).rename name = (f.rename name).link (name child) (name ancestor) := by
  have equal : decide (name child = name ancestor) = decide (child = ancestor) := decide_eq_decide.2 (inj hc ha)
  unfold link
  rw [treeOf?_rename inj within hc, treeOf?_rename inj within ha, equal, linked_rename inj within hc ha]
  split
  · split
    · rfl
    · simp only [rename, List.map_map, List.map_cons, Forest.mk.injEq, and_true]
      refine List.map_congr_left fun m _ => ?_
      simp only [Function.comp_apply]
      split <;> rfl
  · rfl

/-- The report names its classes by what their keys stand for. -/
theorem report_rename (scope : Scope) (text : β → Bytes) :
    (f.rename name).report scope text = f.report scope (text ∘ name) := by
  have others (m : Member α) (listed : m ∈ f.members) :
      (f.treeMembers m.tree).filter (fun key => name key ≠ name m.key) = (f.treeMembers m.tree).filter (· ≠ m.key) := by
    refine List.filter_congr fun key member => ?_
    rw [decide_eq_decide, ne_eq, ne_eq, inj (within.mem_treeMembers member) (within.members m listed)]
  simp only [report, trees_rename, treeMembers_rename]
  simp only [rename, List.length_map, List.filter_map, List.map_map, Function.comp_def, HierarchyReport.mk.injEq,
    true_and, and_true]
  refine List.map_congr_left fun m member => ?_
  rw [others m (List.mem_filter.1 member).1]

end Link

/-! ## The forest of the names -/

/-- Links a class to its nearest ancestors in scope. -/
def linkAncestors (u : Universe) (scope : Scope) (f : Forest Bytes) (name : Bytes) : Forest Bytes :=
  let a := nearestAncestors u scope name
  a.found.foldl (link name) { f with missing := f.missing + a.missing }

/-- The forest of the classes in scope. -/
def build (u : Universe) (scope : Scope) : Forest Bytes :=
  let names := u.names.filter scope.includes
  names.foldl (linkAncestors u scope) (singletons names)

section Numbers

variable {index : ClassIndex} {f : Forest Nat}

/-- A name without a number belongs to no member. -/
theorem link_unknown {ancestor : Bytes} (within : Within (· < index.size) f) (unknown : ancestor ∉ index.names)
    (child : Bytes) : (f.rename index.nameOf).link child ancestor = f.rename index.nameOf := by
  have absent : (f.rename index.nameOf).treeOf? ancestor = none := by
    rw [treeOf?, Option.map_eq_none_iff, List.find?_eq_none]
    intro m member
    obtain ⟨m, listed, rfl⟩ := List.mem_map.1 member
    rw [decide_eq_true_eq]
    rintro rfl
    exact unknown (ClassIndex.nameOf_mem (within.members m listed))
  unfold link
  rw [absent]
  split
  · next absurd => cases absurd
  · rfl

theorem rename_foldl_link {id : Nat} (inside : id < index.size) (found : List Bytes) {f : Forest Nat}
    (within : Within (· < index.size) f) :
    ((found.filterMap index.find?).foldl (link id) f).rename index.nameOf =
      found.foldl (link (index.nameOf id)) (f.rename index.nameOf) ∧
    Within (· < index.size) ((found.filterMap index.find?).foldl (link id) f) := by
  induction found generalizing f with
  | nil => exact ⟨rfl, within⟩
  | cons ancestor found ih =>
    cases known : index.find? ancestor with
    | none =>
      rw [List.filterMap_cons_none known, List.foldl_cons, link_unknown within (ClassIndex.find?_eq_none.1 known)]
      exact ih within
    | some ancestorId =>
      have named := ClassIndex.find?_eq_some.1 known
      have inside' := ClassIndex.lt_size named
      rw [List.filterMap_cons_some known, List.foldl_cons, List.foldl_cons, ← ClassIndex.nameOf_eq named,
        ← rename_link ClassIndex.nameOf_inj within inside inside']
      exact ih (within.link inside inside')

theorem rename_linkNearest (u : Universe) (scope : Scope) {id : Nat} (inside : id < index.size)
    (within : Within (· < index.size) f) :
    (f.linkNearest u scope index id).rename index.nameOf =
      (f.rename index.nameOf).linkAncestors u scope (index.nameOf id) ∧
    Within (· < index.size) (f.linkNearest u scope index id) :=
  rename_foldl_link inside _ (f := { f with missing := _ }) ⟨within.members, within.links⟩

/-- A run over numbers is a run over the names that they stand for. -/
theorem rename_foldl_linkNearest (u : Universe) (scope : Scope) {ids : List Nat}
    (inside : ∀ id ∈ ids, id < index.size) (within : Within (· < index.size) f) :
    (ids.foldl (linkNearest u scope index) f).rename index.nameOf =
      (ids.map index.nameOf).foldl (linkAncestors u scope) (f.rename index.nameOf) ∧
    Within (· < index.size) (ids.foldl (linkNearest u scope index) f) := by
  induction ids generalizing f with
  | nil => exact ⟨rfl, within⟩
  | cons id ids ih =>
    obtain ⟨named, within⟩ := rename_linkNearest u scope (inside id List.mem_cons_self) within
    rw [List.map_cons, List.foldl_cons, List.foldl_cons, ← named]
    exact ih (fun id later => inside id (List.mem_cons_of_mem _ later)) within

end Numbers

end Forest

/-- The analysis of the classes in scope, said without numbers: the forest is one of names, and a record lists the
tree of its owner without it. -/
theorem analyzeHierarchy_eq (u : Universe) (scope : Scope) :
    let f := Forest.build u scope
    analyzeHierarchy u scope = {
      trees := f.trees.filter (reportsTree scope)
      records := (f.members.filter fun m => reportsTree scope (f.treeMembers m.tree)).map fun m =>
        ⟨m.key, (f.treeMembers m.tree).filter (· ≠ m.key)⟩
      stats := {
        classes := f.members.length
        edges := f.links.length
        missingAncestors := f.missing
        trees := f.trees.length } } := by
  intro f
  let ids := (ClassIndex.empty.internAll (u.names.filter scope.includes)).1
  let index := (ClassIndex.empty.internAll (u.names.filter scope.includes)).2
  have inside : ∀ id ∈ ids, id < index.size := fun id member => ClassIndex.lt_size_of_mem_internAll member
  have names : ids.map index.nameOf = u.names.filter scope.includes := ClassIndex.map_nameOf_internAll .empty _
  obtain ⟨renamed, within⟩ := Forest.rename_foldl_linkNearest u scope inside (Forest.within_singletons inside)
  have built : (ids.foldl (Forest.linkNearest u scope index) (.singletons ids)).rename index.nameOf = f := by
    rw [renamed, Forest.rename_singletons, names]
    rfl
  have byName : f.report scope id = analyzeHierarchy u scope := by
    rw [← built, Forest.report_rename ClassIndex.nameOf_inj within]
    rfl
  rw [← byName]
  simp only [Forest.report, List.map_id, List.map_id', id_eq]

theorem trees_analyzeHierarchy (u : Universe) (scope : Scope) :
    (analyzeHierarchy u scope).trees = (Forest.build u scope).trees.filter (reportsTree scope) := by
  rw [analyzeHierarchy_eq]

theorem mem_trees_analyzeHierarchy {u : Universe} {scope : Scope} {tree : List Bytes} :
    tree ∈ (analyzeHierarchy u scope).trees ↔ tree ∈ (Forest.build u scope).trees ∧ reportsTree scope tree = true := by
  rw [trees_analyzeHierarchy, List.mem_filter]

end JvmCoupling
