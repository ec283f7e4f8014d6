import JvmCoupling.Proofs.Analysis.Ancestry
import JvmCoupling.Proofs.Analysis.Numbering
import Mathlib.Data.List.Perm.Basic
import Mathlib.Logic.Relation

/-! # Hierarchy trees

The analysis numbers the classes in scope and merges two numbers whenever it meets a link.  At the end
two classes have the same number exactly if links join them, in whatever direction and over whatever other
classes, so the trees are the classes of the equivalence that the links generate.

* `SameTree`, `inheritanceTree` — the equivalence and its classes;
* `Forest.Joins` — the numbers after the links of a list have been met;
* `analyzeHierarchy_components` — the trees and records of a whole project.
-/

namespace JvmCoupling

open Relation (EqvGen)

/-- Whatever related elements agree on, all elements that relations join agree on. -/
theorem eq_of_eqvGen {α : Type} {β : Sort*} {related : α → α → Prop} (value : α → β)
    (agrees : ∀ x y, related x y → value x = value y) {x y : α} (joined : EqvGen related x y) : value x = value y := by
  induction joined with
  | rel x y pair => exact agrees x y pair
  | refl x => rfl
  | symm x y _ ih => exact ih.symm
  | trans x y z _ _ first second => exact first.trans second

/-- Links join the two classes. -/
def SameTree (u : Universe) (scope : Scope) : Bytes → Bytes → Prop := EqvGen (Links u scope)

theorem SameView.sameTree_eq {u v : Universe} {scope scope' : Scope} (view : SameView u v scope scope') :
    SameTree u scope = SameTree v scope' := by
  rw [SameTree, view.links_eq, SameTree]

open Classical in
/-- The tree of a class: the classes in scope that links join with it, in universe order. -/
noncomputable def inheritanceTree (u : Universe) (scope : Scope) (name : Bytes) : List Bytes :=
  (classesInScope u scope).filter fun other => SameTree u scope name other

open Classical in
/-- The classes that are the first members of their trees, in universe order. -/
noncomputable def firstMembers (u : Universe) (scope : Scope) : List Bytes :=
  (classesInScope u scope).filter fun name => (inheritanceTree u scope name).head? = some name

/-! ## Merging -/

namespace Forest

/-- The forest `f` over `names` after the requests of a list to link two classes: the members carry the
numbers that `label` gives them, and two of them carry the same number if requests join them. -/
structure Joins (names : List Bytes) (requests : List (Bytes × Bytes)) (label : Bytes → Nat) (f : Forest Bytes) :
    Prop where
  members : f.members = names.map fun name => ⟨name, label name⟩
  links : ∀ pair ∈ f.links, pair ∈ requests
  joined : ∀ pair ∈ requests, label pair.1 = label pair.2
  related : ∀ a ∈ names, ∀ b ∈ names, label a = label b → EqvGen (fun x y => (x, y) ∈ requests) a b

variable {names : List Bytes} {requests : List (Bytes × Bytes)} {label : Bytes → Nat} {f : Forest Bytes}

/-- The numbers tell which classes requests join. -/
theorem Joins.label_eq_iff (joins : Joins names requests label f) {a b : Bytes} (ha : a ∈ names) (hb : b ∈ names) :
    label a = label b ↔ EqvGen (fun x y => (x, y) ∈ requests) a b := by
  refine ⟨joins.related a ha b hb, eq_of_eqvGen label fun x y request => ?_⟩
  exact joins.joined (x, y) request

theorem Joins.treeOf?_eq (joins : Joins names requests label f) {name : Bytes} (member : name ∈ names) :
    f.treeOf? name = some (label name) := by
  rw [treeOf?, joins.members, find?_map_key fun _ => rfl, if_pos member, Option.map_some]

/-- Every class has a number of its own at first. -/
theorem joins_singletons (nodup : names.Nodup) : Joins names [] names.idxOf (singletons names) where
  members := by
    apply List.ext_getElem
    · simp [singletons]
    · intro i _ inside
      have inside : i < names.length := by simpa using inside
      simp [singletons, nodup.idxOf_getElem i inside]
  links := by simp [singletons]
  joined := by simp
  related a ha b _ same := by
    obtain rfl := (List.idxOf_inj ha).1 same
    exact .refl a

/-- A request that the numbers satisfy already changes nothing. -/
theorem Joins.repeated (joins : Joins names requests label f) {child ancestor : Bytes}
    (same : label child = label ancestor) : Joins names (requests ++ [(child, ancestor)]) label f where
  members := joins.members
  links pair member := List.mem_append_left _ (joins.links pair member)
  joined pair member := by
    rcases List.mem_append.1 member with old | new
    · exact joins.joined pair old
    · obtain rfl := List.mem_singleton.1 new
      exact same
  related a ha b hb same := (joins.related a ha b hb same).mono fun _ _ => List.mem_append_left _

/-- Two numbers become one. -/
theorem Joins.merged (joins : Joins names requests label f) {child ancestor : Bytes} (hc : child ∈ names)
    (ha : ancestor ∈ names) :
    Joins names (requests ++ [(child, ancestor)])
      (fun name => if label name = label ancestor then label child else label name)
      { f with
        members := f.members.map fun m => if m.tree = label ancestor then { m with tree := label child } else m
        links := (child, ancestor) :: f.links } where
  members := by
    simp only [joins.members, List.map_map]
    apply List.map_congr_left
    intro name _
    simp only [Function.comp_apply]
    split <;> rfl
  links pair member := by
    rcases List.mem_cons.1 member with rfl | old
    · simp
    · exact List.mem_append_left _ (joins.links pair old)
  joined pair member := by
    rcases List.mem_append.1 member with old | new
    · simp only [joins.joined pair old]
    · obtain rfl := List.mem_singleton.1 new
      simp
  related a ha' b hb same := by
    have old {x y : Bytes} (hx : x ∈ names) (hy : y ∈ names) (same : label x = label y) :
        EqvGen (fun x y => (x, y) ∈ requests ++ [(child, ancestor)]) x y :=
      (joins.related x hx y hy same).mono fun _ _ => List.mem_append_left _
    have new : EqvGen (fun x y => (x, y) ∈ requests ++ [(child, ancestor)]) child ancestor := .rel _ _ (by simp)
    -- a class whose number changes is joined with the child by way of the ancestor
    split at same
    · next moved =>
      split at same
      · next moved' => exact old ha' hb (moved.trans moved'.symm)
      · exact ((old ha' ha moved).trans _ _ _ new.symm).trans _ _ _ (old hc hb same)
    · split at same
      · next moved' => exact ((old ha' hc same).trans _ _ _ new).trans _ _ _ (old ha hb moved'.symm)
      · exact old ha' hb same

theorem Joins.link (joins : Joins names requests label f) {child ancestor : Bytes} (hc : child ∈ names)
    (ha : ancestor ∈ names) :
    ∃ label', Joins names (requests ++ [(child, ancestor)]) label' (f.link child ancestor) := by
  unfold Forest.link
  simp only [joins.treeOf?_eq hc, joins.treeOf?_eq ha]
  split
  · next known =>
    refine ⟨label, joins.repeated ?_⟩
    simp only [Bool.or_eq_true, decide_eq_true_eq, linked, List.contains_iff_mem] at known
    rcases known with rfl | up | down
    · rfl
    · exact joins.joined _ (joins.links _ up)
    · exact (joins.joined _ (joins.links _ down)).symm
  · exact ⟨_, joins.merged hc ha⟩

/-! ## The whole run -/

/-- What holds for one element of a loop holds for the loop. -/
theorem Joins.foldl {β : Type} {step : Forest Bytes → β → Forest Bytes} {asked : β → List (Bytes × Bytes)} {xs : List β}
    (each : ∀ x ∈ xs, ∀ {requests label f}, Joins names requests label f →
      ∃ label', Joins names (requests ++ asked x) label' (step f x))
    (joins : Joins names requests label f) :
    ∃ label', Joins names (requests ++ xs.flatMap asked) label' (xs.foldl step f) :=
  -- the numbers change from round to round, so the loop keeps that there are some
  foldl_flatMap (motive := fun requests f => ∃ label, Joins names requests label f)
    (fun x member {_ _} ⟨_, joins⟩ => each x member joins) ⟨label, joins⟩

variable {u : Universe} {scope : Scope}

theorem Joins.linkAncestors (joins : Joins names requests label f) {child : Bytes} (hc : child ∈ names)
    (found : ∀ ancestor ∈ (nearestAncestors u scope child).found, ancestor ∈ names) :
    ∃ label', Joins names
      (requests ++ (nearestAncestors u scope child).found.flatMap fun ancestor => [(child, ancestor)]) label'
      (f.linkAncestors u scope child) := by
  have counted :
      Joins names requests label { f with missing := f.missing + (nearestAncestors u scope child).missing } :=
    ⟨joins.members, joins.links, joins.joined, joins.related⟩
  refine Joins.foldl ?_ counted
  intro ancestor member requests label f joins
  exact joins.link hc (found ancestor member)

/-- The links that a run asks for, class by class. -/
def requested (u : Universe) (scope : Scope) : List (Bytes × Bytes) :=
  (classesInScope u scope).flatMap fun child =>
    (nearestAncestors u scope child).found.flatMap fun ancestor => [(child, ancestor)]

theorem mem_requested (nodup : u.names.Nodup) {a b : Bytes} : (a, b) ∈ requested u scope ↔ Links u scope a b := by
  simp only [requested, List.mem_flatMap, List.mem_singleton, Prod.mk.injEq]
  constructor
  · rintro ⟨child, hc, ancestor, member, rfl, rfl⟩
    exact (mem_found_nearestAncestors nodup hc).1 member
  · intro link
    exact ⟨a, link.child, b, (mem_found_nearestAncestors nodup link.child).2 link, rfl, rfl⟩

theorem filter_includes (u : Universe) (scope : Scope) : u.names.filter scope.includes = classesInScope u scope :=
  List.filter_congr fun name _ => by rw [Bool.eq_iff_iff]; simp

/-- At the end of a run two classes have the same number if they belong to the same tree. -/
theorem exists_label_build (nodup : u.names.Nodup) (scope : Scope) :
    ∃ label : Bytes → Nat,
      (build u scope).members = (classesInScope u scope).map (fun name => ⟨name, label name⟩) ∧
      ∀ a ∈ classesInScope u scope, ∀ b ∈ classesInScope u scope, (label a = label b ↔ SameTree u scope a b) := by
  have start := joins_singletons (nodup_classesInScope nodup scope)
  have each : ∀ child ∈ classesInScope u scope, ∀ {requests label f}, Joins (classesInScope u scope) requests label f →
      ∃ label', Joins (classesInScope u scope)
        (requests ++ (nearestAncestors u scope child).found.flatMap fun ancestor => [(child, ancestor)]) label'
        (f.linkAncestors u scope child) := by
    intro child hc requests label f joins
    exact joins.linkAncestors hc fun ancestor member => ((mem_found_nearestAncestors nodup hc).1 member).ancestor
  obtain ⟨label, joins⟩ := Joins.foldl each start
  rw [List.nil_append] at joins
  have requests : (fun x y => (x, y) ∈ requested u scope) = Links u scope := by
    funext x y
    rw [mem_requested nodup]
  refine ⟨label, ?_, fun a ha b hb => ?_⟩
  · rw [build, filter_includes]
    exact joins.members
  · rw [joins.label_eq_iff ha hb, ← requested, requests, SameTree]

/-! ## Trees of numbers -/

theorem treeMembers_eq (members : f.members = names.map fun name => ⟨name, label name⟩) (tree : Nat) :
    f.treeMembers tree = names.filter fun name => label name = tree := by
  simp [treeMembers, members, List.filter_map, Function.comp_def]

theorem trees_eq (members : f.members = names.map fun name => ⟨name, label name⟩) :
    f.trees = (names.map label).eraseDups.map fun tree => names.filter fun name => label name = tree := by
  simp only [trees, firstSeen_eq_eraseDups, members, List.map_map, Function.comp_def]
  exact List.map_congr_left fun tree _ => treeMembers_eq members tree

end Forest

/-- The distinct numbers of a list are those of the names that are the first with their number. -/
theorem eraseDups_map_eq {names : List Bytes} (nodup : names.Nodup) (label : Bytes → Nat) :
    (names.map label).eraseDups =
      (names.filter fun a => names.find? (fun b => label b = label a) = some a).map label := by
  induction names using List.reverseRecOn with
  | nil => rfl
  | append_singleton names x ih =>
    obtain ⟨nodup, -, disjoint⟩ := List.nodup_append.1 nodup
    -- a name at the end does not change which of the others come first
    have earlier : ∀ a ∈ names,
        (names ++ [x]).find? (fun b => label b = label a) = names.find? fun b => label b = label a := by
      intro a member
      have exists_first : (names.find? fun b => label b = label a).isSome :=
        List.find?_isSome.2 ⟨a, member, by simp⟩
      rw [List.find?_append, Option.or_of_isSome exists_first]
    have last : (names ++ [x]).find? (fun b => label b = label x) = some x ↔ label x ∉ names.map label := by
      rw [List.find?_append]
      cases search : names.find? fun b => label b = label x with
      | none => simpa using search
      | some b =>
        have member : b ∈ names := List.mem_of_find?_eq_some search
        have same : label b = label x := by simpa using List.find?_some search
        have ne : b ≠ x := disjoint b member x (by simp)
        simpa [ne] using ⟨b, member, same⟩
    have others : (names.filter fun a => (names ++ [x]).find? (fun b => label b = label a) = some a) =
        names.filter fun a => names.find? (fun b => label b = label a) = some a :=
      List.filter_congr fun a member => by rw [earlier a member]
    rw [List.map_append, List.map_singleton, eraseDups_concat, List.filter_append, List.map_append, others, ← ih nodup]
    by_cases seen : label x ∈ names.map label
    · rw [if_pos seen, List.filter_cons_of_neg (by rw [decide_eq_true_eq, last]; exact not_not_intro seen)]
      simp
    · rw [if_neg seen, List.filter_cons_of_pos (by rw [decide_eq_true_eq, last]; exact seen)]
      simp

/-- Grouping by number loses and repeats nothing. -/
theorem flatMap_filter_perm {names : List Bytes} (nodup : names.Nodup) (label : Bytes → Nat) :
    ((names.map label).eraseDups.flatMap fun tree => names.filter fun name => label name = tree).Perm names := by
  rw [List.perm_ext_iff_of_nodup _ nodup]
  · intro name
    simp only [List.mem_flatMap, List.mem_eraseDups, List.mem_map, List.mem_filter, decide_eq_true_eq]
    exact ⟨fun ⟨_, _, member, _⟩ => member, fun member => ⟨label name, ⟨name, member, rfl⟩, member, rfl⟩⟩
  · rw [List.nodup_flatMap]
    refine ⟨fun tree _ => nodup.filter _, (nodup_eraseDups _).imp ?_⟩
    intro tree tree' different name member member'
    simp_all

/-! ## Trees and records -/

section Label

variable {u : Universe} {scope : Scope} {label : Bytes → Nat}
  (same : ∀ a ∈ classesInScope u scope, ∀ b ∈ classesInScope u scope, (label a = label b ↔ SameTree u scope a b))

include same

theorem filter_label_eq {name : Bytes} (member : name ∈ classesInScope u scope) :
    ((classesInScope u scope).filter fun other => label other = label name) = inheritanceTree u scope name := by
  apply List.filter_congr
  intro other member'
  rw [decide_eq_decide, eq_comm, same name member other member']

theorem firstMembers_eq : firstMembers u scope =
    (classesInScope u scope).filter fun a => (classesInScope u scope).find? (fun b => label b = label a) = some a := by
  apply List.filter_congr
  intro name member
  rw [← List.head?_filter, filter_label_eq same member]

theorem map_firstMembers (nodup : u.names.Nodup) :
    (((classesInScope u scope).map label).eraseDups.map fun tree =>
      (classesInScope u scope).filter fun name => label name = tree) =
        (firstMembers u scope).map (inheritanceTree u scope) := by
  rw [eraseDups_map_eq (nodup_classesInScope nodup scope), ← firstMembers_eq same, List.map_map]
  apply List.map_congr_left
  intro name member
  exact filter_label_eq same (List.mem_filter.1 member).1

end Label

theorem mem_inheritanceTree {u : Universe} {scope : Scope} {name other : Bytes} :
    other ∈ inheritanceTree u scope name ↔ other ∈ classesInScope u scope ∧ SameTree u scope name other := by
  simp [inheritanceTree]

/-- Classes of one tree have the same tree. -/
theorem inheritanceTree_congr {u : Universe} {scope : Scope} {a b : Bytes} (joined : SameTree u scope a b) :
    inheritanceTree u scope a = inheritanceTree u scope b := by
  apply List.filter_congr
  intro name _
  rw [decide_eq_decide]
  exact ⟨fun other => joined.symm.trans _ _ _ other, fun other => joined.trans _ _ _ other⟩

theorem mem_firstMembers {u : Universe} {scope : Scope} {name : Bytes} :
    name ∈ firstMembers u scope ↔ name ∈ classesInScope u scope ∧ (inheritanceTree u scope name).head? = some name := by
  rw [firstMembers, List.mem_filter, decide_eq_true_eq]

theorem eq_of_mem_firstMembers {u : Universe} {scope : Scope} {a b : Bytes} (ha : a ∈ firstMembers u scope)
    (hb : b ∈ firstMembers u scope) (same : inheritanceTree u scope a = inheritanceTree u scope b) : a = b := by
  obtain ⟨-, aFirst⟩ := mem_firstMembers.1 ha
  obtain ⟨-, bFirst⟩ := mem_firstMembers.1 hb
  rw [same, bFirst] at aFirst
  exact (Option.some.inj aFirst).symm

/-- The trees of a forest are those of the classes in scope. -/
theorem mem_trees_build {u : Universe} (nodup : u.names.Nodup) {scope : Scope} {tree : List Bytes} :
    tree ∈ (Forest.build u scope).trees ↔ ∃ name ∈ classesInScope u scope, tree = inheritanceTree u scope name := by
  obtain ⟨label, members, same⟩ := Forest.exists_label_build nodup scope
  simp only [Forest.trees_eq members, List.mem_map, List.mem_eraseDups]
  constructor
  · rintro ⟨-, ⟨name, member, rfl⟩, rfl⟩
    exact ⟨name, member, filter_label_eq same member⟩
  · rintro ⟨name, member, rfl⟩
    exact ⟨label name, ⟨name, member, rfl⟩, filter_label_eq same member⟩

/-- A tree of a forest is that of each of its members. -/
theorem eq_inheritanceTree_of_mem {u : Universe} (nodup : u.names.Nodup) {scope : Scope} {tree : List Bytes}
    {name : Bytes} (built : tree ∈ (Forest.build u scope).trees) (member : name ∈ tree) :
    name ∈ classesInScope u scope ∧ tree = inheritanceTree u scope name := by
  obtain ⟨first, -, rfl⟩ := (mem_trees_build nodup).1 built
  obtain ⟨inScope, joined⟩ := mem_inheritanceTree.1 member
  exact ⟨inScope, inheritanceTree_congr joined⟩

theorem trees_build {u : Universe} (nodup : u.names.Nodup) (scope : Scope) :
    (Forest.build u scope).trees = (firstMembers u scope).map (inheritanceTree u scope) := by
  obtain ⟨label, members, same⟩ := Forest.exists_label_build nodup scope
  rw [Forest.trees_eq members, map_firstMembers same nodup]

theorem nodup_trees_build {u : Universe} (nodup : u.names.Nodup) (scope : Scope) :
    (Forest.build u scope).trees.Nodup := by
  rw [trees_build nodup]
  refine List.Nodup.map_on ?_ ((nodup_classesInScope nodup scope).filter _)
  intro a ha b hb same
  exact eq_of_mem_firstMembers ha hb same

/-- A class in scope stands in one tree of the forest, its own. -/
theorem filter_trees_build {u : Universe} (nodup : u.names.Nodup) (scope : Scope) (name : Bytes) :
    (Forest.build u scope).trees.filter (fun tree => name ∈ tree) =
      if name ∈ classesInScope u scope then [inheritanceTree u scope name] else [] := by
  have member (tree : List Bytes) : tree ∈ (Forest.build u scope).trees.filter (fun tree => name ∈ tree) ↔
      name ∈ classesInScope u scope ∧ tree = inheritanceTree u scope name := by
    rw [List.mem_filter, decide_eq_true_eq]
    constructor
    · rintro ⟨built, listed⟩
      exact eq_inheritanceTree_of_mem nodup built listed
    · rintro ⟨inScope, rfl⟩
      exact ⟨(mem_trees_build nodup).2 ⟨name, inScope, rfl⟩, mem_inheritanceTree.2 ⟨inScope, .refl name⟩⟩
  have distinct := (nodup_trees_build nodup scope).filter fun tree => name ∈ tree
  split
  · next inScope =>
    rw [← List.perm_singleton, List.perm_ext_iff_of_nodup distinct (List.nodup_singleton _)]
    intro tree
    rw [member, List.mem_singleton, and_iff_right inScope]
  · next outside => exact List.eq_nil_iff_forall_not_mem.2 fun tree listed => outside ((member tree).1 listed).1

/-- The records of the trees that are reported, in universe order. -/
theorem records_analyzeHierarchy {u : Universe} (nodup : u.names.Nodup) (scope : Scope) :
    (analyzeHierarchy u scope).records =
      ((classesInScope u scope).filter fun name => reportsTree scope (inheritanceTree u scope name)).map fun name =>
        ⟨name, (inheritanceTree u scope name).filter (· ≠ name)⟩ := by
  obtain ⟨label, members, same⟩ := Forest.exists_label_build nodup scope
  have tree {name : Bytes} (member : name ∈ classesInScope u scope) :
      (Forest.build u scope).treeMembers (label name) = inheritanceTree u scope name := by
    rw [Forest.treeMembers_eq members, filter_label_eq same member]
  simp only [analyzeHierarchy_eq, members, List.filter_map, List.map_map, Function.comp_def]
  have kept : (classesInScope u scope).filter
        (fun name => reportsTree scope ((Forest.build u scope).treeMembers (label name))) =
      (classesInScope u scope).filter fun name => reportsTree scope (inheritanceTree u scope name) :=
    List.filter_congr fun name member => by rw [tree member]
  rw [kept]
  apply List.map_congr_left
  intro name member
  rw [tree (List.mem_filter.1 member).1]

theorem reportsTree_project (packagePrefix : Bytes) (tree : List Bytes) :
    reportsTree { packagePrefix } tree = true := by
  simp [reportsTree, Scope.hasTarget]

/-- Without a target all trees are reported. -/
theorem trees_project (u : Universe) (packagePrefix : Bytes) :
    (analyzeHierarchy u { packagePrefix }).trees = (Forest.build u { packagePrefix }).trees := by
  rw [trees_analyzeHierarchy]
  exact List.filter_eq_self.2 fun tree _ => reportsTree_project packagePrefix tree

theorem records_project {u : Universe} (nodup : u.names.Nodup) (packagePrefix : Bytes) :
    (analyzeHierarchy u { packagePrefix }).records = (classesInScope u { packagePrefix }).map fun name =>
      ⟨name, (inheritanceTree u { packagePrefix } name).filter (· ≠ name)⟩ := by
  rw [records_analyzeHierarchy nodup, List.filter_eq_self.2 fun name _ => reportsTree_project packagePrefix _]

/-- The trees of a project are the classes of the equivalence that the links between its classes generate.
Members stand in universe order, trees in the order of their first members, and every class in scope stands
in exactly one tree.  The records follow the universe, and each lists the tree of its class without it. -/
theorem analyzeHierarchy_components (classes : List (Option ClassInfo)) (packagePrefix : Bytes) :
    let u := Universe.ofList classes
    let scope : Scope := { packagePrefix }
    let report := analyzeHierarchy u scope
    report.trees = (firstMembers u scope).map (inheritanceTree u scope) ∧
    report.trees.flatten.Perm (classesInScope u scope) ∧
    report.records = (classesInScope u scope).map fun name =>
      ⟨name, (inheritanceTree u scope name).filter (· ≠ name)⟩ := by
  intro u scope report
  have nodup : u.names.Nodup := Universe.nodup_names_ofList classes
  obtain ⟨label, members, same⟩ := Forest.exists_label_build nodup scope
  have all : reportsTree scope = fun _ => true := by
    funext tree
    simp [reportsTree, Scope.hasTarget, scope]
  have trees : report.trees = ((classesInScope u scope).map label).eraseDups.map fun tree =>
      (classesInScope u scope).filter fun name => label name = tree := by
    simp only [report, analyzeHierarchy_eq, all, List.filter_true, Forest.trees_eq members]
  refine ⟨?_, ?_, ?_⟩
  · rw [trees, map_firstMembers same nodup]
  · rw [trees, ← List.flatMap_def]
    exact flatMap_filter_perm (nodup_classesInScope nodup scope) label
  · simp only [report, analyzeHierarchy_eq, all, List.filter_true, members, List.map_map]
    apply List.map_congr_left
    intro name member
    simp only [Function.comp_apply, Forest.treeMembers_eq members, filter_label_eq same member]

end JvmCoupling
