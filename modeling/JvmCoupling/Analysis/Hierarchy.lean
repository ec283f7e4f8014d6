import JvmCoupling.ClassIndex
import JvmCoupling.Log
import JvmCoupling.Scope
import JvmCoupling.Universe

/-! # Hierarchy coupling

Classes in scope belong to one tree when superclass and interface relations join them, also by way of
classes out of scope.  The universal root is an ancestor of everything and joins nothing.

* `nearestAncestors` — the first classes in scope on every path upwards;
* `Forest` — classes with the tree they belong to;
* `analyzeHierarchy` — trees, records and statistics of a universe in a scope.
-/

namespace JvmCoupling

/-- The implicit superclass of every class. -/
def universalRoot : Bytes := utf8 "java.lang.Object"

/-- The other classes in the tree of a class. -/
structure HierarchyRecord where
  owner : Bytes
  coupled : List Bytes
deriving DecidableEq, Repr, Inhabited

/-- Counters of one analysis: classes in scope, links between them, references to absent ancestors, and
trees. -/
structure HierarchyStats where
  classes : Nat := 0
  edges : Nat := 0
  missingAncestors : Nat := 0
  trees : Nat := 0
deriving DecidableEq, Repr, Inhabited

/-- The outcome of a hierarchy analysis. -/
structure HierarchyReport where
  trees : List (List Bytes) := []
  records : List HierarchyRecord := []
  stats : HierarchyStats := {}
deriving DecidableEq, Repr, Inhabited

/-! ## Ancestors in scope -/

/-- What a walk upwards has met: the nearest ancestors in scope, and how many names were absent. -/
structure Ascent where
  found : List Bytes := []
  missing : Nat := 0
deriving DecidableEq, Repr, Inhabited

/-- The classes of a universe whose names have not been visited; their number bounds a walk. -/
def unvisited (u : Universe) (visited : List Bytes) : List ClassInfo :=
  u.classes.filter fun c => !visited.contains c.name

theorem unvisited_cons (u : Universe) (name : Bytes) (visited : List Bytes) :
    unvisited u (name :: visited) = (unvisited u visited).filter (·.name ≠ name) := by
  rw [unvisited, unvisited, List.filter_filter]
  apply List.filter_congr
  intro c _
  by_cases same : c.name = name <;> simp [same]

/-- Visiting one more name leaves no more classes unvisited. -/
theorem length_unvisited_cons_le (u : Universe) (name : Bytes) (visited : List Bytes) :
    (unvisited u (name :: visited)).length ≤ (unvisited u visited).length := by
  rw [unvisited_cons]
  exact List.length_filter_le _ _

/-- Visiting a class that is present and new leaves fewer classes unvisited. -/
theorem length_unvisited_cons_lt {u : Universe} {name : Bytes} {visited : List Bytes} {c : ClassInfo}
    (hfind : u.find? name = some c) (hnew : visited.contains name = false) :
    (unvisited u (name :: visited)).length < (unvisited u visited).length := by
  have hname : c.name = name := by simpa using List.find?_some hfind
  have hmem : c ∈ unvisited u visited :=
    List.mem_filter.2 ⟨List.mem_of_find?_eq_some hfind, by rw [hname, hnew]; rfl⟩
  rw [unvisited_cons, List.length_filter_lt_length_iff_exists]
  exact ⟨c, hmem, by simp [hname]⟩

/-- Walks upwards breadth first.  A class out of scope is walked through; a class in scope and an absent
one end their path; the universal root and what was visited before are passed over. -/
def ascend (u : Universe) (scope : Scope) (visited queue : List Bytes) (a : Ascent) : Ascent :=
  match queue with
  | [] => a
  | name :: queue =>
    if name = universalRoot then ascend u scope visited queue a
    else if _hnew : visited.contains name = true then ascend u scope visited queue a
    else
      match _hfind : u.find? name with
      | none => ascend u scope (name :: visited) queue { a with missing := a.missing + 1 }
      | some c =>
        if scope.includes name then
          ascend u scope (name :: visited) queue { a with found := a.found ++ [name] }
        else ascend u scope (name :: visited) (queue ++ c.ancestors) a
termination_by ((unvisited u visited).length, queue.length)
decreasing_by
  all_goals simp_wf
  · exact Prod.Lex.right _ (by simp)
  · exact Prod.Lex.right _ (by simp)
  · rcases Nat.lt_or_eq_of_le (length_unvisited_cons_le u name visited) with h | h
    · exact Prod.Lex.left _ _ h
    · rw [h]
      exact Prod.Lex.right _ (by simp)
  · exact Prod.Lex.left _ _ (length_unvisited_cons_lt _hfind (by simpa using _hnew))
  · exact Prod.Lex.left _ _ (length_unvisited_cons_lt _hfind (by simpa using _hnew))

/-- The nearest ancestors in scope of a class along every path upwards. -/
def nearestAncestors (u : Universe) (scope : Scope) (name : Bytes) : Ascent :=
  match u.find? name with
  | none => {}
  | some c => ascend u scope [name] c.ancestors {}

/-! ## Trees -/

/-- A class in scope, under a key, and the tree it belongs to. -/
structure Member (α : Type) where
  key : α
  tree : Nat
deriving DecidableEq, Repr, Inhabited

/-- Classes in universe order, grouped into trees, with the links that joined them.  In a run the keys are class
numbers. -/
structure Forest (α : Type) where
  members : List (Member α) := []
  links : List (α × α) := []
  missing : Nat := 0
deriving DecidableEq, Repr, Inhabited

namespace Forest

variable {α : Type} [DecidableEq α]

/-- Every class of a list in a tree of its own. -/
def singletons (keys : List α) : Forest α where
  members := keys.zipIdx.map fun (key, i) => ⟨key, i⟩

/-- The tree of a class. -/
def treeOf? (f : Forest α) (key : α) : Option Nat := (f.members.find? (·.key = key)).map (·.tree)

/-- Two classes are linked already, in either direction. -/
def linked (f : Forest α) (a b : α) : Bool := f.links.contains (a, b) || f.links.contains (b, a)

/-- Joins the trees of a class and its ancestor, if both are members and not linked yet. -/
def link (child : α) (f : Forest α) (ancestor : α) : Forest α :=
  match f.treeOf? child, f.treeOf? ancestor with
  | some t, some s =>
    if child = ancestor || f.linked child ancestor then f
    else { f with
      members := f.members.map fun m => if m.tree = s then { m with tree := t } else m
      links := (child, ancestor) :: f.links }
  | _, _ => f

/-- Links a class to its nearest ancestors in scope. -/
def linkNearest (u : Universe) (scope : Scope) (index : ClassIndex) (f : Forest Nat) (id : Nat) : Forest Nat :=
  let a := nearestAncestors u scope (index.nameOf id)
  (a.found.filterMap index.find?).foldl (link id) { f with missing := f.missing + a.missing }

/-- The members of a tree, in universe order. -/
def treeMembers (f : Forest α) (tree : Nat) : List α := (f.members.filter (·.tree = tree)).map (·.key)

/-- The trees, ordered by their first members. -/
def trees (f : Forest α) : List (List α) := (firstSeen (f.members.map (·.tree))).map f.treeMembers

end Forest

/-- A tree that is reported: every one, or in target mode the target's if it has other members. -/
def reportsTree (scope : Scope) (tree : List Bytes) : Bool :=
  !scope.hasTarget || (tree.contains scope.target && 2 ≤ tree.length)

/-- The report of a finished forest whose keys stand for names.  The statistics are those of the whole forest, also in
target mode. -/
def Forest.report {α : Type} [DecidableEq α] (scope : Scope) (name : α → Bytes) (f : Forest α) : HierarchyReport :=
  let kept := f.members.filter fun m => reportsTree scope ((f.treeMembers m.tree).map name)
  { trees := (f.trees.map fun tree => tree.map name).filter (reportsTree scope)
    records := kept.map fun m => ⟨name m.key, ((f.treeMembers m.tree).filter (· ≠ m.key)).map name⟩
    stats := {
      classes := f.members.length
      edges := f.links.length
      missingAncestors := f.missing
      trees := f.trees.length } }

/-- The hierarchy coupling of the classes in scope. -/
def analyzeHierarchy (u : Universe) (scope : Scope) : HierarchyReport :=
  let (ids, index) := ClassIndex.empty.internAll (u.names.filter scope.includes)
  (ids.foldl (Forest.linkNearest u scope index) (.singletons ids)).report scope index.nameOf

/-- What is logged after an analysis. -/
def HierarchyReport.logRecord (r : HierarchyReport) (scope : Scope) : Log.Record where
  severity := .debug
  message := utf8 "Hierarchy analysis finished"
  fields := [
    Log.textField "target" scope.target,
    Log.countField "classes" r.stats.classes,
    Log.countField "edges" r.stats.edges,
    Log.countField "trees" r.stats.trees,
    Log.countField "missing_ancestors" r.stats.missingAncestors,
    Log.countField "records" r.records.length]

end JvmCoupling
