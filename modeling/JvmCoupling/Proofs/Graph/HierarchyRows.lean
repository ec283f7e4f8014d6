import JvmCoupling.Graph.Batch
import JvmCoupling.Proofs.Analysis.HierarchyStatistics
import Mathlib

/-! # Exported classes and hierarchies

The export writes three batches about the hierarchy of a scope: the classes, the direct relations between them,
and the pairs of classes that share a tree.  The first two are read off the classes, and the third off the records
of the analysis, which got there by walks and merges.  They fit together all the same: every direct relation is
between two exported classes, and its two classes are a pair of the third batch, unless they are no two classes or
the ancestor is the universal root.

* `HierarchyRow.pair` — the two classes of a row, in no order;
* `hierarchyRows_eq`, `mem_pairs_hierarchyRows`, `nodup_pairs_hierarchyRows` — each pair is exported once;
* `mem_extendsRows` — the direct relations that are exported;
* `export_consistent` — the three batches fit together.
-/

namespace JvmCoupling.Graph

/-! ## Pairs of classes -/

/-- The two classes of a row, in no order. -/
def HierarchyRow.pair (row : HierarchyRow) : Sym2 Bytes := s(row.first, row.second)

@[simp] theorem pair_hierarchyRow (a b : Bytes) : (hierarchyRow a b).pair = s(a, b) := by
  unfold hierarchyRow
  split
  · exact Sym2.eq_swap
  · rfl

theorem hierarchyRow_comm (a b : Bytes) : hierarchyRow a b = hierarchyRow b a := by
  unfold hierarchyRow
  by_cases greater : b < a
  · rw [if_pos greater, if_neg (List.lt_asymm greater)]
  · by_cases less : a < b
    · rw [if_neg greater, if_pos less]
    · rw [if_neg greater, if_neg less, List.le_antisymm (List.not_lt.1 greater) (List.not_lt.1 less)]

/-- The order within a row is fixed, so its pair tells which row it is. -/
theorem hierarchyRow_eq_of_pair_eq {a b c d : Bytes} (same : s(a, b) = s(c, d)) :
    hierarchyRow a b = hierarchyRow c d := by
  obtain ⟨rfl, rfl⟩ | ⟨rfl, rfl⟩ := Sym2.eq_iff.1 same
  · rfl
  · exact hierarchyRow_comm a b

/-! ## The rows of records -/

/-- The rows are the first occurrences among those of all entries of all records. -/
theorem hierarchyRows_eq (records : List HierarchyRecord) :
    hierarchyRows records = (records.flatMap fun r => r.coupled.map (hierarchyRow r.owner)).eraseDups := by
  rw [← firstSeen_eq_eraseDups, firstSeen, List.foldl_flatMap]
  simp only [List.foldl_map]
  rfl

theorem mem_hierarchyRows {records : List HierarchyRecord} {row : HierarchyRow} :
    row ∈ hierarchyRows records ↔ ∃ r ∈ records, ∃ other ∈ r.coupled, row = hierarchyRow r.owner other := by
  simp only [hierarchyRows_eq, List.mem_eraseDups, List.mem_flatMap, List.mem_map, eq_comm]

theorem mem_pairs_hierarchyRows {records : List HierarchyRecord} {a b : Bytes} :
    s(a, b) ∈ (hierarchyRows records).map HierarchyRow.pair ↔
      ∃ r ∈ records, ∃ other ∈ r.coupled, s(r.owner, other) = s(a, b) := by
  simp only [List.mem_map, mem_hierarchyRows]
  constructor
  · rintro ⟨-, ⟨r, recorded, other, listed, rfl⟩, same⟩
    exact ⟨r, recorded, other, listed, by rwa [pair_hierarchyRow] at same⟩
  · rintro ⟨r, recorded, other, listed, same⟩
    exact ⟨_, ⟨r, recorded, other, listed, rfl⟩, by rwa [pair_hierarchyRow]⟩

/-- No two rows are about the same two classes. -/
theorem nodup_pairs_hierarchyRows (records : List HierarchyRecord) :
    ((hierarchyRows records).map HierarchyRow.pair).Nodup := by
  have distinct : (hierarchyRows records).Nodup := by
    rw [hierarchyRows_eq]
    exact nodup_eraseDups _
  refine distinct.map_on ?_
  intro row member row' member' same
  obtain ⟨r, -, other, -, rfl⟩ := mem_hierarchyRows.1 member
  obtain ⟨r', -, other', -, rfl⟩ := mem_hierarchyRows.1 member'
  rw [pair_hierarchyRow, pair_hierarchyRow] at same
  exact hierarchyRow_eq_of_pair_eq same

/-! ## Classes and direct relations -/

variable {u : Universe} {scope : Scope}

theorem map_name_classRows (u : Universe) (scope : Scope) :
    (classRows u scope).map (·.name) = classesInScope u scope := by
  rw [← Forest.filter_includes, Universe.names, List.filter_map, classRows, classesIn, List.map_map]
  rfl

theorem mem_extendsRows {row : ExtendsRow} :
    row ∈ extendsRows u scope ↔
      row.sub ∈ classesInScope u scope ∧ row.super ∈ classesInScope u scope ∧ Extends u row.sub row.super := by
  simp only [extendsRows, classesIn, List.mem_flatMap, List.mem_map, List.mem_filter, Scope.includes_iff,
    Bool.and_eq_true, Universe.contains_iff, mem_classesInScope, mem_ancestors, Extends]
  constructor
  · rintro ⟨c, ⟨present, inScope⟩, ancestor, ⟨named, ancestorPresent, ancestorInScope⟩, rfl⟩
    exact ⟨⟨Universe.mem_names.2 ⟨c, present, rfl⟩, inScope⟩, ⟨ancestorPresent, ancestorInScope⟩,
      c, present, rfl, named⟩
  · rintro ⟨⟨-, inScope⟩, above, c, present, sub, named⟩
    exact ⟨c, ⟨present, sub ▸ inScope⟩, row.super, ⟨named, above⟩, by rw [sub]⟩

/-! ## Direct relations within a tree -/

/-- A direct relation joins its two classes, unless it leads to the class itself or to the universal root. -/
theorem links_of_extendsRow {row : ExtendsRow} (exported : row ∈ extendsRows u scope)
    (ne_root : row.super ≠ universalRoot) (ne : row.super ≠ row.sub) : Links u scope row.sub row.super := by
  obtain ⟨child, ancestor, step⟩ := mem_extendsRows.1 exported
  exact ⟨child, ancestor, ne, ne_root, .direct step⟩

/-- The trees that are reported are those of classes in scope. -/
theorem reportsTree_of_mem_trees (nodup : u.names.Nodup) {tree : List Bytes} {name : Bytes}
    (reported : tree ∈ (analyzeHierarchy u scope).trees) (member : name ∈ tree) :
    reportsTree scope (inheritanceTree u scope name) = true := by
  obtain ⟨built, reports⟩ := mem_trees_analyzeHierarchy.1 reported
  obtain ⟨-, rfl⟩ := eq_inheritanceTree_of_mem nodup built member
  exact reports

/-- Two linked classes are a pair of the exported hierarchy if their tree is reported. -/
theorem mem_pairs_of_links (nodup : u.names.Nodup) {a b : Bytes} (link : Links u scope a b)
    (reports : reportsTree scope (inheritanceTree u scope a) = true) :
    s(a, b) ∈ (hierarchyRows (analyzeHierarchy u scope).records).map HierarchyRow.pair := by
  rw [mem_pairs_hierarchyRows, records_analyzeHierarchy nodup]
  have recorded : a ∈ (classesInScope u scope).filter fun name => reportsTree scope (inheritanceTree u scope name) :=
    List.mem_filter.2 ⟨link.child, reports⟩
  have coupled : b ∈ (inheritanceTree u scope a).filter (· ≠ a) :=
    List.mem_filter.2 ⟨mem_inheritanceTree.2 ⟨link.ancestor, .rel a b link⟩, by simpa using link.ne⟩
  exact ⟨_, List.mem_map_of_mem recorded, b, coupled, rfl⟩

/-- The exported batches fit together.  The class rows have names of their own and are as many as the statistics
say.  Both classes of a direct relation have a row.  A direct relation to another class that is not the universal
root is a pair of exactly one row of the hierarchy; in target mode this holds if one of its classes belongs to the
tree that is reported. -/
theorem export_consistent (classes : List (Option ClassInfo)) (scope : Scope) :
    let u := Universe.ofList classes
    let report := analyzeHierarchy u scope
    let names := (classRows u scope).map (·.name)
    names.Nodup ∧
    (classRows u scope).length = report.stats.classes ∧
    (∀ row ∈ extendsRows u scope, row.sub ∈ names ∧ row.super ∈ names) ∧
    ∀ row ∈ extendsRows u scope, row.super ≠ universalRoot → row.super ≠ row.sub →
      (scope.target = [] ∨ ∃ tree ∈ report.trees, row.sub ∈ tree ∨ row.super ∈ tree) →
      ((hierarchyRows report.records).map HierarchyRow.pair).count s(row.sub, row.super) = 1 := by
  intro u report names
  have nodup : u.names.Nodup := Universe.nodup_names_ofList classes
  have names_eq : names = classesInScope u scope := map_name_classRows u scope
  refine ⟨?_, ?_, ?_, ?_⟩
  · rw [names_eq]
    exact nodup_classesInScope nodup scope
  · have count : names.length = (classRows u scope).length := List.length_map _
    rw [← count, names_eq, classes_analyzeHierarchy]
  · intro row exported
    obtain ⟨child, ancestor, -⟩ := mem_extendsRows.1 exported
    exact ⟨names_eq ▸ child, names_eq ▸ ancestor⟩
  · intro row exported ne_root ne shown
    have link := links_of_extendsRow exported ne_root ne
    have reports : reportsTree scope (inheritanceTree u scope row.sub) = true := by
      rcases shown with project | ⟨tree, reported, sub | super⟩
      · simp [reportsTree, Scope.hasTarget, project]
      · exact reportsTree_of_mem_trees nodup reported sub
      · -- the ancestor has the same tree
        rw [inheritanceTree_congr (.rel _ _ link)]
        exact reportsTree_of_mem_trees nodup reported super
    exact List.count_eq_one_of_mem (nodup_pairs_hierarchyRows _) (mem_pairs_of_links nodup link reports)

/-- Two classes above each other, one of which is listed twice by the other. -/
def mutualAncestors : List (Option ClassInfo) := [
  some ⟨[0x41], [0x42], [], false, []⟩,
  some ⟨[0x42], [], [[0x41], [0x41]], true, []⟩,
  some ⟨[0x43], [0x41], [], false, []⟩]

/-- Narrowed to `B`, which does not start with the prefix `A`, the export has three direct relations between the two
classes and one pair. -/
theorem export_consistent_mutualAncestors :
    extendsRows (.ofList mutualAncestors) ⟨[0x41], [0x42]⟩ = [⟨[0x41], [0x42]⟩, ⟨[0x42], [0x41]⟩, ⟨[0x42], [0x41]⟩] ∧
    (∃ tree ∈ (analyzeHierarchy (.ofList mutualAncestors) ⟨[0x41], [0x42]⟩).trees, [0x42] ∈ tree) ∧
    ((hierarchyRows (analyzeHierarchy (.ofList mutualAncestors) ⟨[0x41], [0x42]⟩).records).map
      HierarchyRow.pair).count s([0x42], [0x41]) = 1 := by
  have rows : extendsRows (.ofList mutualAncestors) ⟨[0x41], [0x42]⟩ =
      [⟨[0x41], [0x42]⟩, ⟨[0x42], [0x41]⟩, ⟨[0x42], [0x41]⟩] := by decide
  have exported : (⟨[0x42], [0x41]⟩ : ExtendsRow) ∈ extendsRows (.ofList mutualAncestors) ⟨[0x41], [0x42]⟩ := by
    simp [rows]
  have ne_root : [0x41] ≠ universalRoot := by decide +kernel
  have link := links_of_extendsRow exported ne_root (by decide)
  have own : [0x42] ∈ inheritanceTree (.ofList mutualAncestors) ⟨[0x41], [0x42]⟩ [0x42] :=
    mem_inheritanceTree.2 ⟨link.child, .refl _⟩
  have other : [0x41] ∈ inheritanceTree (.ofList mutualAncestors) ⟨[0x41], [0x42]⟩ [0x42] :=
    mem_inheritanceTree.2 ⟨link.ancestor, .rel _ _ link⟩
  have both : [[0x41], [0x42]].Subperm (inheritanceTree (.ofList mutualAncestors) ⟨[0x41], [0x42]⟩ [0x42]) :=
    List.subperm_of_subset (by decide) (by simp [own, other])
  have two : 2 ≤ (inheritanceTree (.ofList mutualAncestors) ⟨[0x41], [0x42]⟩ [0x42]).length := both.length_le
  have reported : inheritanceTree (.ofList mutualAncestors) ⟨[0x41], [0x42]⟩ [0x42] ∈
      (analyzeHierarchy (.ofList mutualAncestors) ⟨[0x41], [0x42]⟩).trees :=
    mem_trees_analyzeHierarchy.2 ⟨(mem_trees_build (Universe.nodup_names_ofList _)).2 ⟨_, link.child, rfl⟩,
      by simp [reportsTree, own, two]⟩
  obtain ⟨-, -, -, pairs⟩ := export_consistent mutualAncestors ⟨[0x41], [0x42]⟩
  exact ⟨rows, ⟨_, reported, own⟩, pairs _ exported ne_root (by decide) (.inr ⟨_, reported, .inl own⟩)⟩

end JvmCoupling.Graph
