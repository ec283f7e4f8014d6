import JvmCoupling.Proofs.Analysis.HierarchyStatistics

/-! # The tree of a target

An analysis that is narrowed to a target reports one tree, or none if the target is absent or alone.  The target
is in scope even if its name does not start with the package prefix.  It is then a class of the link graph, which
ways upwards do not pass through, and the graph is not that of the project.  A target that starts with the prefix
changes nothing in the graph.

* `treeRecord` — what a class is coupled to in a tree;
* `SameView.of_inScope` — scopes of the same classes have the same link graph;
* `analyzeHierarchy_target` — what an analysis with a target reports.
-/

namespace JvmCoupling

/-- The record of a class that belongs to a tree. -/
def treeRecord (tree : List Bytes) (name : Bytes) : HierarchyRecord := ⟨name, tree.filter (· ≠ name)⟩

variable {u : Universe} {scope : Scope}

/-! ## Reported trees -/

theorem reportsTree_target (narrowed : scope.target ≠ []) (tree : List Bytes) :
    reportsTree scope tree = (decide (scope.target ∈ tree) && decide (2 ≤ tree.length)) := by
  simp [reportsTree, Scope.hasTarget, narrowed]

theorem target_mem_classesInScope (narrowed : scope.target ≠ []) :
    scope.target ∈ classesInScope u scope ↔ scope.target ∈ u.names := by
  rw [mem_classesInScope, and_iff_left_of_imp]
  exact fun _ => .inr ⟨narrowed, rfl⟩

theorem trees_target (nodup : u.names.Nodup) (narrowed : scope.target ≠ []) :
    (analyzeHierarchy u scope).trees =
      if scope.target ∈ u.names ∧ 2 ≤ (inheritanceTree u scope scope.target).length
      then [inheritanceTree u scope scope.target] else [] := by
  have reported : (analyzeHierarchy u scope).trees =
      ((Forest.build u scope).trees.filter fun tree => scope.target ∈ tree).filter fun tree => 2 ≤ tree.length := by
    rw [trees_analyzeHierarchy, List.filter_filter]
    exact List.filter_congr fun tree _ => (reportsTree_target narrowed tree).trans (Bool.and_comm _ _)
  rw [reported, filter_trees_build nodup, ite_and]
  simp only [target_mem_classesInScope narrowed]
  split
  · simp [List.filter_cons]
  · rfl

/-- The members of a tree that is reported are the classes whose own tree is. -/
theorem filter_reportsTree (narrowed : scope.target ≠ []) :
    ((classesInScope u scope).filter fun name => reportsTree scope (inheritanceTree u scope name)) =
      if scope.target ∈ u.names ∧ 2 ≤ (inheritanceTree u scope scope.target).length
      then inheritanceTree u scope scope.target else [] := by
  classical
  have reports (name : Bytes) : reportsTree scope (inheritanceTree u scope name) = true ↔
      (scope.target ∈ u.names ∧ 2 ≤ (inheritanceTree u scope scope.target).length) ∧
        SameTree u scope scope.target name := by
    rw [reportsTree_target narrowed, Bool.and_eq_true, decide_eq_true_eq, decide_eq_true_eq, mem_inheritanceTree,
      target_mem_classesInScope narrowed]
    -- a tree that holds the target is the tree of the target
    constructor
    · rintro ⟨⟨present, joined⟩, others⟩
      exact ⟨⟨present, inheritanceTree_congr joined ▸ others⟩, joined.symm⟩
    · rintro ⟨⟨present, others⟩, joined⟩
      exact ⟨⟨present, joined.symm⟩, inheritanceTree_congr joined ▸ others⟩
  split
  · next reported =>
    apply List.filter_congr
    intro name _
    rw [Bool.eq_iff_iff, reports, and_iff_right reported, decide_eq_true_eq]
  · next unreported => exact List.filter_eq_nil_iff.2 fun name _ kept => unreported ((reports name).1 kept).1

theorem map_treeRecord (name : Bytes) :
    ((inheritanceTree u scope name).map fun other => ⟨other, (inheritanceTree u scope other).filter (· ≠ other)⟩) =
      (inheritanceTree u scope name).map (treeRecord (inheritanceTree u scope name)) := by
  apply List.map_congr_left
  intro other member
  rw [treeRecord, inheritanceTree_congr (mem_inheritanceTree.1 member).2]

theorem records_target (nodup : u.names.Nodup) (narrowed : scope.target ≠ []) :
    (analyzeHierarchy u scope).records =
      if scope.target ∈ u.names ∧ 2 ≤ (inheritanceTree u scope scope.target).length
      then (inheritanceTree u scope scope.target).map (treeRecord (inheritanceTree u scope scope.target)) else [] := by
  rw [records_analyzeHierarchy nodup, filter_reportsTree narrowed]
  split
  · exact map_treeRecord scope.target
  · rfl

/-! ## Scopes of the same classes -/

section SameScope

variable {scope' : Scope} (same : ∀ name, scope.InScope name ↔ scope'.InScope name)

include same

theorem SameView.of_inScope : SameView u u scope scope' := ⟨.rfl, fun _ => .rfl, same _⟩

theorem classesInScope_of_inScope : classesInScope u scope = classesInScope u scope' :=
  List.filter_congr fun name _ => by rw [decide_eq_decide, same]

theorem inheritanceTree_of_inScope : inheritanceTree u scope = inheritanceTree u scope' := by
  funext name
  rw [inheritanceTree, classesInScope_of_inScope same, (SameView.of_inScope same).sameTree_eq, inheritanceTree]

theorem linkGraphStats_of_inScope : linkGraphStats u scope = linkGraphStats u scope' := by
  have view : SameView u u scope scope' := .of_inScope same
  rw [linkGraphStats, classesInScope_of_inScope same, view.linkedPairs_eq, view.lacks_eq, firstMembers,
    classesInScope_of_inScope same, inheritanceTree_of_inScope same, ← firstMembers, ← linkGraphStats]

end SameScope

theorem inScope_of_prefix {packagePrefix target : Bytes} (starts : packagePrefix <+: target) (name : Bytes) :
    Scope.InScope ⟨packagePrefix, target⟩ name ↔ Scope.InScope { packagePrefix } name := by
  simp only [Scope.InScope, ne_eq, not_true_eq_false, false_and, or_false, or_iff_left_iff_imp]
  rintro ⟨-, rfl⟩
  exact starts

/-! ## The project's view -/

theorem filter_records_project (nodup : u.names.Nodup) (packagePrefix name : Bytes) :
    let tree := inheritanceTree u { packagePrefix } name
    ((analyzeHierarchy u { packagePrefix }).records.filter fun record => record.owner ∈ tree) =
      tree.map (treeRecord tree) := by
  intro tree
  have members : ((classesInScope u { packagePrefix }).filter fun other => other ∈ tree) = tree := by
    apply List.filter_congr
    intro other member
    rw [decide_eq_decide, mem_inheritanceTree, and_iff_right member]
  rw [records_project nodup, List.filter_map, Function.comp_def, members, map_treeRecord]

/-- Narrowed to a target, the analysis reports the tree of the target, if it is present and has relatives, and the
records of the members of that tree.  The statistics are still those of the whole link graph.  If the target
starts with the package prefix, its tree is the one that the analysis of the project reports for it, with the same
records, and the statistics are those of the project. -/
theorem analyzeHierarchy_target (classes : List (Option ClassInfo)) (packagePrefix : Bytes) {target : Bytes}
    (narrowed : target ≠ []) :
    let u := Universe.ofList classes
    let scope : Scope := ⟨packagePrefix, target⟩
    let report := analyzeHierarchy u scope
    let project := analyzeHierarchy u { packagePrefix }
    let tree := inheritanceTree u scope target
    report.trees = (if target ∈ u.names ∧ 2 ≤ tree.length then [tree] else []) ∧
    report.records = (if target ∈ u.names ∧ 2 ≤ tree.length then tree.map (treeRecord tree) else []) ∧
    report.stats = linkGraphStats u scope ∧
    (packagePrefix <+: target →
      (project.trees.filter fun tree => target ∈ tree) = (if target ∈ u.names then [tree] else []) ∧
      (project.records.filter fun record => record.owner ∈ tree) = tree.map (treeRecord tree) ∧
      report.stats = project.stats) := by
  intro u scope report project tree
  have nodup : u.names.Nodup := Universe.nodup_names_ofList classes
  refine ⟨trees_target nodup narrowed, records_target nodup narrowed, stats_analyzeHierarchy nodup scope, ?_⟩
  intro starts
  have same := inScope_of_prefix starts
  have whole : tree = inheritanceTree u { packagePrefix } target := congrFun (inheritanceTree_of_inScope same) target
  refine ⟨?_, ?_, ?_⟩
  · have member : target ∈ classesInScope u { packagePrefix } ↔ target ∈ u.names := by
      rw [← classesInScope_of_inScope same]
      exact target_mem_classesInScope narrowed
    rw [whole, trees_project, filter_trees_build nodup]
    simp only [member]
  · rw [whole, filter_records_project nodup]
  · rw [stats_analyzeHierarchy nodup, stats_analyzeHierarchy nodup, linkGraphStats_of_inScope same]

/-- The class `pA`, the interface `xI` of another package that it implements, and the interface `pB` above it. -/
def foreignInterface : List (Option ClassInfo) := [
  some ⟨[0x70, 0x41], [], [[0x78, 0x49]], false, []⟩,
  some ⟨[0x78, 0x49], [], [[0x70, 0x42]], true, []⟩,
  some ⟨[0x70, 0x42], [], [], true, []⟩]

/-- With a target of the project the foreign interface is a bridge, and as the target it is a class of the tree. -/
theorem analyzeHierarchy_target_foreignInterface :
    let u := Universe.ofList foreignInterface
    let own := analyzeHierarchy u ⟨[0x70], [0x70, 0x41]⟩
    let foreign := analyzeHierarchy u ⟨[0x70], [0x78, 0x49]⟩
    let project := analyzeHierarchy u { packagePrefix := [0x70] }
    [0x70, 0x41] ≠ ([] : Bytes) ∧ [0x78, 0x49] ≠ ([] : Bytes) ∧ [0x70] <+: ([0x70, 0x41] : Bytes) ∧
    own.trees = [[[0x70, 0x41], [0x70, 0x42]]] ∧ own.stats = project.stats ∧
    (project.trees.filter fun tree => [0x70, 0x41] ∈ tree) = [[[0x70, 0x41], [0x70, 0x42]]] ∧
    foreign.trees = [[[0x70, 0x41], [0x78, 0x49], [0x70, 0x42]]] := by
  intro u own foreign project
  have up : Extends u [0x70, 0x41] [0x78, 0x49] := ⟨⟨[0x70, 0x41], [], [[0x78, 0x49]], false, []⟩, by decide⟩
  have further : Extends u [0x78, 0x49] [0x70, 0x42] := ⟨⟨[0x78, 0x49], [], [[0x70, 0x42]], true, []⟩, by decide⟩
  have across : Links u ⟨[0x70], [0x70, 0x41]⟩ [0x70, 0x41] [0x70, 0x42] :=
    ⟨by decide, by decide, by decide, by decide +kernel,
      .through (.direct up) ⟨by decide, by decide, by decide +kernel⟩ further⟩
  have below : Links u ⟨[0x70], [0x78, 0x49]⟩ [0x70, 0x41] [0x78, 0x49] :=
    ⟨by decide, by decide, by decide, by decide +kernel, .direct up⟩
  have above : Links u ⟨[0x70], [0x78, 0x49]⟩ [0x78, 0x49] [0x70, 0x42] :=
    ⟨by decide, by decide, by decide, by decide +kernel, .direct further⟩
  have ownTree : inheritanceTree u ⟨[0x70], [0x70, 0x41]⟩ [0x70, 0x41] = [[0x70, 0x41], [0x70, 0x42]] := by
    have inScope : classesInScope u ⟨[0x70], [0x70, 0x41]⟩ = [[0x70, 0x41], [0x70, 0x42]] := by decide
    rw [inheritanceTree, inScope]
    have joined : SameTree u ⟨[0x70], [0x70, 0x41]⟩ [0x70, 0x41] [0x70, 0x42] := .rel _ _ across
    have self : SameTree u ⟨[0x70], [0x70, 0x41]⟩ [0x70, 0x41] [0x70, 0x41] := .refl _
    simp [joined, self]
  have foreignTree : inheritanceTree u ⟨[0x70], [0x78, 0x49]⟩ [0x78, 0x49] =
      [[0x70, 0x41], [0x78, 0x49], [0x70, 0x42]] := by
    have inScope : classesInScope u ⟨[0x70], [0x78, 0x49]⟩ = [[0x70, 0x41], [0x78, 0x49], [0x70, 0x42]] := by decide
    rw [inheritanceTree, inScope]
    have joined : SameTree u ⟨[0x70], [0x78, 0x49]⟩ [0x78, 0x49] [0x70, 0x41] := .symm _ _ (.rel _ _ below)
    have joinedToo : SameTree u ⟨[0x70], [0x78, 0x49]⟩ [0x78, 0x49] [0x70, 0x42] := .rel _ _ above
    have self : SameTree u ⟨[0x70], [0x78, 0x49]⟩ [0x78, 0x49] [0x78, 0x49] := .refl _
    simp [joined, joinedToo, self]
  have narrowed : [0x70, 0x41] ≠ ([] : Bytes) := by decide
  have narrowedToo : [0x78, 0x49] ≠ ([] : Bytes) := by decide
  have starts : [0x70] <+: ([0x70, 0x41] : Bytes) := by decide
  obtain ⟨ownTrees, -, -, asProject⟩ := analyzeHierarchy_target foreignInterface [0x70] narrowed
  obtain ⟨foreignTrees, -, -, -⟩ := analyzeHierarchy_target foreignInterface [0x70] narrowedToo
  obtain ⟨projectTrees, -, stats⟩ := asProject starts
  have present : [0x70, 0x41] ∈ u.names := by decide
  have presentToo : [0x78, 0x49] ∈ u.names := by decide
  rw [ownTree, if_pos ⟨present, by decide⟩] at ownTrees
  rw [foreignTree, if_pos ⟨presentToo, by decide⟩] at foreignTrees
  rw [ownTree, if_pos present] at projectTrees
  exact ⟨narrowed, narrowedToo, starts, ownTrees, stats, projectTrees, foreignTrees⟩

end JvmCoupling
