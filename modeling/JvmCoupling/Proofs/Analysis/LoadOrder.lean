import JvmCoupling.Proofs.Analysis.CallStatistics
import JvmCoupling.Proofs.Analysis.HierarchyStatistics

/-! # Load order

Both analyses list what they find in the order in which they come by it, and that order follows the order in
which the classes were loaded.  What they find does not depend on it: the same classes in another order give
the same couplings, the same trees and the same statistics.

* `couplings_perm` — the same pairs, as often;
* `sameView_of_perm` — the same ways upwards and the same links;
* `trees_perm`, `records_perm` — the same reports up to order.
-/

namespace JvmCoupling

theorem eraseDups_perm {α : Type} [BEq α] [LawfulBEq α] {xs ys : List α} (perm : xs.Perm ys) :
    xs.eraseDups.Perm ys.eraseDups := by
  refine (List.perm_ext_iff_of_nodup (nodup_eraseDups xs) (nodup_eraseDups ys)).2 fun x => ?_
  rw [List.mem_eraseDups, List.mem_eraseDups, perm.mem_iff]

section Permuted

variable {u v : Universe} (perm : u.classes.Perm v.classes)

include perm

theorem classesInScope_perm (scope : Scope) : (classesInScope u scope).Perm (classesInScope v scope) :=
  (perm.map _).filter _

/-! ## Calls -/

theorem callEdges_perm (scope : Scope) : (callEdges u scope).Perm (callEdges v scope) :=
  eraseDups_perm (perm.flatMap_right _)

theorem couplings_perm (scope : Scope) (direction : Direction) :
    (couplings u scope direction).Perm (couplings v scope direction) :=
  (callEdges_perm perm scope).flatMap_right _

theorem couples_of_perm (scope : Scope) (direction : Direction) {owner other : Bytes} {calls : Int} :
    (analyzeCalls u scope direction).Couples owner other calls ↔
      (analyzeCalls v scope direction).Couples owner other calls := by
  rw [couples_analyzeCalls, couples_analyzeCalls, (couplings_perm perm scope direction).mem_iff,
    (couplings_perm perm scope direction).count_eq]

theorem callStats_of_perm (scope : Scope) (direction : Direction) :
    (analyzeCalls u scope direction).stats = (analyzeCalls v scope direction).stats := by
  have unresolved : ((scopedClasses u scope).flatMap ClassInfo.unresolvedSites).Perm
      ((scopedClasses v scope).flatMap ClassInfo.unresolvedSites) := (perm.filter _).flatMap_right _
  have coupled : (coupledClasses u scope direction).Perm (coupledClasses v scope direction) :=
    eraseDups_perm ((couplings_perm perm scope direction).flatMap_right _)
  rw [stats_analyzeCalls, stats_analyzeCalls, (classesInScope_perm perm scope).length_eq,
    (callEdges_perm perm scope).length_eq, unresolved.length_eq, coupled.length_eq]

/-! ## Ways upwards -/

theorem nodup_names_of_perm (nodup : u.names.Nodup) : v.names.Nodup := (perm.map _).nodup_iff.1 nodup

theorem sameView_of_perm (scope : Scope) : SameView u v scope scope where
  steps := by
    intro a b
    simp only [Extends, perm.mem_iff]
  names _ := (perm.map _).mem_iff
  inScope := .rfl

/-! ## Trees -/

theorem inheritanceTree_perm (scope : Scope) (name : Bytes) :
    (inheritanceTree u scope name).Perm (inheritanceTree v scope name) := by
  unfold inheritanceTree
  rw [(sameView_of_perm perm scope).sameTree_eq]
  exact (classesInScope_perm perm scope).filter _

end Permuted

theorem reportsTree_of_perm (scope : Scope) {tree tree' : List Bytes} (perm : tree.Perm tree') :
    reportsTree scope tree = reportsTree scope tree' := by
  have contains : tree.contains scope.target = tree'.contains scope.target := by
    rw [Bool.eq_iff_iff, List.contains_iff_mem, List.contains_iff_mem, perm.mem_iff]
  rw [reportsTree, contains, perm.length_eq, reportsTree]

/-- No two trees of a forest have the same members. -/
theorem nodup_map_toFinset_trees {u : Universe} (nodup : u.names.Nodup) (scope : Scope) :
    ((Forest.build u scope).trees.map List.toFinset).Nodup := by
  rw [trees_build nodup, List.map_map]
  refine List.Nodup.map_on ?_ ((nodup_classesInScope nodup scope).filter _)
  intro a ha b hb same
  obtain ⟨aInScope, -⟩ := mem_firstMembers.1 ha
  -- trees with the same members are the same, and so are their first members
  have own : a ∈ (inheritanceTree u scope a).toFinset := List.mem_toFinset.2 (mem_inheritanceTree.2 ⟨aInScope, .refl a⟩)
  have joined : SameTree u scope b a := by
    rw [show (inheritanceTree u scope a).toFinset = (inheritanceTree u scope b).toFinset from same] at own
    exact (mem_inheritanceTree.1 (List.mem_toFinset.1 own)).2
  exact eq_of_mem_firstMembers ha hb (inheritanceTree_congr joined).symm

section Permuted

variable {u v : Universe} (perm : u.classes.Perm v.classes) (nodup : u.names.Nodup)

include perm nodup

/-- The trees of one kind are the same sets of classes, for a kind that does not depend on the order of the
members. -/
theorem trees_perm (scope : Scope) (keeps : List Bytes → Bool)
    (orderless : ∀ {tree tree' : List Bytes}, tree.Perm tree' → keeps tree = keeps tree') :
    (((Forest.build u scope).trees.filter keeps).map List.toFinset).Perm
      (((Forest.build v scope).trees.filter keeps).map List.toFinset) := by
  have nodup' := nodup_names_of_perm perm nodup
  have distinct {w : Universe} (nodup : w.names.Nodup) :
      (((Forest.build w scope).trees.filter keeps).map List.toFinset).Nodup :=
    (nodup_map_toFinset_trees nodup scope).sublist (List.filter_sublist.map _)
  refine (List.perm_ext_iff_of_nodup (distinct nodup) (distinct nodup')).2 fun members => ?_
  simp only [List.mem_map, List.mem_filter, mem_trees_build nodup, mem_trees_build nodup']
  constructor
  · rintro ⟨-, ⟨⟨name, member, rfl⟩, kept⟩, rfl⟩
    have tree := inheritanceTree_perm perm scope name
    exact ⟨_, ⟨⟨name, (classesInScope_perm perm scope).mem_iff.1 member, rfl⟩, (orderless tree).symm.trans kept⟩,
      (List.toFinset_eq_of_perm _ _ tree).symm⟩
  · rintro ⟨-, ⟨⟨name, member, rfl⟩, kept⟩, rfl⟩
    have tree := inheritanceTree_perm perm scope name
    exact ⟨_, ⟨⟨name, (classesInScope_perm perm scope).mem_iff.2 member, rfl⟩, (orderless tree).trans kept⟩,
      List.toFinset_eq_of_perm _ _ tree⟩

theorem records_perm (scope : Scope) :
    ((analyzeHierarchy u scope).records.map fun r => (r.owner, r.coupled.toFinset)).Perm
      ((analyzeHierarchy v scope).records.map fun r => (r.owner, r.coupled.toFinset)) := by
  have tree := inheritanceTree_perm perm scope
  have coupled (name : Bytes) : ((inheritanceTree u scope name).filter (· ≠ name)).toFinset =
      ((inheritanceTree v scope name).filter (· ≠ name)).toFinset :=
    List.toFinset_eq_of_perm _ _ ((tree name).filter _)
  rw [records_analyzeHierarchy nodup, records_analyzeHierarchy (nodup_names_of_perm perm nodup), List.map_map,
    List.map_map]
  simp only [Function.comp_def, coupled, fun name => reportsTree_of_perm scope (tree name)]
  exact ((classesInScope_perm perm scope).filter _).map _

theorem hierarchyStats_of_perm (scope : Scope) :
    (analyzeHierarchy u scope).stats = (analyzeHierarchy v scope).stats := by
  have nodup' := nodup_names_of_perm perm nodup
  have view := sameView_of_perm perm scope
  have classes := classesInScope_perm perm scope
  have trees := trees_perm perm nodup scope (fun _ => true) fun _ => rfl
  have treeCount : (firstMembers u scope).length = (firstMembers v scope).length := by
    simpa [trees_build nodup, trees_build nodup'] using trees.length_eq
  rw [stats_analyzeHierarchy nodup, stats_analyzeHierarchy nodup', linkGraphStats, linkGraphStats, classes.length_eq,
    view.linkedPairs_eq, view.lacks_eq, (classes.map _).sum_eq, treeCount]

end Permuted

/-- What the analyses find does not depend on the order in which classes were loaded.  Both orders give the same
couplings with the same numbers of calls, the same trees as sets of classes, the same set of coupled classes for
every class, and the same statistics. -/
theorem analyses_of_loadOrder {classes reordered : List ClassInfo} (perm : classes.Perm reordered)
    (distinct : (classes.map (·.name)).Nodup) (named : ∀ c ∈ classes, c.name ≠ []) (scope : Scope)
    (direction : Direction) :
    let u := Universe.ofList (classes.map some)
    let v := Universe.ofList (reordered.map some)
    (∀ owner other calls, (analyzeCalls u scope direction).Couples owner other calls ↔
      (analyzeCalls v scope direction).Couples owner other calls) ∧
    (analyzeCalls u scope direction).stats = (analyzeCalls v scope direction).stats ∧
    ((analyzeHierarchy u scope).trees.map List.toFinset).Perm ((analyzeHierarchy v scope).trees.map List.toFinset) ∧
    ((analyzeHierarchy u scope).records.map fun r => (r.owner, r.coupled.toFinset)).Perm
      ((analyzeHierarchy v scope).records.map fun r => (r.owner, r.coupled.toFinset)) ∧
    (analyzeHierarchy u scope).stats = (analyzeHierarchy v scope).stats := by
  intro u v
  have loaded : u.classes = classes := Universe.classes_ofList_of_nodup distinct named
  have loaded' : v.classes = reordered := Universe.classes_ofList_of_nodup ((perm.map _).nodup_iff.1 distinct)
    fun c member => named c (perm.mem_iff.2 member)
  have perm : u.classes.Perm v.classes := by rwa [loaded, loaded']
  have nodup : u.names.Nodup := Universe.nodup_names_ofList _
  refine ⟨fun _ _ _ => couples_of_perm perm scope direction, callStats_of_perm perm scope direction, ?_,
    records_perm perm nodup scope, hierarchyStats_of_perm perm nodup scope⟩
  rw [trees_analyzeHierarchy, trees_analyzeHierarchy]
  exact trees_perm perm nodup scope _ (reportsTree_of_perm scope)

/-- A class that calls its superclass and something unknown. -/
def callingSubclass : ClassInfo := ⟨[0x41], [0x42], [], false, [⟨[0x66], [], [⟨[0x42], [0x6D]⟩, ⟨[], [0x78]⟩]⟩]⟩

/-- The superclass, which calls back and whose own superclass is absent. -/
def calledSuperclass : ClassInfo := ⟨[0x42], [0x43], [], false, [⟨[0x6D], [], [⟨[0x41], [0x66]⟩]⟩]⟩

theorem analyses_of_loadOrder_callingSubclass :
    let first := Universe.ofList ([callingSubclass, calledSuperclass].map some)
    let last := Universe.ofList ([calledSuperclass, callingSubclass].map some)
    [callingSubclass, calledSuperclass].Perm [calledSuperclass, callingSubclass] ∧
    ([callingSubclass, calledSuperclass].map (·.name)).Nodup ∧
    (∀ c ∈ [callingSubclass, calledSuperclass], c.name ≠ []) ∧
    (analyzeCalls first {} .both).records ≠ (analyzeCalls last {} .both).records ∧
    (analyzeCalls first {} .both).stats = (analyzeCalls last {} .both).stats ∧
    (analyzeHierarchy first {}).stats = (analyzeHierarchy last {}).stats := by
  intro first last
  have perm : [callingSubclass, calledSuperclass].Perm [calledSuperclass, callingSubclass] := .swap _ _ _
  have distinct : ([callingSubclass, calledSuperclass].map (·.name)).Nodup := by decide
  have named : ∀ c ∈ [callingSubclass, calledSuperclass], c.name ≠ [] := by decide
  obtain ⟨-, calls, -, -, hierarchy⟩ := analyses_of_loadOrder perm distinct named {} .both
  exact ⟨perm, distinct, named, by decide, calls, hierarchy⟩

end JvmCoupling
