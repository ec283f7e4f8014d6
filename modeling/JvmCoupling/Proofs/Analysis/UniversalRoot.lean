import JvmCoupling.Proofs.Analysis.HierarchyStatistics

/-! # The universal root joins nothing

Almost every class names the universal root as an ancestor.  No way upwards passes through it, no class is linked
to it, and it does not count as absent when it is.  As long as it has no ancestors of its own, it is alone in its
tree, and all other classes are joined as if it were not there.

* `Universe.without` — a universe less one class;
* `sameView_without` — the links between the other classes do without the universal root;
* `sameTree_root` — it is joined with no other class;
* `analyzeHierarchy_without_universalRoot` — the two analyses.
-/

namespace JvmCoupling

/-! ## Universes without a class -/

namespace Universe

/-- The universe less the class of a name. -/
def without (u : Universe) (name : Bytes) : Universe := ⟨u.classes.filter (·.name ≠ name)⟩

theorem names_without (u : Universe) (name : Bytes) : (u.without name).names = u.names.filter (· ≠ name) := by
  rw [names, names, List.filter_map]
  rfl

theorem mem_names_without {u : Universe} {name x : Bytes} : x ∈ (u.without name).names ↔ x ∈ u.names ∧ x ≠ name := by
  simp [names_without]

theorem nodup_names_without {u : Universe} (nodup : u.names.Nodup) (name : Bytes) : (u.without name).names.Nodup := by
  rw [names_without]
  exact nodup.filter _

theorem accepts_without {u : Universe} {name : Bytes} {c : ClassInfo} (other : c.name ≠ name) :
    (u.without name).accepts (some c) = u.accepts (some c) := by
  have contains : (u.without name).contains c.name = u.contains c.name := by
    rw [Bool.eq_iff_iff, contains_iff, contains_iff, mem_names_without, and_iff_left other]
  rw [accepts, accepts, contains]

theorem without_add (u : Universe) (name : Bytes) (class? : Option ClassInfo) :
    (u.add class?).without name =
      if class?.map (·.name) ≠ some name then (u.without name).add class? else u.without name := by
  cases class? with
  | none => rfl
  | some c =>
    by_cases same : c.name = name
    · -- a class of the name leaves no trace, whether it is accepted or shadowed
      by_cases accepted : u.accepts (some c) = true <;> simp [add, without, same, accepted]
    · simp only [add, accepts_without same, Option.map_some, ne_eq, Option.some.injEq, same, not_false_eq_true, if_true]
      by_cases accepted : u.accepts (some c) = true <;> simp [without, same, accepted]

/-- Leaving out the classes of a name before they are loaded is leaving out the class of that name. -/
theorem without_ofList (classes : List (Option ClassInfo)) (name : Bytes) :
    (ofList classes).without name = ofList (classes.filter fun class? => class?.map (·.name) ≠ some name) := by
  induction classes using List.reverseRecOn with
  | nil => rfl
  | append_singleton classes class? ih =>
    have step : ofList (classes ++ [class?]) = (ofList classes).add class? := by simp [ofList, List.foldl_append]
    rw [step, without_add, ih, List.filter_append]
    split
    · next kept =>
      rw [List.filter_cons_of_pos (by simpa using kept)]
      simp [ofList, List.foldl_append]
    · next dropped =>
      rw [List.filter_cons_of_neg (by simpa using dropped), List.filter_nil, List.append_nil]

end Universe

theorem classesInScope_without (u : Universe) (name : Bytes) (scope : Scope) :
    classesInScope (u.without name) scope = (classesInScope u scope).filter (· ≠ name) := by
  rw [classesInScope, Universe.names_without, classesInScope, List.filter_comm]

/-! ## Links without the universal root -/

section Bare

variable {u : Universe} {scope : Scope} {a b : Bytes} (bare : ∀ b, ¬ Extends u universalRoot b)

include bare

theorem sameView_without : SameView (u.without universalRoot) u scope scope where
  steps := by
    intro a b
    constructor
    · rintro ⟨c, member, named, ancestor⟩
      exact ⟨c, (List.mem_filter.1 member).1, named, ancestor⟩
    · rintro ⟨c, member, rfl, ancestor⟩
      have other : c.name ≠ universalRoot := fun root => bare b ⟨c, member, root, ancestor⟩
      exact ⟨c, List.mem_filter.2 ⟨member, by simpa using other⟩, rfl, ancestor⟩
  names := by
    intro x ne_root
    rw [Universe.mem_names_without, and_iff_left ne_root]
  inScope := .rfl

theorem ne_root_of_ascends (ascends : Ascends u scope a b) : a ≠ universalRoot :=
  (Universe.mem_names_without.1 ((sameView_without bare).symm.ascends ascends).mem_names).2

theorem sameTree_root (joined : SameTree u scope a b) : a = universalRoot ↔ b = universalRoot := by
  refine iff_of_eq (eq_of_eqvGen (· = universalRoot) (fun x y link => ?_) joined)
  exact propext (iff_of_false (ne_root_of_ascends bare link.ascends) link.ne_root)

/-! ## Trees without the universal root -/

theorem mem_inheritanceTree_root (child : a ∈ classesInScope u scope) :
    universalRoot ∈ inheritanceTree u scope a ↔ a = universalRoot := by
  rw [mem_inheritanceTree]
  constructor
  · rintro ⟨-, joined⟩
    exact (sameTree_root bare joined).2 rfl
  · rintro rfl
    exact ⟨child, .refl _⟩

theorem inheritanceTree_root (nodup : u.names.Nodup) (child : universalRoot ∈ classesInScope u scope) :
    inheritanceTree u scope universalRoot = [universalRoot] := by
  have distinct : (inheritanceTree u scope universalRoot).Nodup := (nodup_classesInScope nodup scope).filter _
  rw [← List.perm_singleton, List.perm_ext_iff_of_nodup distinct (List.nodup_singleton _)]
  intro name
  rw [mem_inheritanceTree, List.mem_singleton]
  constructor
  · rintro ⟨-, joined⟩
    exact (sameTree_root bare joined).1 rfl
  · rintro rfl
    exact ⟨child, .refl _⟩

theorem inheritanceTree_without (other : a ≠ universalRoot) :
    inheritanceTree (u.without universalRoot) scope a = inheritanceTree u scope a := by
  classical
  rw [inheritanceTree, (sameView_without bare).sameTree_eq, classesInScope_without, List.filter_filter, inheritanceTree]
  apply List.filter_congr
  intro name _
  rw [Bool.eq_iff_iff, Bool.and_eq_true, decide_eq_true_eq, decide_eq_true_eq, and_iff_left_iff_imp]
  exact fun joined root => other ((sameTree_root bare joined).2 root)

theorem firstMembers_without :
    firstMembers (u.without universalRoot) scope = (firstMembers u scope).filter (· ≠ universalRoot) := by
  rw [firstMembers, firstMembers, classesInScope_without, List.filter_filter, List.filter_filter]
  apply List.filter_congr
  intro name _
  by_cases root : name = universalRoot
  · simp [root]
  · rw [inheritanceTree_without bare root, Bool.and_comm]

theorem filter_firstMembers_root (nodup : u.names.Nodup) :
    (firstMembers u scope).filter (· = universalRoot) = (classesInScope u scope).filter (· = universalRoot) := by
  rw [firstMembers, List.filter_filter]
  apply List.filter_congr
  intro name member
  by_cases root : name = universalRoot
  · subst root
    simp [inheritanceTree_root bare nodup member]
  · simp [root]

/-- The trees of the other classes, in their order. -/
theorem filter_trees_without (nodup : u.names.Nodup) :
    (Forest.build u scope).trees.filter (fun tree => universalRoot ∉ tree) =
      (Forest.build (u.without universalRoot) scope).trees := by
  have others : ((firstMembers u scope).filter fun name => universalRoot ∉ inheritanceTree u scope name) =
      (firstMembers u scope).filter (· ≠ universalRoot) := by
    apply List.filter_congr
    intro name first
    rw [decide_eq_decide, mem_inheritanceTree_root bare (List.mem_filter.1 first).1]
  rw [trees_build nodup, trees_build (Universe.nodup_names_without nodup universalRoot), firstMembers_without bare,
    List.filter_map, Function.comp_def, others]
  apply List.map_congr_left
  intro name other
  have other : name ≠ universalRoot := by simpa using (List.mem_filter.1 other).2
  rw [inheritanceTree_without bare other]

theorem filter_trees_root (nodup : u.names.Nodup) :
    (Forest.build u scope).trees.filter (fun tree => universalRoot ∈ tree) =
      ((classesInScope u scope).filter (· = universalRoot)).map fun name => [name] := by
  rw [filter_trees_build nodup, List.filter_eq, (nodup_classesInScope nodup scope).count]
  split
  · next member =>
    rw [inheritanceTree_root bare nodup member]
    rfl
  · rfl

/-- The universal root lacks nothing, and nothing lacks it. -/
theorem sum_lacks_without :
    ((classesInScope (u.without universalRoot) scope).map fun name =>
      {b | Lacks (u.without universalRoot) scope name b}.ncard).sum =
    ((classesInScope u scope).map fun name => {b | Lacks u scope name b}.ncard).sum := by
  have nothing : {b | Lacks u scope universalRoot b}.ncard = 0 := by
    have none : {b | Lacks u scope universalRoot b} = ∅ :=
      Set.eq_empty_of_forall_notMem fun b lacks => ne_root_of_ascends bare lacks.ascends rfl
    rw [none, Set.ncard_empty]
  rw [(sameView_without bare).lacks_eq, classesInScope_without]
  -- wherever the universal root stands among the classes, it adds nothing
  induction classesInScope u scope with
  | nil => rfl
  | cons name names ih =>
    by_cases root : name = universalRoot
    · subst root
      rw [List.filter_cons_of_neg (by simp), ih, List.map_cons, List.sum_cons, nothing, Nat.zero_add]
    · rw [List.filter_cons_of_pos (by simpa using root), List.map_cons, List.sum_cons, ih, List.map_cons, List.sum_cons]

/-! ## Reports of a project -/

variable (nodup : u.names.Nodup) (packagePrefix : Bytes)

include nodup

theorem filter_records_without :
    ((analyzeHierarchy u { packagePrefix }).records.filter fun record => record.owner ≠ universalRoot) =
      (analyzeHierarchy (u.without universalRoot) { packagePrefix }).records := by
  rw [records_project nodup, records_project (Universe.nodup_names_without nodup universalRoot),
    classesInScope_without, List.filter_map]
  apply List.map_congr_left
  intro name other
  have other : name ≠ universalRoot := by simpa using (List.mem_filter.1 other).2
  rw [inheritanceTree_without bare other]

theorem filter_records_root :
    ((analyzeHierarchy u { packagePrefix }).records.filter fun record => record.owner = universalRoot) =
      ((classesInScope u { packagePrefix }).filter (· = universalRoot)).map fun name => ⟨name, []⟩ := by
  rw [records_project nodup, List.filter_map]
  apply List.map_congr_left
  intro name own
  obtain ⟨member, root⟩ := List.mem_filter.1 own
  obtain rfl : name = universalRoot := by simpa using root
  rw [inheritanceTree_root bare nodup member]
  simp

theorem stats_without (scope : Scope) :
    let stats := (analyzeHierarchy u scope).stats
    let rootless := (analyzeHierarchy (u.without universalRoot) scope).stats
    let root := (classesInScope u scope).filter (· = universalRoot)
    stats.edges = rootless.edges ∧ stats.missingAncestors = rootless.missingAncestors ∧
    stats.classes = rootless.classes + root.length ∧ stats.trees = rootless.trees + root.length := by
  intro stats rootless root
  have parts (names : List Bytes) :
      names.length = (names.filter (· ≠ universalRoot)).length + (names.filter (· = universalRoot)).length := by
    rw [List.length_eq_length_filter_add (· = universalRoot), Nat.add_comm]
    simp
  have graph : stats = linkGraphStats u scope := stats_analyzeHierarchy nodup scope
  have graph' : rootless = linkGraphStats (u.without universalRoot) scope :=
    stats_analyzeHierarchy (Universe.nodup_names_without nodup universalRoot) scope
  rw [graph, graph']
  refine ⟨?_, (sum_lacks_without bare).symm, ?_, ?_⟩
  · rw [linkGraphStats, linkGraphStats, (sameView_without bare).linkedPairs_eq]
  · simp only [linkGraphStats, classesInScope_without]
    exact parts _
  · simp only [linkGraphStats, firstMembers_without bare, root, ← filter_firstMembers_root bare nodup]
    exact parts _

end Bare

/-- A universe with and without the universal root, which has no superclass and no interfaces.  The two analyses
give all other classes the same trees and records in the same order, and they count the same links and the same
absent ancestors.  The universal root, if it is present and in scope, adds a tree of its own and a record without
coupled classes. -/
theorem analyzeHierarchy_without_universalRoot (classes : List (Option ClassInfo)) (packagePrefix : Bytes)
    (bare : ∀ c, (Universe.ofList classes).find? universalRoot = some c → c.superclass = [] ∧ c.interfaces = []) :
    let u := Universe.ofList classes
    let report := analyzeHierarchy u { packagePrefix }
    let rootless := analyzeHierarchy
      (.ofList (classes.filter fun class? => class?.map (·.name) ≠ some universalRoot)) { packagePrefix }
    let root := if universalRoot ∈ u.names ∧ packagePrefix <+: universalRoot then [universalRoot] else []
    (report.trees.filter fun tree => universalRoot ∉ tree) = rootless.trees ∧
    (report.trees.filter fun tree => universalRoot ∈ tree) = root.map (fun name => [name]) ∧
    (report.records.filter fun record => record.owner ≠ universalRoot) = rootless.records ∧
    (report.records.filter fun record => record.owner = universalRoot) = root.map (fun name => ⟨name, []⟩) ∧
    report.stats.edges = rootless.stats.edges ∧ report.stats.missingAncestors = rootless.stats.missingAncestors ∧
    report.stats.classes = rootless.stats.classes + root.length ∧
    report.stats.trees = rootless.stats.trees + root.length := by
  intro u report rootless root
  have nodup : u.names.Nodup := Universe.nodup_names_ofList classes
  have bare : ∀ b, ¬ Extends u universalRoot b := by
    rintro b ⟨c, member, named, ancestor⟩
    obtain ⟨superclass, interfaces⟩ := bare c ((Universe.find?_eq_some nodup).2 ⟨member, named⟩)
    rcases ancestor with ⟨rfl, extended⟩ | implemented
    · exact extended superclass
    · rw [interfaces] at implemented
      exact List.not_mem_nil implemented
  have rootless_eq : rootless = analyzeHierarchy (u.without universalRoot) { packagePrefix } := by
    rw [Universe.without_ofList]
  have present : universalRoot ∈ classesInScope u { packagePrefix } ↔
      universalRoot ∈ u.names ∧ packagePrefix <+: universalRoot := by
    simp [mem_classesInScope, Scope.InScope]
  have own : (classesInScope u { packagePrefix }).filter (· = universalRoot) = root := by
    rw [List.filter_eq, (nodup_classesInScope nodup _).count]
    simp only [present, root]
    split <;> rfl
  rw [rootless_eq, ← own]
  refine ⟨?_, ?_, filter_records_without bare nodup packagePrefix, filter_records_root bare nodup packagePrefix,
    stats_without bare nodup _⟩
  · rw [trees_project, trees_project, filter_trees_without bare nodup]
  · rw [trees_project, filter_trees_root bare nodup]

/-- The universal root between `jA` and its foreign superclass `xM`, which extends it and implements `jB`. -/
def rootAboveBridge : List (Option ClassInfo) := [
  some ⟨[0x6A, 0x41], [0x78, 0x4D], [], false, []⟩,
  some ⟨universalRoot, [], [], false, []⟩,
  some ⟨[0x78, 0x4D], universalRoot, [[0x6A, 0x42]], false, []⟩,
  some ⟨[0x6A, 0x42], universalRoot, [], true, []⟩]

theorem analyzeHierarchy_without_universalRoot_aboveBridge :
    let u := Universe.ofList rootAboveBridge
    let report := analyzeHierarchy u { packagePrefix := [0x6A] }
    let rootless := analyzeHierarchy
      (.ofList (rootAboveBridge.filter fun class? => class?.map (·.name) ≠ some universalRoot))
        { packagePrefix := [0x6A] }
    u.find? universalRoot = some ⟨universalRoot, [], [], false, []⟩ ∧
    (report.trees.filter fun tree => universalRoot ∉ tree) = rootless.trees ∧
    (report.trees.filter fun tree => universalRoot ∈ tree) = [[universalRoot]] ∧
    (report.records.filter fun record => record.owner ≠ universalRoot) = rootless.records ∧
    (report.records.filter fun record => record.owner = universalRoot) = [⟨universalRoot, []⟩] ∧
    report.stats.edges = rootless.stats.edges ∧ report.stats.missingAncestors = rootless.stats.missingAncestors := by
  intro u report rootless
  have found : u.find? universalRoot = some ⟨universalRoot, [], [], false, []⟩ := by decide +kernel
  have bare : ∀ c, u.find? universalRoot = some c → c.superclass = [] ∧ c.interfaces = [] := by
    intro c foundToo
    obtain rfl := Option.some.inj (found.symm.trans foundToo)
    exact ⟨rfl, rfl⟩
  have inScope : universalRoot ∈ u.names ∧ [0x6A] <+: universalRoot := by decide +kernel
  obtain ⟨trees, rootTree, records, rootRecord, edges, missing, -, -⟩ :=
    analyzeHierarchy_without_universalRoot rootAboveBridge [0x6A] bare
  rw [if_pos inScope] at rootTree rootRecord
  exact ⟨found, trees, rootTree, records, rootRecord, edges, missing⟩

end JvmCoupling
