import JvmCoupling.Proofs.Analysis.HierarchyStatistics
import Mathlib

/-! # The link graph

The links between the classes in scope, taken without their direction, are the edges of a graph.  The statistics of
an analysis are about this graph, although the run never has it as a whole: it draws an edge when a class asks for
it, and merges the numbers of two trees at the same time.

* `linkGraph` — the classes in scope and the links between them;
* `ncard_edgeSet_linkGraph`, `card_components_linkGraph` — its edges and components;
* `Forest.le_trees_add_links_link` — a link is paid for by at most one tree;
* `hierarchyStats_exact` — what each counter counts.
-/

namespace JvmCoupling

variable {u : Universe} {scope : Scope}

/-- The classes in scope, where two of them are adjacent if one is linked to the other. -/
def linkGraph (u : Universe) (scope : Scope) : SimpleGraph {name // name ∈ classesInScope u scope} where
  Adj a b := Links u scope a b ∨ Links u scope b a
  symm := ⟨fun _ _ linked => linked.symm⟩
  loopless := ⟨fun _ linked => linked.elim (fun link => link.ne rfl) fun link => link.ne rfl⟩

/-! ## Edges -/

theorem linkedPairs_eq_image : linkedPairs u scope = Sym2.map Subtype.val '' (linkGraph u scope).edgeSet := by
  ext pair
  constructor
  · rintro ⟨a, b, rfl, link⟩
    exact ⟨s(⟨a, link.child⟩, ⟨b, link.ancestor⟩), .inl link, rfl⟩
  · rintro ⟨edge, drawn, rfl⟩
    induction edge with
    | _ a b =>
      rcases drawn with up | down
      · exact ⟨a, b, rfl, up⟩
      · exact ⟨b, a, Sym2.eq_swap, down⟩

theorem ncard_edgeSet_linkGraph (u : Universe) (scope : Scope) :
    (linkGraph u scope).edgeSet.ncard = (linkedPairs u scope).ncard := by
  rw [linkedPairs_eq_image, Set.ncard_image_of_injective _ (Sym2.map.injective Subtype.val_injective)]

/-! ## Components -/

/-- Two classes are in the same component if they belong to the same tree. -/
theorem reachable_linkGraph {a b : {name // name ∈ classesInScope u scope}} :
    (linkGraph u scope).Reachable a b ↔ SameTree u scope a b := by
  constructor
  · rw [SimpleGraph.reachable_iff_reflTransGen]
    intro reachable
    induction reachable with
    | refl => exact .refl _
    | tail _ last ih =>
      rcases last with up | down
      · exact ih.trans _ _ _ (.rel _ _ up)
      · exact ih.trans _ _ _ (.symm _ _ (.rel _ _ down))
  · intro joined
    -- what can be reached from a class is the same for linked classes
    let reached (name : Bytes) := {c | ∃ present, (linkGraph u scope).Reachable ⟨name, present⟩ c}
    have agrees (x y : Bytes) (link : Links u scope x y) : reached x = reached y := by
      have step : (linkGraph u scope).Adj ⟨x, link.child⟩ ⟨y, link.ancestor⟩ := .inl link
      ext c
      exact ⟨fun ⟨_, ahead⟩ => ⟨link.ancestor, step.symm.reachable.trans ahead⟩,
        fun ⟨_, ahead⟩ => ⟨link.child, step.reachable.trans ahead⟩⟩
    have same : reached a = reached b := eq_of_eqvGen reached agrees joined
    have own : b ∈ reached b := ⟨b.2, .refl b⟩
    obtain ⟨_, reachable⟩ : b ∈ reached a := same ▸ own
    exact reachable

theorem exists_firstMember {name : Bytes} (member : name ∈ classesInScope u scope) :
    ∃ first ∈ firstMembers u scope, SameTree u scope first name := by
  have own : name ∈ inheritanceTree u scope name := mem_inheritanceTree.2 ⟨member, .refl name⟩
  obtain ⟨first, rest, tree⟩ := List.exists_cons_of_ne_nil (List.ne_nil_of_mem own)
  obtain ⟨present, joined⟩ := mem_inheritanceTree.1 (tree ▸ List.mem_cons_self : first ∈ inheritanceTree u scope name)
  have head : (inheritanceTree u scope first).head? = some first := by
    rw [← inheritanceTree_congr joined, tree, List.head?_cons]
  exact ⟨first, mem_firstMembers.2 ⟨present, head⟩, joined.symm⟩

/-- Every component has one class that is the first member of its tree. -/
theorem card_components_linkGraph (nodup : u.names.Nodup) (scope : Scope) :
    Nat.card (linkGraph u scope).ConnectedComponent = (firstMembers u scope).length := by
  have distinct : (firstMembers u scope).Nodup := (nodup_classesInScope nodup scope).filter _
  let component (name : (firstMembers u scope).toFinset) : (linkGraph u scope).ConnectedComponent :=
    (linkGraph u scope).connectedComponentMk ⟨name, (mem_firstMembers.1 (List.mem_toFinset.1 name.2)).1⟩
  have bijective : Function.Bijective component := by
    constructor
    · rintro ⟨a, ha⟩ ⟨b, hb⟩ same
      have joined : SameTree u scope a b := reachable_linkGraph.1 (SimpleGraph.ConnectedComponent.exact same)
      exact Subtype.ext (eq_of_mem_firstMembers (List.mem_toFinset.1 ha) (List.mem_toFinset.1 hb)
        (inheritanceTree_congr joined))
    · intro c
      induction c using SimpleGraph.ConnectedComponent.ind with
      | _ name =>
        obtain ⟨first, listed, joined⟩ := exists_firstMember name.2
        exact ⟨⟨first, List.mem_toFinset.2 listed⟩, SimpleGraph.ConnectedComponent.sound (reachable_linkGraph.2 joined)⟩
  rw [← Nat.card_eq_of_bijective component bijective, Nat.card_eq_fintype_card, Fintype.card_coe,
    List.toFinset_card_of_nodup distinct]

/-! ## Trees and links -/

/-- Putting one number in the place of another takes away at most one of the numbers of a list. -/
theorem length_eraseDups_le_replace (numbers : List Nat) (old new : Nat) :
    numbers.eraseDups.length ≤ (numbers.map fun n => if n = old then new else n).eraseDups.length + 1 := by
  have kept : numbers.eraseDups ⊆ old :: (numbers.map fun n => if n = old then new else n).eraseDups := by
    intro n member
    by_cases replaced : n = old
    · exact replaced ▸ List.mem_cons_self
    · refine List.mem_cons_of_mem _ (List.mem_eraseDups.2 (List.mem_map.2 ⟨n, List.mem_eraseDups.1 member, ?_⟩))
      rw [if_neg replaced]
  exact (List.subperm_of_subset (nodup_eraseDups numbers) kept).length_le

namespace Forest

theorem length_trees (f : Forest Bytes) : f.trees.length = (f.members.map (·.tree)).eraseDups.length := by
  rw [trees, List.length_map, firstSeen_eq_eraseDups]

theorem length_trees_singletons (names : List Bytes) : (singletons names).trees.length = names.length := by
  have numbers : (singletons names).members.map (·.tree) = List.range' 0 names.length := by
    simp [singletons, Function.comp_def, List.zipIdx_map_snd]
  rw [length_trees, numbers, eraseDups_of_nodup List.nodup_range', List.length_range']

/-- A link is paid for by at most one tree. -/
theorem le_trees_add_links_link (child : Bytes) (f : Forest Bytes) (ancestor : Bytes) :
    f.trees.length + f.links.length ≤ (f.link child ancestor).trees.length + (f.link child ancestor).links.length := by
  unfold link
  split
  · next t s _ _ =>
    split
    · exact le_rfl
    · have numbers : (f.members.map fun m => if m.tree = s then { m with tree := t } else m).map (·.tree) =
          (f.members.map (·.tree)).map fun n => if n = s then t else n := by
        simp only [List.map_map]
        apply List.map_congr_left
        intro m _
        simp only [Function.comp_apply]
        split <;> rfl
      have merged := length_eraseDups_le_replace (f.members.map (·.tree)) s t
      rw [length_trees, length_trees, numbers, List.length_cons]
      omega
  · exact le_rfl

theorem le_trees_add_links_linkAncestors (u : Universe) (scope : Scope) (f : Forest Bytes) (name : Bytes) :
    f.trees.length + f.links.length ≤
      (f.linkAncestors u scope name).trees.length + (f.linkAncestors u scope name).links.length :=
  List.foldlRecOn
    (motive := fun g : Forest Bytes => f.trees.length + f.links.length ≤ g.trees.length + g.links.length) _ _
    le_rfl fun g paid ancestor _ => paid.trans (le_trees_add_links_link name g ancestor)

/-- At first every class is a tree, and each link costs at most one. -/
theorem le_trees_add_links_build (u : Universe) (scope : Scope) :
    (classesInScope u scope).length ≤ (build u scope).trees.length + (build u scope).links.length := by
  rw [build, filter_includes]
  refine List.foldlRecOn
    (motive := fun g : Forest Bytes => (classesInScope u scope).length ≤ g.trees.length + g.links.length) _ _ ?_ ?_
  · rw [length_trees_singletons]
    exact Nat.le_add_right _ _
  · intro g paid name _
    exact paid.trans (le_trees_add_links_linkAncestors u scope g name)

end Forest

/-- The trees of a forest have all classes in scope, and each of them once. -/
theorem flatten_trees_build (nodup : u.names.Nodup) (scope : Scope) :
    (Forest.build u scope).trees.flatten.Perm (classesInScope u scope) := by
  obtain ⟨label, members, -⟩ := Forest.exists_label_build nodup scope
  rw [Forest.trees_eq members, ← List.flatMap_def]
  exact flatMap_filter_perm (nodup_classesInScope nodup scope) label

/-- The statistics count what they say.  The edges are those of the link graph: the pairs of classes in scope of which
one is linked to the other.  The absent ancestors are counted once for every class in scope that a way upwards leads
to them from.  The trees are the components of the link graph, also if a target is given; without one, every class
belongs to a tree that is reported.  There are no more classes than trees and edges together. -/
theorem hierarchyStats_exact (classes : List (Option ClassInfo)) (scope : Scope) :
    let u := Universe.ofList classes
    let report := analyzeHierarchy u scope
    report.stats.classes = (classesInScope u scope).length ∧
    report.stats.edges = (linkGraph u scope).edgeSet.ncard ∧
    report.stats.missingAncestors = ((classesInScope u scope).map fun name => {b | Lacks u scope name b}.ncard).sum ∧
    report.stats.trees = Nat.card (linkGraph u scope).ConnectedComponent ∧
    (scope.target = [] → (report.trees.map List.length).sum = report.stats.classes) ∧
    report.stats.classes ≤ report.stats.trees + report.stats.edges := by
  intro u report
  have nodup : u.names.Nodup := Universe.nodup_names_ofList classes
  have stats : report.stats = linkGraphStats u scope := stats_analyzeHierarchy nodup scope
  refine ⟨?_, ?_, ?_, ?_, ?_, ?_⟩
  · rw [stats, linkGraphStats]
  · rw [stats, linkGraphStats, ncard_edgeSet_linkGraph]
  · rw [stats, linkGraphStats]
  · rw [stats, linkGraphStats, card_components_linkGraph nodup]
  · intro project
    obtain ⟨packagePrefix, target⟩ := scope
    obtain rfl : target = [] := project
    rw [stats, linkGraphStats, ← List.length_flatten]
    exact (trees_project u packagePrefix ▸ flatten_trees_build nodup _).length_eq
  · have paid := Forest.le_trees_add_links_build u scope
    rw [← Forest.length_members_build] at paid
    simpa only [report, analyzeHierarchy_eq] using paid

/-- Two classes above each other, one below a foreign class whose own ancestor is absent, and one on its own. -/
def crossedAndForeign : List (Option ClassInfo) := [
  some ⟨[0x61, 0x41], [0x61, 0x42], [], false, []⟩,
  some ⟨[0x61, 0x42], [], [[0x61, 0x41]], true, []⟩,
  some ⟨[0x61, 0x43], [0x44], [], false, []⟩,
  some ⟨[0x44], [0x58], [[0x58]], false, []⟩,
  some ⟨[0x61, 0x45], [], [], false, []⟩]

/-- Four of the classes start with the prefix, and the trees have room for four. -/
theorem hierarchyStats_exact_crossedAndForeign :
    let report := analyzeHierarchy (.ofList crossedAndForeign) { packagePrefix := [0x61] }
    report.stats.classes = 4 ∧ (report.trees.map List.length).sum = 4 ∧
      4 ≤ report.stats.trees + report.stats.edges := by
  intro report
  obtain ⟨classes, -, -, -, sizes, bound⟩ := hierarchyStats_exact crossedAndForeign { packagePrefix := [0x61] }
  have four : report.stats.classes = 4 := classes.trans (by decide)
  exact ⟨four, (sizes rfl).trans four, four ▸ bound⟩

end JvmCoupling
