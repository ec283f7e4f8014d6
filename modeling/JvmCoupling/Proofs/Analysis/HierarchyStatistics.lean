import JvmCoupling.Proofs.Analysis.HierarchyTrees
import Mathlib

/-! # Hierarchy statistics

A link between two classes is counted once, by the class that is walked first; when the other class asks for
the same link, the forest has it already.  The links of a finished forest are therefore the unordered pairs of
classes of which one is linked to the other.  The references to absent ancestors add up class by class.

* `Forest.edges` — the links of a forest as unordered pairs;
* `Forest.Draws` — the edges after the links of a list have been asked for;
* `edges_build`, `missing_build` — the counters of a run;
* `Lacks`, `linkedPairs` — what the counters count, said without a run;
* `stats_analyzeHierarchy` — the statistics are those of the link graph.
-/

namespace JvmCoupling

namespace Forest

variable {names : List Bytes} {requests : List (Bytes × Bytes)} {f : Forest Bytes} {child ancestor : Bytes}

/-- The links of a forest without their direction. -/
def edges (f : Forest Bytes) : List (Sym2 Bytes) := f.links.map fun link => s(link.1, link.2)

theorem linked_iff {a b : Bytes} : f.linked a b = true ↔ s(a, b) ∈ f.edges := by
  simp only [linked, edges, Bool.or_eq_true, List.contains_iff_mem, List.mem_map, Sym2.eq_iff, Prod.exists]
  constructor
  · rintro (up | down)
    · exact ⟨a, b, up, .inl ⟨rfl, rfl⟩⟩
    · exact ⟨b, a, down, .inr ⟨rfl, rfl⟩⟩
  · rintro ⟨x, y, link, ⟨rfl, rfl⟩ | ⟨rfl, rfl⟩⟩
    · exact .inl link
    · exact .inr link

theorem treeOf?_of_mem {name : Bytes} (member : name ∈ f.members.map (·.key)) : ∃ tree, f.treeOf? name = some tree := by
  obtain ⟨m, listed, rfl⟩ := List.mem_map.1 member
  have found : (f.members.find? (·.key = m.key)).isSome := List.find?_isSome.2 ⟨m, listed, by simp⟩
  obtain ⟨found, search⟩ := Option.isSome_iff_exists.1 found
  exact ⟨found.tree, by rw [treeOf?, search, Option.map_some]⟩

theorem map_key_link (child : Bytes) (f : Forest Bytes) (ancestor : Bytes) :
    (f.link child ancestor).members.map (·.key) = f.members.map (·.key) := by
  unfold link
  split
  · split
    · rfl
    · rw [List.map_map]
      apply List.map_congr_left
      intro m _
      simp only [Function.comp_apply]
      split <;> rfl
  · rfl

theorem map_key_linkAncestors (u : Universe) (scope : Scope) (f : Forest Bytes) (name : Bytes) :
    (f.linkAncestors u scope name).members.map (·.key) = f.members.map (·.key) :=
  List.foldlRecOn (motive := fun g : Forest Bytes => g.members.map (·.key) = f.members.map (·.key)) _ _ rfl
    fun g same ancestor _ => (map_key_link name g ancestor).trans same

theorem map_key_build (u : Universe) (scope : Scope) :
    (build u scope).members.map (·.key) = classesInScope u scope := by
  rw [build, filter_includes]
  refine List.foldlRecOn (motive := fun g : Forest Bytes => g.members.map (·.key) = classesInScope u scope) _ _ ?_ ?_
  · simp [singletons, Function.comp_def]
  · intro g same name _
    rw [map_key_linkAncestors, same]

theorem length_members_build (u : Universe) (scope : Scope) :
    (build u scope).members.length = (classesInScope u scope).length := by
  rw [← map_key_build, List.length_map]

/-- What a request to link two members does to the links: a new pair of different classes is added. -/
theorem link_cases (hc : child ∈ f.members.map (·.key)) (ha : ancestor ∈ f.members.map (·.key)) :
    (f.link child ancestor = f ∧ (child = ancestor ∨ s(child, ancestor) ∈ f.edges)) ∨
    ((f.link child ancestor).members.map (·.key) = f.members.map (·.key) ∧
      (f.link child ancestor).edges = s(child, ancestor) :: f.edges ∧
      child ≠ ancestor ∧ s(child, ancestor) ∉ f.edges) := by
  obtain ⟨t, childTree⟩ := treeOf?_of_mem hc
  obtain ⟨s, ancestorTree⟩ := treeOf?_of_mem ha
  have members := map_key_link child f ancestor
  revert members
  unfold link
  simp only [childTree, ancestorTree]
  split
  · next known =>
    rw [Bool.or_eq_true, decide_eq_true_eq, linked_iff] at known
    exact fun _ => .inl ⟨rfl, known⟩
  · next new =>
    rw [Bool.or_eq_true, decide_eq_true_eq, linked_iff, not_or] at new
    exact fun members => .inr ⟨members, rfl, new⟩

/-- The forest over `names` after the requests of a list to link two classes: its edges are the unordered pairs
of different classes that were asked for, each of them once. -/
structure Draws (names : List Bytes) (requests : List (Bytes × Bytes)) (f : Forest Bytes) : Prop where
  members : f.members.map (·.key) = names
  nodup : f.edges.Nodup
  mem_iff : ∀ a b, s(a, b) ∈ f.edges ↔ a ≠ b ∧ ((a, b) ∈ requests ∨ (b, a) ∈ requests)

theorem draws_singletons : Draws names [] (singletons names) where
  members := by simp [singletons, Function.comp_def]
  nodup := by simp [singletons, edges]
  mem_iff := by simp [singletons, edges]

theorem Draws.link (draws : Draws names requests f) (hc : child ∈ names) (ha : ancestor ∈ names) :
    Draws names (requests ++ [(child, ancestor)]) (f.link child ancestor) := by
  have asked (a b : Bytes) : (a, b) ∈ requests ++ [(child, ancestor)] ∨ (b, a) ∈ requests ++ [(child, ancestor)] ↔
      ((a, b) ∈ requests ∨ (b, a) ∈ requests) ∨ s(a, b) = s(child, ancestor) := by
    simp only [List.mem_append, List.mem_singleton, Prod.mk.injEq, Sym2.eq_iff]
    tauto
  rw [← draws.members] at hc ha
  rcases link_cases hc ha with ⟨same, known⟩ | ⟨members, edges, different, new⟩
  · refine ⟨by rw [same, draws.members], by rw [same]; exact draws.nodup, fun a b => ?_⟩
    rw [same, asked, draws.mem_iff]
    constructor
    · rintro ⟨ne, requested⟩
      exact ⟨ne, .inl requested⟩
    · rintro ⟨ne, requested | pair⟩
      · exact ⟨ne, requested⟩
      · -- the pair is no pair of different classes, or an edge already
        rcases known with rfl | edge
        · obtain ⟨rfl, rfl⟩ | ⟨rfl, rfl⟩ := Sym2.eq_iff.1 pair <;> exact absurd rfl ne
        · exact (draws.mem_iff a b).1 (pair ▸ edge)
  · refine ⟨by rw [members, draws.members], by rw [edges]; exact draws.nodup.cons new, fun a b => ?_⟩
    rw [edges, asked, List.mem_cons, draws.mem_iff]
    constructor
    · rintro (pair | ⟨ne, requested⟩)
      · refine ⟨?_, .inr pair⟩
        rintro rfl
        obtain ⟨rfl, rfl⟩ | ⟨rfl, rfl⟩ := Sym2.eq_iff.1 pair <;> exact different rfl
      · exact ⟨ne, .inl requested⟩
    · rintro ⟨ne, requested | pair⟩
      · exact .inr ⟨ne, requested⟩
      · exact .inl pair

variable {u : Universe} {scope : Scope}

theorem Draws.linkAncestors (draws : Draws names requests f) (hc : child ∈ names)
    (found : ∀ ancestor ∈ (nearestAncestors u scope child).found, ancestor ∈ names) :
    Draws names (requests ++ (nearestAncestors u scope child).found.flatMap fun ancestor => [(child, ancestor)])
      (f.linkAncestors u scope child) := by
  have counted : Draws names requests { f with missing := f.missing + (nearestAncestors u scope child).missing } :=
    ⟨draws.members, draws.nodup, draws.mem_iff⟩
  exact foldl_flatMap (fun ancestor member _ _ draws => draws.link hc (found ancestor member)) counted

theorem draws_build (nodup : u.names.Nodup) (scope : Scope) :
    Draws (classesInScope u scope) (requested u scope) (build u scope) := by
  rw [build, filter_includes]
  have each : ∀ child ∈ classesInScope u scope, ∀ {requests f}, Draws (classesInScope u scope) requests f →
      Draws (classesInScope u scope)
        (requests ++ (nearestAncestors u scope child).found.flatMap fun ancestor => [(child, ancestor)])
        (f.linkAncestors u scope child) := by
    intro child hc requests f draws
    exact draws.linkAncestors hc fun ancestor member => ((mem_found_nearestAncestors nodup hc).1 member).ancestor
  have whole := foldl_flatMap each draws_singletons
  rwa [List.nil_append] at whole

/-- The edges of a finished forest are the unordered pairs of classes of which one is linked to the other, and
each of them is there once. -/
theorem edges_build (nodup : u.names.Nodup) (scope : Scope) :
    (build u scope).edges.Nodup ∧
      ∀ a b, s(a, b) ∈ (build u scope).edges ↔ Links u scope a b ∨ Links u scope b a := by
  have draws := draws_build nodup scope
  refine ⟨draws.nodup, fun a b => ?_⟩
  rw [draws.mem_iff, mem_requested nodup, mem_requested nodup]
  refine ⟨And.right, fun links => ⟨?_, links⟩⟩
  rcases links with up | down
  · exact up.ne.symm
  · exact down.ne

/-! ## Absent ancestors -/

theorem missing_link (child : Bytes) (f : Forest Bytes) (ancestor : Bytes) :
    (f.link child ancestor).missing = f.missing := by
  unfold link
  split
  · split <;> rfl
  · rfl

theorem missing_linkAncestors (u : Universe) (scope : Scope) (f : Forest Bytes) (name : Bytes) :
    (f.linkAncestors u scope name).missing = f.missing + (nearestAncestors u scope name).missing := by
  let counted : Forest Bytes := { f with missing := f.missing + (nearestAncestors u scope name).missing }
  exact List.foldlRecOn (motive := fun g : Forest Bytes => g.missing = counted.missing) _ _ rfl
    fun g same ancestor _ => (missing_link name g ancestor).trans same

theorem missing_foldl_linkAncestors (u : Universe) (scope : Scope) (names : List Bytes) (f : Forest Bytes) :
    (names.foldl (linkAncestors u scope) f).missing =
      f.missing + (names.map fun name => (nearestAncestors u scope name).missing).sum := by
  induction names generalizing f with
  | nil => rfl
  | cons name names ih =>
    rw [List.foldl_cons, ih, missing_linkAncestors, List.map_cons, List.sum_cons, Nat.add_assoc]

/-- The absent names that the walks from the classes in scope meet add up. -/
theorem missing_build (u : Universe) (scope : Scope) :
    (build u scope).missing =
      ((classesInScope u scope).map fun name => (nearestAncestors u scope name).missing).sum := by
  rw [build, filter_includes, missing_foldl_linkAncestors]
  exact Nat.zero_add _

end Forest

theorem classes_analyzeHierarchy (u : Universe) (scope : Scope) :
    (analyzeHierarchy u scope).stats.classes = (classesInScope u scope).length := by
  rw [analyzeHierarchy_eq, Forest.length_members_build]

/-! ## The link graph -/

variable {u : Universe} {scope : Scope}

/-- A way upwards from `a` leads to `b`, which is absent. -/
structure Lacks (u : Universe) (scope : Scope) (a b : Bytes) : Prop where
  absent : b ∉ u.names
  ne_root : b ≠ universalRoot
  ascends : Ascends u scope a b

/-- The unordered pairs of classes of which one is linked to the other. -/
def linkedPairs (u : Universe) (scope : Scope) : Set (Sym2 Bytes) := {pair | ∃ a b, pair = s(a, b) ∧ Links u scope a b}

section SameView

variable {v : Universe} {scope' : Scope}

theorem SameView.lacks {a b : Bytes} (view : SameView u v scope scope') (lacks : Lacks u scope a b) :
    Lacks v scope' a b :=
  ⟨fun present => lacks.absent ((view.names lacks.ne_root).2 present), lacks.ne_root, view.ascends lacks.ascends⟩

theorem SameView.lacks_eq (view : SameView u v scope scope') : Lacks u scope = Lacks v scope' := by
  funext a b
  exact propext ⟨view.lacks, view.symm.lacks⟩

theorem SameView.linkedPairs_eq (view : SameView u v scope scope') : linkedPairs u scope = linkedPairs v scope' := by
  rw [linkedPairs, view.links_eq, linkedPairs]

end SameView

theorem missing_nearestAncestors (nodup : u.names.Nodup) {a : Bytes} (child : a ∈ classesInScope u scope) :
    (nearestAncestors u scope a).missing = {b | Lacks u scope a b}.ncard := by
  obtain ⟨done, distinct, visited, -, missing⟩ := exists_visited nodup child
  have present : a ∈ u.names := (mem_classesInScope.1 child).1
  have absent : {b | Lacks u scope a b} = ((done.filter fun b => b ∉ u.names).toFinset : Set Bytes) := by
    ext b
    simp only [Set.mem_ofPred_eq, List.coe_toFinset, List.mem_filter, visited, decide_eq_true_eq]
    constructor
    · rintro ⟨absent, ne_root, ascends⟩
      exact ⟨⟨ascends, fun same => absent (same ▸ present), ne_root⟩, absent⟩
    · rintro ⟨⟨ascends, -, ne_root⟩, absent⟩
      exact ⟨absent, ne_root, ascends⟩
  rw [missing, absent, Set.ncard_coe_finset, List.toFinset_card_of_nodup (distinct.filter _)]

theorem length_links_build (nodup : u.names.Nodup) (scope : Scope) :
    (Forest.build u scope).links.length = (linkedPairs u scope).ncard := by
  obtain ⟨distinct, linked⟩ := Forest.edges_build nodup scope
  have pairs : linkedPairs u scope = ((Forest.build u scope).edges.toFinset : Set (Sym2 Bytes)) := by
    ext pair
    induction pair with
    | _ a b =>
      simp only [List.coe_toFinset, Set.mem_ofPred_eq, linked, linkedPairs, Sym2.eq_iff]
      constructor
      · rintro ⟨x, y, ⟨rfl, rfl⟩ | ⟨rfl, rfl⟩, link⟩
        · exact .inl link
        · exact .inr link
      · rintro (up | down)
        · exact ⟨a, b, .inl ⟨rfl, rfl⟩, up⟩
        · exact ⟨b, a, .inr ⟨rfl, rfl⟩, down⟩
  rw [pairs, Set.ncard_coe_finset, List.toFinset_card_of_nodup distinct, Forest.edges, List.length_map]

/-- The numbers of classes in scope, of linked pairs, of absent classes above each of them, and of trees. -/
noncomputable def linkGraphStats (u : Universe) (scope : Scope) : HierarchyStats where
  classes := (classesInScope u scope).length
  edges := (linkedPairs u scope).ncard
  missingAncestors := ((classesInScope u scope).map fun name => {b | Lacks u scope name b}.ncard).sum
  trees := (firstMembers u scope).length

theorem stats_analyzeHierarchy (nodup : u.names.Nodup) (scope : Scope) :
    (analyzeHierarchy u scope).stats = linkGraphStats u scope := by
  have missing : (Forest.build u scope).missing =
      ((classesInScope u scope).map fun name => {b | Lacks u scope name b}.ncard).sum := by
    rw [Forest.missing_build]
    congr 1
    exact List.map_congr_left fun name child => missing_nearestAncestors nodup child
  simp only [analyzeHierarchy_eq, linkGraphStats, Forest.length_members_build, length_links_build nodup, missing,
    trees_build nodup, List.length_map]

end JvmCoupling
