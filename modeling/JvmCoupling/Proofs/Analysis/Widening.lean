import JvmCoupling.Proofs.Analysis.HierarchyTrees

/-! # Wider views of a hierarchy

A hierarchy is looked at more widely when classes are added to the universe, or when a shorter package prefix
brings more of its classes into scope.  Both change the links.  A bridge that comes into scope takes the place
of the links that led through it, and an ancestor that was absent becomes a bridge or gets links of its own.
Classes that were joined stay joined all the same: every way upwards falls into ways between the classes that
are now in scope.

* `Widens` — a wider view;
* `Ascends.widen` — a way upwards, seen from the last class on it that has come into scope;
* `SameTree.widen` — classes that are joined stay joined.
-/

namespace JvmCoupling

/-- The universe `v` with the scope `wide` shows all classes that `u` shows with the scope `narrow`. -/
structure Widens (u v : Universe) (narrow wide : Scope) : Prop where
  classes : u.classes ⊆ v.classes
  inScope : ∀ {name}, narrow.InScope name → wide.InScope name

variable {u v : Universe} {narrow wide : Scope} {a b : Bytes}

theorem Widens.names (widens : Widens u v narrow wide) (present : a ∈ u.names) : a ∈ v.names := by
  obtain ⟨c, member, named⟩ := Universe.mem_names.1 present
  exact Universe.mem_names.2 ⟨c, widens.classes member, named⟩

theorem Widens.classesInScope (widens : Widens u v narrow wide) (member : a ∈ classesInScope u narrow) :
    a ∈ JvmCoupling.classesInScope v wide := by
  obtain ⟨present, inScope⟩ := mem_classesInScope.1 member
  exact mem_classesInScope.2 ⟨widens.names present, widens.inScope inScope⟩

theorem Extends.widen (widens : Widens u v narrow wide) (step : Extends u a b) : Extends v a b := by
  obtain ⟨c, member, named, ancestor⟩ := step
  exact ⟨c, widens.classes member, named, ancestor⟩

/-- A way upwards between two classes in scope joins them. -/
theorem Ascends.sameTree {scope : Scope} (ascends : Ascends u scope a b) (child : a ∈ classesInScope u scope)
    (ancestor : b ∈ classesInScope u scope) (ne_root : b ≠ universalRoot) : SameTree u scope a b := by
  by_cases same : b = a
  · subst same
    exact .refl b
  · exact .rel a b ⟨child, ancestor, same, ne_root, ascends⟩

/-- In a wider view a way upwards starts anew at every class on it that has come into scope. -/
theorem Ascends.widen (widens : Widens u v narrow wide) (child : a ∈ classesInScope v wide)
    (ascends : Ascends u narrow a b) :
    ∃ last ∈ classesInScope v wide, SameTree v wide a last ∧ Ascends v wide last b := by
  induction ascends with
  | direct step => exact ⟨a, child, .refl a, .direct (step.widen widens)⟩
  | @through m b _ bridge step ih =>
    obtain ⟨last, member, joined, ascends⟩ := ih
    obtain ⟨present, -, ne_root⟩ := bridge
    by_cases inScope : wide.InScope m
    · -- the bridge has come into scope, and the way goes on from it
      have middle : m ∈ classesInScope v wide := mem_classesInScope.2 ⟨widens.names present, inScope⟩
      have joinedToo := ascends.sameTree member middle ne_root
      exact ⟨m, middle, joined.trans _ _ _ joinedToo, .direct (step.widen widens)⟩
    · exact ⟨last, member, joined, ascends.through ⟨widens.names present, inScope, ne_root⟩ (step.widen widens)⟩

theorem Links.widen (widens : Widens u v narrow wide) (link : Links u narrow a b) : SameTree v wide a b := by
  obtain ⟨last, member, joined, ascends⟩ := link.ascends.widen widens (widens.classesInScope link.child)
  have joinedToo := ascends.sameTree member (widens.classesInScope link.ancestor) link.ne_root
  exact joined.trans _ _ _ joinedToo

/-- Classes that are joined stay joined in a wider view. -/
theorem SameTree.widen (widens : Widens u v narrow wide) (joined : SameTree u narrow a b) : SameTree v wide a b := by
  induction joined with
  | rel x y link => exact link.widen widens
  | refl x => exact .refl x
  | symm x y _ ih => exact ih.symm
  | trans x y z _ _ first second => exact first.trans _ _ _ second

/-- A tree of the wider view holds all or none of the classes of a tree. -/
theorem mem_tree_of_widens (widens : Widens u v narrow wide) (nodup : v.names.Nodup) {tree : List Bytes}
    (reported : tree ∈ (analyzeHierarchy v wide).trees) (hb : b ∈ classesInScope u narrow)
    (joined : SameTree u narrow a b) (ha : a ∈ tree) : b ∈ tree := by
  obtain ⟨name, -, rfl⟩ := (mem_trees_build nodup).1 (mem_trees_analyzeHierarchy.1 reported).1
  have joinedBefore := (mem_inheritanceTree.1 ha).2
  exact mem_inheritanceTree.2 ⟨widens.classesInScope hb, joinedBefore.trans _ _ _ (joined.widen widens)⟩

/-- Classes of one tree stay in one tree when classes are appended to the universe and the package prefix is
shortened.  So they do when the wider analysis is narrowed to a target: a tree that it reports holds both of
them or neither. -/
theorem analyzeHierarchy_widen (classes extra : List (Option ClassInfo)) {packagePrefix shorter : Bytes}
    (wider : shorter <+: packagePrefix) {tree : List Bytes}
    (reported : tree ∈ (analyzeHierarchy (.ofList classes) { packagePrefix }).trees)
    {a b : Bytes} (ha : a ∈ tree) (hb : b ∈ tree) :
    (∃ tree ∈ (analyzeHierarchy (.ofList (classes ++ extra)) { packagePrefix := shorter }).trees,
      a ∈ tree ∧ b ∈ tree) ∧
    ∀ target, ∀ tree ∈ (analyzeHierarchy (.ofList (classes ++ extra)) ⟨shorter, target⟩).trees,
      a ∈ tree → b ∈ tree := by
  have nodup := Universe.nodup_names_ofList classes
  have nodup' := Universe.nodup_names_ofList (classes ++ extra)
  obtain ⟨name, -, rfl⟩ := (mem_trees_build nodup).1 (mem_trees_analyzeHierarchy.1 reported).1
  obtain ⟨aInScope, joinedA⟩ := mem_inheritanceTree.1 ha
  obtain ⟨bInScope, joinedB⟩ := mem_inheritanceTree.1 hb
  have joined : SameTree (.ofList classes) { packagePrefix } a b := joinedA.symm.trans _ _ _ joinedB
  have widens (target : Bytes) :
      Widens (.ofList classes) (.ofList (classes ++ extra)) { packagePrefix } ⟨shorter, target⟩ := by
    refine ⟨(Universe.prefix_ofList_append classes extra).subset, ?_⟩
    rintro name (starts | ⟨narrowed, -⟩)
    · exact .inl (wider.trans starts)
    · exact absurd rfl narrowed
  refine ⟨?_, fun target tree reported => mem_tree_of_widens (widens target) nodup' reported bInScope joined⟩
  have member := (widens []).classesInScope aInScope
  have whole : inheritanceTree (.ofList (classes ++ extra)) { packagePrefix := shorter } a ∈
      (analyzeHierarchy (.ofList (classes ++ extra)) { packagePrefix := shorter }).trees :=
    mem_trees_analyzeHierarchy.2 ⟨(mem_trees_build nodup').2 ⟨a, member, rfl⟩, by simp [reportsTree, Scope.hasTarget]⟩
  have own : a ∈ inheritanceTree (.ofList (classes ++ extra)) { packagePrefix := shorter } a :=
    mem_inheritanceTree.2 ⟨member, .refl a⟩
  exact ⟨_, whole, own, mem_tree_of_widens (widens []) nodup' whole bInScope joined own⟩

/-- The class `pA`, its superclass `xM` in another package, and the superclass `pB` of that one. -/
def overForeignParent : List (Option ClassInfo) := [
  some ⟨[0x70, 0x41], [0x78, 0x4D], [], false, []⟩,
  some ⟨[0x78, 0x4D], [0x70, 0x42], [], false, []⟩,
  some ⟨[0x70, 0x42], [], [], false, []⟩]

/-- Without a prefix the foreign class is in scope too.  A second definition of it, which would cut the two
others off from each other, is shadowed. -/
theorem analyzeHierarchy_widen_overForeignParent :
    [] <+: ([0x70] : Bytes) ∧
    ∃ tree ∈ (analyzeHierarchy (.ofList overForeignParent) { packagePrefix := [0x70] }).trees,
      [0x70, 0x41] ∈ tree ∧ [0x70, 0x42] ∈ tree ∧
      ∃ tree ∈ (analyzeHierarchy (.ofList (overForeignParent ++ [some ⟨[0x78, 0x4D], [], [], false, []⟩])) {}).trees,
        [0x70, 0x41] ∈ tree ∧ [0x70, 0x42] ∈ tree := by
  have link : Links (.ofList overForeignParent) { packagePrefix := [0x70] } [0x70, 0x41] [0x70, 0x42] := by
    refine ⟨by decide, by decide, by decide, by decide +kernel, .through (m := [0x78, 0x4D]) (.direct ?_) ?_ ?_⟩
    · exact ⟨⟨[0x70, 0x41], [0x78, 0x4D], [], false, []⟩, by decide, rfl, .inl ⟨rfl, by decide⟩⟩
    · exact ⟨by decide, by decide, by decide +kernel⟩
    · exact ⟨⟨[0x78, 0x4D], [0x70, 0x42], [], false, []⟩, by decide, rfl, .inl ⟨rfl, by decide⟩⟩
  have reported : inheritanceTree (.ofList overForeignParent) { packagePrefix := [0x70] } [0x70, 0x41] ∈
      (analyzeHierarchy (.ofList overForeignParent) { packagePrefix := [0x70] }).trees :=
    mem_trees_analyzeHierarchy.2 ⟨(mem_trees_build (Universe.nodup_names_ofList _)).2 ⟨_, link.child, rfl⟩, rfl⟩
  have first := mem_inheritanceTree.2 ⟨link.child, .refl _⟩
  have second := mem_inheritanceTree.2 ⟨link.ancestor, .rel _ _ link⟩
  have shortened : [] <+: ([0x70] : Bytes) := by decide
  exact ⟨shortened, _, reported, first, second, (analyzeHierarchy_widen _ _ shortened reported first second).1⟩

end JvmCoupling
