import JvmCoupling.Analysis.Hierarchy
import JvmCoupling.Proofs.Analysis.Shared

/-! # Nearest ancestors

A class is linked to the first classes in scope that are met on the way up from it.  The way leads along
superclasses and interfaces and may pass through classes out of scope, but not through absent classes and
not through the universal root.  The walk that looks for these classes finds exactly them, also when the
relation has cycles.

* `Extends` — the direct relation between a class and its superclass and interfaces;
* `Bridge`, `Ascends` — the ways upwards;
* `Links` — the relation between a class in scope and its nearest ancestors;
* `SameView` — two universes that show the same hierarchy, and so the same links;
* `exists_visited` — the names that the walk from a class visits;
* `mem_found_nearestAncestors` — the walk finds the classes that a class is linked to.
-/

namespace JvmCoupling

/-- The class `a` of the universe names `b` as its superclass or as an interface. -/
def Extends (u : Universe) (a b : Bytes) : Prop :=
  ∃ c ∈ u.classes, c.name = a ∧ ((b = c.superclass ∧ b ≠ []) ∨ b ∈ c.interfaces)

/-- A class that a way upwards may pass through. -/
def Bridge (u : Universe) (scope : Scope) (name : Bytes) : Prop :=
  name ∈ u.names ∧ ¬ scope.InScope name ∧ name ≠ universalRoot

/-- There is a way upwards from `a` to `b`: direct steps, with bridges between them. -/
inductive Ascends (u : Universe) (scope : Scope) (a : Bytes) : Bytes → Prop where
  | direct {b : Bytes} : Extends u a b → Ascends u scope a b
  | through {m b : Bytes} : Ascends u scope a m → Bridge u scope m → Extends u m b → Ascends u scope a b

/-- A class in scope is linked to another one above it. -/
structure Links (u : Universe) (scope : Scope) (a b : Bytes) : Prop where
  child : a ∈ classesInScope u scope
  ancestor : b ∈ classesInScope u scope
  ne : b ≠ a
  ne_root : b ≠ universalRoot
  ascends : Ascends u scope a b

variable {u : Universe} {scope : Scope}

theorem mem_ancestors {c : ClassInfo} {b : Bytes} :
    b ∈ c.ancestors ↔ (b = c.superclass ∧ b ≠ []) ∨ b ∈ c.interfaces := by
  unfold ClassInfo.ancestors
  split
  · next none => simp +contextual [none]
  · next some =>
    rw [List.mem_cons]
    constructor
    · rintro (rfl | member)
      · exact .inl ⟨rfl, some⟩
      · exact .inr member
    · rintro (⟨rfl, -⟩ | member)
      · exact .inl rfl
      · exact .inr member

theorem extends_iff (nodup : u.names.Nodup) {a b : Bytes} {c : ClassInfo} (found : u.find? a = some c) :
    Extends u a b ↔ b ∈ c.ancestors := by
  rw [mem_ancestors]
  constructor
  · rintro ⟨d, member, named, ancestor⟩
    have same : some c = some d := by rw [← found, (Universe.find?_eq_some nodup).2 ⟨member, named⟩]
    rwa [Option.some.inj same]
  · intro ancestor
    obtain ⟨member, named⟩ := (Universe.find?_eq_some nodup).1 found
    exact ⟨c, member, named, ancestor⟩

theorem Extends.mem_names {a b : Bytes} (step : Extends u a b) : a ∈ u.names := by
  obtain ⟨c, member, named, -⟩ := step
  exact Universe.mem_names.2 ⟨c, member, named⟩

theorem Ascends.mem_names {a b : Bytes} (ascends : Ascends u scope a b) : a ∈ u.names := by
  induction ascends with
  | direct step => exact step.mem_names
  | through _ _ _ ih => exact ih

/-- Two universes, each seen in a scope, that show the same steps upwards, and the same classes in and out of
scope.  Only the universal root may be in one of them and not in the other. -/
structure SameView (u v : Universe) (scope scope' : Scope) : Prop where
  steps : ∀ {a b}, Extends u a b ↔ Extends v a b
  names : ∀ {x}, x ≠ universalRoot → (x ∈ u.names ↔ x ∈ v.names)
  inScope : ∀ {x}, scope.InScope x ↔ scope'.InScope x

namespace SameView

variable {v : Universe} {scope' : Scope} {a b : Bytes}

theorem symm (view : SameView u v scope scope') : SameView v u scope' scope :=
  ⟨view.steps.symm, fun ne_root => (view.names ne_root).symm, view.inScope.symm⟩

theorem ascends (view : SameView u v scope scope') (ascends : Ascends u scope a b) : Ascends v scope' a b := by
  induction ascends with
  | direct step => exact .direct (view.steps.1 step)
  | through _ bridge step ih =>
    obtain ⟨present, outside, ne_root⟩ := bridge
    have bridge : Bridge v scope' _ :=
      ⟨(view.names ne_root).1 present, fun inScope => outside (view.inScope.2 inScope), ne_root⟩
    exact ih.through bridge (view.steps.1 step)

theorem links (view : SameView u v scope scope') (link : Links u scope a b) : Links v scope' a b := by
  have ascends := view.ascends link.ascends
  obtain ⟨-, childInScope⟩ := mem_classesInScope.1 link.child
  obtain ⟨present, inScope⟩ := mem_classesInScope.1 link.ancestor
  -- a class that has an ancestor is there, even if it is the universal root
  have child : a ∈ classesInScope v scope' := mem_classesInScope.2 ⟨ascends.mem_names, view.inScope.1 childInScope⟩
  have ancestor : b ∈ classesInScope v scope' :=
    mem_classesInScope.2 ⟨(view.names link.ne_root).1 present, view.inScope.1 inScope⟩
  exact ⟨child, ancestor, link.ne, link.ne_root, ascends⟩

theorem links_eq (view : SameView u v scope scope') : Links u scope = Links v scope' := by
  funext a b
  exact propext ⟨view.links, view.symm.links⟩

end SameView

/-! ## The walk -/

/-- The names `done` that a walk with this queue visits, if it passes over the names `visited`.  They are
closed under the steps that the walk takes, and the ways from the queue lead to each of them. -/
structure Walk (u : Universe) (scope : Scope) (visited queue done : List Bytes) : Prop where
  nodup : done.Nodup
  fresh : ∀ v ∈ done, v ∉ visited ∧ v ≠ universalRoot
  covers : ∀ q ∈ queue, q ≠ universalRoot → q ∈ visited ∨ q ∈ done
  closed : ∀ v ∈ done, Bridge u scope v → ∀ b, Extends u v b → b ≠ universalRoot → b ∈ visited ∨ b ∈ done
  reached : ∀ start, (∀ q ∈ queue, Ascends u scope start q) → ∀ v ∈ done, Ascends u scope start v

namespace Walk

variable {visited queue more done : List Bytes} {name : Bytes}

theorem nil : Walk u scope visited [] [] where
  nodup := .nil
  fresh := by simp
  covers := by simp
  closed := by simp
  reached := by simp

theorem skip (walk : Walk u scope visited queue done) (known : name ≠ universalRoot → name ∈ visited) :
    Walk u scope visited (name :: queue) done where
  nodup := walk.nodup
  fresh := walk.fresh
  covers := by
    rintro q (_ | ⟨_, later⟩) ne_root
    · exact .inl (known ne_root)
    · exact walk.covers q later ne_root
  closed := walk.closed
  reached start reaches := walk.reached start fun q later => reaches q (List.mem_cons_of_mem _ later)

/-- The walk visits a name and goes on with `more` names behind its queue: the next ones on a way through
the name if it is a bridge, and none otherwise. -/
theorem visit (walk : Walk u scope (name :: visited) (queue ++ more) done) (new : name ∉ visited)
    (ne_root : name ≠ universalRoot) (next : ∀ b, b ∈ more ↔ Bridge u scope name ∧ Extends u name b) :
    Walk u scope visited (name :: queue) (name :: done) where
  nodup := List.nodup_cons.2 ⟨fun later => (walk.fresh name later).1 List.mem_cons_self, walk.nodup⟩
  fresh := by
    rintro v (_ | ⟨_, later⟩)
    · exact ⟨new, ne_root⟩
    · exact ⟨fun old => (walk.fresh v later).1 (List.mem_cons_of_mem _ old), (walk.fresh v later).2⟩
  covers := by
    rintro q (_ | ⟨_, later⟩) q_ne_root
    · exact .inr List.mem_cons_self
    · have covered := walk.covers q (List.mem_append_left _ later) q_ne_root
      grind
  closed := by
    rintro v (_ | ⟨_, later⟩) bridge b step b_ne_root
    · have covered := walk.covers b (List.mem_append_right _ ((next b).2 ⟨bridge, step⟩)) b_ne_root
      grind
    · have covered := walk.closed v later bridge b step b_ne_root
      grind
  reached start reaches := by
    have here : Ascends u scope start name := reaches name List.mem_cons_self
    have ahead : ∀ q ∈ queue ++ more, Ascends u scope start q := by
      intro q member
      rcases List.mem_append.1 member with old | added
      · exact reaches q (List.mem_cons_of_mem _ old)
      · exact here.through ((next q).1 added).1 ((next q).1 added).2
    rintro v (_ | ⟨_, later⟩)
    · exact here
    · exact walk.reached start ahead v later

end Walk

/-- What the walk finds are the classes in scope among the names that it visits, and it counts the absent ones. -/
theorem exists_walk (nodup : u.names.Nodup) (scope : Scope) (visited queue : List Bytes) (a : Ascent) :
    ∃ done, Walk u scope visited queue done ∧
      (ascend u scope visited queue a).found = a.found ++ done.filter (fun v => v ∈ classesInScope u scope) ∧
      (ascend u scope visited queue a).missing = a.missing + (done.filter fun v => v ∉ u.names).length := by
  fun_induction ascend u scope visited queue a with
  | case1 visited a => exact ⟨[], .nil, by simp, by simp⟩
  | case2 visited a queue ih =>
    obtain ⟨done, walk, found⟩ := ih
    exact ⟨done, walk.skip fun ne_root => absurd rfl ne_root, found⟩
  | case3 visited a name queue ne_root old ih =>
    obtain ⟨done, walk, found⟩ := ih
    exact ⟨done, walk.skip fun _ => by simpa using old, found⟩
  | case4 visited a name queue ne_root new absent ih =>
    obtain ⟨done, walk, found, missing⟩ := ih
    -- an absent class ends the way
    have absent := Universe.find?_eq_none.1 absent
    refine ⟨name :: done, Walk.visit (by rwa [List.append_nil]) (by simpa using new) ne_root ?_, ?_, ?_⟩
    · intro b
      exact ⟨fun member => by simp at member, fun ⟨bridge, _⟩ => absurd bridge.1 absent⟩
    · rw [found, List.filter_cons_of_neg (by simp [mem_classesInScope, absent])]
    · rw [missing, List.filter_cons_of_pos (by simpa using absent), List.length_cons, Nat.add_assoc, Nat.add_comm 1]
  | case5 visited a name queue ne_root new c found? inScope ih =>
    obtain ⟨done, walk, found, missing⟩ := ih
    -- so does a class in scope, which is found
    have inScope := Scope.includes_iff.1 inScope
    have present : name ∈ u.names := Universe.mem_names.2 ⟨c, (Universe.find?_eq_some nodup).1 found?⟩
    refine ⟨name :: done, Walk.visit (by rwa [List.append_nil]) (by simpa using new) ne_root ?_, ?_, ?_⟩
    · intro b
      exact ⟨fun member => by simp at member, fun ⟨bridge, _⟩ => absurd inScope bridge.2.1⟩
    · rw [found, List.filter_cons_of_pos (by simp [mem_classesInScope, present, inScope])]
      simp
    · rw [missing, List.filter_cons_of_neg (by simpa using present)]
  | case6 visited a name queue ne_root new c found? outside ih =>
    obtain ⟨done, walk, found, missing⟩ := ih
    -- a bridge puts what is above it behind the queue
    have outside : ¬ scope.InScope name := fun inScope => outside (Scope.includes_iff.2 inScope)
    have present : name ∈ u.names := Universe.mem_names.2 ⟨c, (Universe.find?_eq_some nodup).1 found?⟩
    refine ⟨name :: done, Walk.visit walk (by simpa using new) ne_root ?_, ?_, ?_⟩
    · intro b
      rw [extends_iff nodup found?]
      exact ⟨fun member => ⟨⟨present, outside, ne_root⟩, member⟩, And.right⟩
    · rw [found, List.filter_cons_of_neg (by simp [mem_classesInScope, outside])]
    · rw [missing, List.filter_cons_of_neg (by simpa using present)]

/-- The walk from a class in scope visits every name that a way upwards leads to, the class itself and the
universal root apart. -/
theorem exists_visited (nodup : u.names.Nodup) {a : Bytes} (child : a ∈ classesInScope u scope) :
    ∃ done : List Bytes, done.Nodup ∧ (∀ b, b ∈ done ↔ Ascends u scope a b ∧ b ≠ a ∧ b ≠ universalRoot) ∧
      (nearestAncestors u scope a).found = done.filter (fun v => v ∈ classesInScope u scope) ∧
      (nearestAncestors u scope a).missing = (done.filter fun v => v ∉ u.names).length := by
  obtain ⟨present, inScope⟩ := mem_classesInScope.1 child
  obtain ⟨c, member, named⟩ := Universe.mem_names.1 present
  have found? : u.find? a = some c := (Universe.find?_eq_some nodup).2 ⟨member, named⟩
  obtain ⟨done, walk, found, missing⟩ := exists_walk nodup scope [a] c.ancestors {}
  refine ⟨done, walk.nodup, fun b => ⟨fun visited => ?_, ?_⟩, ?_, ?_⟩
  · obtain ⟨fresh, ne_root⟩ := walk.fresh b visited
    refine ⟨walk.reached a ?_ b visited, by simpa using fresh, ne_root⟩
    intro q queued
    exact .direct ((extends_iff nodup found?).2 queued)
  · rintro ⟨ascends, ne, ne_root⟩
    have visited : ∀ {x}, Ascends u scope a x → x ≠ universalRoot → x ∈ [a] ∨ x ∈ done := by
      intro x ascends
      induction ascends with
      | direct step => exact walk.covers _ ((extends_iff nodup found?).1 step)
      | through _ bridge step ih =>
        rcases ih bridge.2.2 with start | visited
        · -- a way does not come back through its start, which is in scope and no bridge
          exact absurd (List.mem_singleton.1 start ▸ inScope) bridge.2.1
        · exact walk.closed _ visited bridge _ step
    exact (visited ascends ne_root).resolve_left (by simpa using ne)
  · simp only [nearestAncestors, found?, found, List.nil_append]
  · simp only [nearestAncestors, found?, missing, Nat.zero_add]

/-- The walk from a class in scope finds exactly the classes that it is linked to. -/
theorem mem_found_nearestAncestors (nodup : u.names.Nodup) {a b : Bytes} (child : a ∈ classesInScope u scope) :
    b ∈ (nearestAncestors u scope a).found ↔ Links u scope a b := by
  obtain ⟨done, -, visited, found, -⟩ := exists_visited nodup child
  rw [found, List.mem_filter, visited, decide_eq_true_eq]
  constructor
  · rintro ⟨⟨ascends, ne, ne_root⟩, ancestor⟩
    exact ⟨child, ancestor, ne, ne_root, ascends⟩
  · rintro ⟨-, ancestor, ne, ne_root, ascends⟩
    exact ⟨⟨ascends, ne, ne_root⟩, ancestor⟩

end JvmCoupling
