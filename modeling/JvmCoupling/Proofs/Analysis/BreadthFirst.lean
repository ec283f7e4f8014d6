import JvmCoupling.Proofs.Analysis.Ancestry
import Mathlib.Data.List.Flatten
import Mathlib.Data.List.Perm.Subperm

/-! # The order of nearest ancestors

The walk upwards takes one name from its queue in every round and may put further names behind it.  It ends
on every universe, since no class has its ancestors put into the queue twice; and it is breadth first, since
the queue never spans more than two numbers of steps.

* `AscendsIn` — the ways upwards, with their numbers of steps;
* `Climb`, `Climb.round` — the walk, round by round;
* `Climb.Frontier` — what the queue has ahead of it, and what lies behind it;
* `Climb.Accounted` — where the names in the queue come from;
* `nearestAncestors_breadthFirst` — the walk from a class in scope.
-/

namespace JvmCoupling

variable {u : Universe} {scope : Scope} {a : Bytes}

/-- There is a way upwards of `n` steps from `a` to `b`, with bridges between the steps. -/
inductive AscendsIn (u : Universe) (scope : Scope) (a : Bytes) : Nat → Bytes → Prop where
  | direct {b : Bytes} : Extends u a b → AscendsIn u scope a 1 b
  | through {n : Nat} {m b : Bytes} :
    AscendsIn u scope a n m → Bridge u scope m → Extends u m b → AscendsIn u scope a (n + 1) b

theorem ascends_iff {b : Bytes} : Ascends u scope a b ↔ ∃ n, AscendsIn u scope a n b := by
  constructor
  · intro ascends
    induction ascends with
    | direct step => exact ⟨1, .direct step⟩
    | through _ bridge step ih =>
      obtain ⟨n, ascends⟩ := ih
      exact ⟨n + 1, ascends.through bridge step⟩
  · rintro ⟨n, ascends⟩
    induction ascends with
    | direct step => exact .direct step
    | through _ bridge step ih => exact ih.through bridge step

theorem AscendsIn.positive {n : Nat} {b : Bytes} (ascends : AscendsIn u scope a n b) : 0 < n := by
  cases ascends <;> omega

/-- The direct ancestors of the class of a name. -/
def Universe.ancestorsOf (u : Universe) (name : Bytes) : List Bytes :=
  ((u.find? name).map ClassInfo.ancestors).getD []

theorem Universe.ancestorsOf_eq {name : Bytes} {c : ClassInfo} (found : u.find? name = some c) :
    u.ancestorsOf name = c.ancestors := by
  rw [ancestorsOf, found]
  rfl

theorem Universe.mem_ancestorsOf (nodup : u.names.Nodup) {name b : Bytes} :
    b ∈ u.ancestorsOf name ↔ Extends u name b := by
  cases found : u.find? name with
  | none =>
    have absent : name ∉ u.names := find?_eq_none.1 found
    rw [ancestorsOf, found]
    exact ⟨fun member => absurd member List.not_mem_nil, fun step => absurd step.mem_names absent⟩
  | some c => rw [ancestorsOf_eq found, extends_iff nodup found]

/-! ## Rounds -/

/-- A walk upwards between two rounds: the names it has visited, the names that wait, what it has met, and the
classes whose ancestors it has put into the queue. -/
structure Climb where
  visited : List Bytes
  queue : List Bytes
  ascent : Ascent := {}
  sources : List Bytes

namespace Climb

/-- In front of the first round, the ancestors of the class itself wait. -/
def start (u : Universe) (a : Bytes) : Climb where
  visited := [a]
  queue := u.ancestorsOf a
  sources := [a]

/-- One round takes the first name from the queue; without one, the walk is over. -/
def round (u : Universe) (scope : Scope) (w : Climb) : Option Climb :=
  match w.queue with
  | [] => none
  | name :: queue =>
    if name = universalRoot ∨ name ∈ w.visited then some { w with queue }
    else
      let w := { w with visited := name :: w.visited, queue }
      match u.find? name with
      | none => some { w with ascent.missing := w.ascent.missing + 1 }
      | some c =>
        if scope.includes name then some { w with ascent.found := w.ascent.found ++ [name] }
        else some { w with queue := queue ++ c.ancestors, sources := w.sources ++ [name] }

/-- `w'` is the walk `n` rounds after `w`. -/
inductive Runs (u : Universe) (scope : Scope) : Nat → Climb → Climb → Prop where
  | refl (w : Climb) : Runs u scope 0 w w
  | step {n : Nat} {w w₁ w' : Climb} : w.round u scope = some w₁ → Runs u scope n w₁ w' → Runs u scope (n + 1) w w'

/-- What a round does with the name that it takes: it passes over it, or it visits it.  An absent class and a class in
scope end their way there; a bridge has its ancestors put into the queue. -/
theorem round_cases {w w' : Climb} (step : w.round u scope = some w') :
    ∃ name queue, w.queue = name :: queue ∧
      ((name = universalRoot ∨ name ∈ w.visited) ∧ w' = { w with queue } ∨
      (name ≠ universalRoot ∧ name ∉ w.visited) ∧
        (name ∉ u.names ∧
          w' = { w with visited := name :: w.visited, queue, ascent.missing := w.ascent.missing + 1 } ∨
        name ∈ classesInScope u scope ∧
          w' = { w with visited := name :: w.visited, queue, ascent.found := w.ascent.found ++ [name] } ∨
        Bridge u scope name ∧
          w' = { w with
            visited := name :: w.visited, queue := queue ++ u.ancestorsOf name, sources := w.sources ++ [name] })) := by
  unfold round at step
  split at step
  · cases step
  next name queue queued =>
  refine ⟨name, queue, queued, ?_⟩
  split at step
  · next known => exact .inl ⟨known, (Option.some.inj step).symm⟩
  next new =>
  rw [not_or] at new
  refine .inr ⟨new, ?_⟩
  dsimp only at step
  split at step
  · next absent => exact .inl ⟨Universe.find?_eq_none.1 absent, (Option.some.inj step).symm⟩
  next c found =>
  have present : name ∈ u.names := by
    by_contra absent
    rw [Universe.find?_eq_none.2 absent] at found
    cases found
  split at step
  · next inScope =>
    exact .inr (.inl ⟨mem_classesInScope.2 ⟨present, Scope.includes_iff.1 inScope⟩, (Option.some.inj step).symm⟩)
  · next outside =>
    have outside : ¬ scope.InScope name := fun inScope => outside (Scope.includes_iff.2 inScope)
    refine .inr (.inr ⟨⟨present, outside, new.1⟩, ?_⟩)
    rw [Universe.ancestorsOf_eq found]
    exact (Option.some.inj step).symm

/-- What every round keeps while it counts itself, a run keeps. -/
theorem Runs.keeps {P : Nat → Climb → Prop}
    (round_keeps : ∀ {k w w'}, w.round u scope = some w' → P k w → P (k + 1) w')
    {n k : Nat} {w w' : Climb} (run : Runs u scope n w w') (holds : P k w) : P (k + n) w' := by
  induction run generalizing k with
  | refl w => exact holds
  | @step n w w₁ w' step _ ih =>
    have later := ih (round_keeps step holds)
    rwa [Nat.add_assoc, Nat.add_comm 1 n] at later

/-- The rounds come to an end, with the result of the walk. -/
theorem exists_run (u : Universe) (scope : Scope) (visited queue : List Bytes) (met : Ascent) (sources : List Bytes) :
    ∃ n last, Runs u scope n ⟨visited, queue, met, sources⟩ last ∧ last.queue = [] ∧
      last.ascent = ascend u scope visited queue met := by
  fun_induction ascend u scope visited queue met generalizing sources with
  | case1 visited met => exact ⟨0, _, .refl _, rfl, rfl⟩
  | case2 visited met queue ih =>
    obtain ⟨n, last, run, result⟩ := ih sources
    exact ⟨n + 1, last, .step (by simp [round]) run, result⟩
  | case3 visited met name queue ne_root old ih =>
    obtain ⟨n, last, run, result⟩ := ih sources
    have old : name ∈ visited := by simpa using old
    exact ⟨n + 1, last, .step (by simp [round, old]) run, result⟩
  | case4 visited met name queue ne_root new absent ih =>
    obtain ⟨n, last, run, result⟩ := ih sources
    have new : name ∉ visited := by simpa using new
    exact ⟨n + 1, last, .step (by simp [round, ne_root, new, absent]) run, result⟩
  | case5 visited met name queue ne_root new c found inScope ih =>
    obtain ⟨n, last, run, result⟩ := ih sources
    have new : name ∉ visited := by simpa using new
    exact ⟨n + 1, last, .step (by simp [round, ne_root, new, found, inScope]) run, result⟩
  | case6 visited met name queue ne_root new c found outside ih =>
    obtain ⟨n, last, run, result⟩ := ih (sources ++ [name])
    have new : name ∉ visited := by simpa using new
    exact ⟨n + 1, last, .step (by simp [round, ne_root, new, found, outside]) run, result⟩

/-! ## Where the queue comes from -/

/-- After `n` rounds: the names that were ever in the queue are the ancestors of the sources, `n` of them have been
taken, and no class has been a source twice. -/
structure Accounted (u : Universe) (n : Nat) (w : Climb) : Prop where
  nodup : w.sources.Nodup
  visited : ∀ s ∈ w.sources, s ∈ w.visited
  present : ∀ s ∈ w.sources, s ∈ u.names
  queued : ∃ taken, taken.length = n ∧ w.sources.flatMap u.ancestorsOf = taken ++ w.queue

theorem Accounted.start (present : a ∈ u.names) : Accounted u 0 (start u a) where
  nodup := List.nodup_singleton a
  visited := by simp [Climb.start]
  present := by simpa [Climb.start] using present
  queued := ⟨[], rfl, by simp [Climb.start]⟩

theorem Accounted.round {n : Nat} {w w' : Climb} (step : w.round u scope = some w') (accounted : Accounted u n w) :
    Accounted u (n + 1) w' := by
  obtain ⟨nodup, visited, present, taken, count, all⟩ := accounted
  obtain ⟨name, queue, queued, done⟩ := round_cases step
  rw [queued] at all
  have all : w.sources.flatMap u.ancestorsOf = (taken ++ [name]) ++ queue := by rw [all, List.append_cons]
  have count : (taken ++ [name]).length = n + 1 := by rw [List.length_append, count, List.length_singleton]
  have visitedToo : ∀ s ∈ w.sources, s ∈ name :: w.visited := fun s source => List.mem_cons_of_mem _ (visited s source)
  rcases done with ⟨-, rfl⟩ | ⟨⟨-, new⟩, ⟨-, rfl⟩ | ⟨-, rfl⟩ | ⟨bridge, rfl⟩⟩
  · exact ⟨nodup, visited, present, _, count, all⟩
  · exact ⟨nodup, visitedToo, present, _, count, all⟩
  · exact ⟨nodup, visitedToo, present, _, count, all⟩
  · -- a bridge that was a source before would have been visited
    refine ⟨?_, ?_, ?_, taken ++ [name], count, ?_⟩
    · rw [← List.concat_eq_append]
      exact nodup.concat fun source => new (visited name source)
    · intro s source
      rcases List.mem_append.1 source with old | this
      · exact visitedToo s old
      · exact List.mem_singleton.1 this ▸ List.mem_cons_self
    · intro s source
      rcases List.mem_append.1 source with old | this
      · exact present s old
      · exact List.mem_singleton.1 this ▸ bridge.1
    · rw [List.flatMap_append, all, List.flatMap_singleton, List.append_assoc]

/-! ## Levels -/

/-- A walk that has come to the names `level` steps above `a`.  Of these, `now` wait in front of the queue; behind
them wait the names `next`, one step further up.  All names on lower levels are visited, and so is all that was
found, level by level. -/
structure Frontier (u : Universe) (scope : Scope) (a : Bytes) (level : Nat) (now next : List Bytes) (w : Climb) :
    Prop where
  positive : 0 < level
  queue_eq : w.queue = now ++ next
  here : ∀ q ∈ now, AscendsIn u scope a level q
  above : ∀ q ∈ next, AscendsIn u scope a (level + 1) q
  below_visited : ∀ n < level, ∀ b, AscendsIn u scope a n b → b ≠ universalRoot → b ∈ w.visited
  level_covered : ∀ b, AscendsIn u scope a level b → b ≠ universalRoot → b ∈ w.visited ∨ b ∈ now
  bridges_expanded : ∀ m ∈ w.visited, Bridge u scope m → ∀ b, Extends u m b → b ≠ universalRoot →
    b ∈ w.visited ∨ b ∈ w.queue
  found_reached : ∀ x ∈ w.ascent.found, ∃ n ≤ level, AscendsIn u scope a n x
  found_ordered : w.ascent.found.Pairwise fun x y => ∀ n, AscendsIn u scope a n y → ∃ m ≤ n, AscendsIn u scope a m x

namespace Frontier

variable {level : Nat} {now next : List Bytes} {name : Bytes} {w w' : Climb}

theorem start (nodup : u.names.Nodup) (inScope : scope.InScope a) :
    Frontier u scope a 1 (u.ancestorsOf a) [] (start u a) where
  positive := Nat.one_pos
  queue_eq := (List.append_nil _).symm
  here := fun q queued => .direct ((Universe.mem_ancestorsOf nodup).1 queued)
  above := by simp
  below_visited := by
    intro n below b ascends
    have positive := ascends.positive
    omega
  level_covered := by
    intro b ascends _
    cases ascends with
    | direct step => exact .inr ((Universe.mem_ancestorsOf nodup).2 step)
    | through ascends => exact absurd ascends.positive (Nat.lt_irrefl 0)
  bridges_expanded := by
    intro m visited bridge
    -- only the class itself is visited, which is in scope
    exact absurd (List.mem_singleton.1 visited ▸ inScope) bridge.2.1
  found_reached := by simp [Climb.start]
  found_ordered := .nil

/-- When a level has been taken from the queue, the next one begins. -/
theorem advance (frontier : Frontier u scope a level [] next w) : Frontier u scope a (level + 1) next [] w where
  positive := Nat.succ_pos level
  queue_eq := by rw [frontier.queue_eq, List.nil_append, List.append_nil]
  here := frontier.above
  above := by simp
  below_visited := by
    intro n below b ascends ne_root
    rcases Nat.lt_succ_iff_lt_or_eq.1 below with lower | rfl
    · exact frontier.below_visited n lower b ascends ne_root
    · exact (frontier.level_covered b ascends ne_root).resolve_right List.not_mem_nil
  level_covered := by
    intro b ascends ne_root
    cases ascends with
    | direct => exact absurd frontier.positive (Nat.lt_irrefl 0)
    | @through _ m _ ascends bridge step =>
      -- the last bridge on the way is on the level that is done
      have visited := (frontier.level_covered m ascends bridge.2.2).resolve_right List.not_mem_nil
      have covered := frontier.bridges_expanded m visited bridge b step ne_root
      rwa [frontier.queue_eq, List.nil_append] at covered
  bridges_expanded := frontier.bridges_expanded
  found_reached := by
    intro x found
    obtain ⟨n, lower, ascends⟩ := frontier.found_reached x found
    exact ⟨n, Nat.le_succ_of_le lower, ascends⟩
  found_ordered := frontier.found_ordered

/-- The first name in the queue is on the level that the walk has come to, once that is chosen so. -/
theorem exists_head {queue : List Bytes} (frontier : Frontier u scope a level now next w)
    (queued : w.queue = name :: queue) :
    ∃ level now next, Frontier u scope a level (name :: now) next w ∧ queue = now ++ next := by
  have whole := frontier.queue_eq.symm.trans queued
  cases now with
  | cons q now =>
    obtain ⟨rfl, rest⟩ := List.cons.inj whole
    exact ⟨level, now, next, frontier, rest.symm⟩
  | nil =>
    subst whole
    exact ⟨level + 1, queue, [], frontier.advance, (List.append_nil queue).symm⟩

theorem skip (frontier : Frontier u scope a level (name :: now) next w)
    (known : name = universalRoot ∨ name ∈ w.visited) :
    Frontier u scope a level now next { w with queue := now ++ next } where
  positive := frontier.positive
  queue_eq := rfl
  here := fun q queued => frontier.here q (List.mem_cons_of_mem _ queued)
  above := frontier.above
  below_visited := frontier.below_visited
  level_covered := by
    intro b ascends ne_root
    have covered := frontier.level_covered b ascends ne_root
    grind
  bridges_expanded := by
    intro m visited bridge b step ne_root
    have covered := frontier.bridges_expanded m visited bridge b step ne_root
    rw [frontier.queue_eq] at covered
    grind
  found_reached := frontier.found_reached
  found_ordered := frontier.found_ordered

/-- What is found on a level comes behind all that was found before: a shorter way to it would have led to it on a
lower level. -/
theorem found_before (frontier : Frontier u scope a level now next w) (new : name ∉ w.visited)
    (ne_root : name ≠ universalRoot) {x : Bytes} (found : x ∈ w.ascent.found) {n : Nat}
    (ascends : AscendsIn u scope a n name) : ∃ m ≤ n, AscendsIn u scope a m x := by
  have upper : level ≤ n := by
    by_contra below
    exact new (frontier.below_visited n (by omega) name ascends ne_root)
  obtain ⟨m, lower, reached⟩ := frontier.found_reached x found
  exact ⟨m, Nat.le_trans lower upper, reached⟩

/-- The walk visits the first name and puts `more` names behind its queue: the next ones on a way through the name if
it is a bridge, and none otherwise. -/
theorem visit (frontier : Frontier u scope a level (name :: now) next w) (new : name ∉ w.visited)
    (ne_root : name ≠ universalRoot) (more : List Bytes)
    (more_iff : ∀ b, b ∈ more ↔ Bridge u scope name ∧ Extends u name b)
    (visited_eq : w'.visited = name :: w.visited) (queue_eq : w'.queue = now ++ (next ++ more))
    (found_eq : w'.ascent.found = w.ascent.found ∨ w'.ascent.found = w.ascent.found ++ [name]) :
    Frontier u scope a level now (next ++ more) w' where
  positive := frontier.positive
  queue_eq := queue_eq
  here := fun q queued => frontier.here q (List.mem_cons_of_mem _ queued)
  above := by
    intro q queued
    rcases List.mem_append.1 queued with old | added
    · exact frontier.above q old
    · obtain ⟨bridge, step⟩ := (more_iff q).1 added
      exact (frontier.here name List.mem_cons_self).through bridge step
  below_visited := by
    intro n below b ascends b_ne_root
    rw [visited_eq]
    exact List.mem_cons_of_mem _ (frontier.below_visited n below b ascends b_ne_root)
  level_covered := by
    intro b ascends b_ne_root
    have covered := frontier.level_covered b ascends b_ne_root
    rw [visited_eq]
    grind
  bridges_expanded := by
    intro m visited bridge b step b_ne_root
    rw [visited_eq] at visited ⊢
    rw [queue_eq]
    rcases List.mem_cons.1 visited with rfl | old
    · have added := (more_iff b).2 ⟨bridge, step⟩
      grind
    · have covered := frontier.bridges_expanded m old bridge b step b_ne_root
      rw [frontier.queue_eq] at covered
      grind
  found_reached := by
    intro x found
    rcases found_eq with same | grown
    · exact frontier.found_reached x (same ▸ found)
    · rw [grown] at found
      rcases List.mem_append.1 found with old | this
      · exact frontier.found_reached x old
      · exact ⟨level, Nat.le_refl _, List.mem_singleton.1 this ▸ frontier.here name List.mem_cons_self⟩
  found_ordered := by
    rcases found_eq with same | grown
    · rw [same]
      exact frontier.found_ordered
    · rw [grown, List.pairwise_append]
      refine ⟨frontier.found_ordered, List.pairwise_singleton _ _, ?_⟩
      intro x found y this n ascends
      rw [List.mem_singleton.1 this] at ascends
      exact frontier.found_before new ne_root found ascends

theorem round (nodup : u.names.Nodup) (step : w.round u scope = some w')
    (frontier : Frontier u scope a level now next w) :
    ∃ level now next, Frontier u scope a level now next w' := by
  obtain ⟨name, queue, queued, done⟩ := round_cases step
  obtain ⟨level, now, next, frontier, rfl⟩ := frontier.exists_head queued
  rcases done with ⟨known, rfl⟩ | ⟨⟨ne_root, new⟩, ⟨absent, rfl⟩ | ⟨inScope, rfl⟩ | ⟨bridge, rfl⟩⟩
  · exact ⟨_, _, _, frontier.skip known⟩
  · refine ⟨_, _, _, frontier.visit new ne_root [] (fun b => ?_) rfl (by simp) (.inl rfl)⟩
    exact ⟨fun member => absurd member List.not_mem_nil, fun ⟨bridge, _⟩ => absurd bridge.1 absent⟩
  · refine ⟨_, _, _, frontier.visit new ne_root [] (fun b => ?_) rfl (by simp) (.inr rfl)⟩
    exact ⟨fun member => absurd member List.not_mem_nil,
      fun ⟨bridge, _⟩ => absurd (mem_classesInScope.1 inScope).2 bridge.2.1⟩
  · refine ⟨_, _, _, frontier.visit new ne_root (u.ancestorsOf name) (fun b => ?_) rfl (by simp) (.inl rfl)⟩
    rw [Universe.mem_ancestorsOf nodup]
    exact ⟨fun step => ⟨bridge, step⟩, And.right⟩

end Frontier

end Climb

/-! ## The whole walk -/

theorem Universe.flatMap_ancestorsOf_names (nodup : u.names.Nodup) :
    u.names.flatMap u.ancestorsOf = u.classes.flatMap ClassInfo.ancestors := by
  rw [names, List.flatMap_map]
  apply List.flatMap_congr
  intro c member
  exact ancestorsOf_eq ((find?_eq_some nodup).2 ⟨member, rfl⟩)

/-- Classes that have their ancestors queued once each queue no more names than the universe has. -/
theorem Climb.Accounted.length_le {n : Nat} {w : Climb} (nodup : u.names.Nodup) (accounted : Accounted u n w) :
    (w.sources.flatMap u.ancestorsOf).length ≤ (u.classes.flatMap ClassInfo.ancestors).length := by
  obtain ⟨kept, same, kept_sublist⟩ := accounted.nodup.subperm accounted.present
  calc (w.sources.flatMap u.ancestorsOf).length
      = (kept.flatMap u.ancestorsOf).length := (same.flatMap_right u.ancestorsOf).length_eq.symm
    _ ≤ (u.names.flatMap u.ancestorsOf).length := (kept_sublist.flatMap u.ancestorsOf).length_le
    _ = (u.classes.flatMap ClassInfo.ancestors).length := by rw [Universe.flatMap_ancestorsOf_names nodup]

/-- The walk from a class in scope, on every universe and along cycles too.  It finds, once each, exactly the other
classes in scope that a way upwards leads to, the universal root apart, and none of them behind one that needs more
steps.  It ends: after some rounds the queue is empty.  Until then no class has its ancestors queued twice, so there
is a round for every name that was queued, and there are no more of them than the universe has references to
ancestors. -/
theorem nearestAncestors_breadthFirst (classes : List (Option ClassInfo)) (scope : Scope) (a : Bytes)
    (child : a ∈ classesInScope (.ofList classes) scope) :
    let u := Universe.ofList classes
    let found := (nearestAncestors u scope a).found
    found.Nodup ∧
    (∀ b, b ∈ found ↔ b ∈ classesInScope u scope ∧ b ≠ a ∧ b ≠ universalRoot ∧ ∃ n, AscendsIn u scope a n b) ∧
    (found.Pairwise fun x y => ∀ n, AscendsIn u scope a n y → ∃ m ≤ n, AscendsIn u scope a m x) ∧
    ∃ n last, Climb.Runs u scope n (.start u a) last ∧ last.queue = [] ∧ last.ascent = nearestAncestors u scope a ∧
      last.sources.Nodup ∧ n = (last.sources.flatMap u.ancestorsOf).length ∧
      n ≤ (u.classes.flatMap ClassInfo.ancestors).length := by
  intro u found
  have nodup : u.names.Nodup := Universe.nodup_names_ofList classes
  obtain ⟨present, inScope⟩ := mem_classesInScope.1 child
  obtain ⟨c, member, named⟩ := Universe.mem_names.1 present
  have found? : u.find? a = some c := (Universe.find?_eq_some nodup).2 ⟨member, named⟩
  obtain ⟨n, last, run, ended, result⟩ := Climb.exists_run u scope [a] (u.ancestorsOf a) {} [a]
  have result : last.ascent = nearestAncestors u scope a := by
    rw [result, nearestAncestors, found?, Universe.ancestorsOf_eq found?]
  obtain ⟨level, now, next, frontier⟩ : ∃ level now next, Climb.Frontier u scope a level now next last := by
    refine run.keeps (k := 0) (P := fun _ w => ∃ level now next, Climb.Frontier u scope a level now next w)
      (fun step => ?_) ⟨_, _, _, .start nodup inScope⟩
    rintro ⟨level, now, next, frontier⟩
    exact frontier.round nodup step
  have accounted : Climb.Accounted u (0 + n) last := run.keeps (fun step => .round step) (.start present)
  have rounds : n = (last.sources.flatMap u.ancestorsOf).length := by
    obtain ⟨taken, count, all⟩ := accounted.queued
    rw [all, ended, List.append_nil, count, Nat.zero_add]
  refine ⟨?_, fun b => ?_, ?_, n, last, run, ended, result, accounted.nodup, rounds, ?_⟩
  · obtain ⟨done, distinct, -, found_eq, -⟩ := exists_visited nodup child
    simp only [found, found_eq]
    exact distinct.filter _
  · rw [mem_found_nearestAncestors nodup child, ← ascends_iff]
    constructor
    · rintro ⟨-, ancestor, ne, ne_root, ascends⟩
      exact ⟨ancestor, ne, ne_root, ascends⟩
    · rintro ⟨ancestor, ne, ne_root, ascends⟩
      exact ⟨child, ancestor, ne, ne_root, ascends⟩
  · simp only [found, ← result]
    exact frontier.found_ordered
  · rw [rounds]
    exact accounted.length_le nodup

/-- The class `aA` names itself and names `xN` twice.  Above it, `xM` and `xN` meet in `xR`, which names `xM` and `aA`
again; `aB`, `aC` and `aD` are in scope, and `aD` is one step further up. -/
def tangledClasses : List (Option ClassInfo) := [
  some ⟨[0x61, 0x41], [0x78, 0x4D], [[0x78, 0x4E], [0x78, 0x4E], [0x61, 0x41]], false, []⟩,
  some ⟨[0x78, 0x4D], [0x78, 0x52], [[0x61, 0x42]], false, []⟩,
  some ⟨[0x78, 0x4E], [0x78, 0x52], [[0x61, 0x43]], false, []⟩,
  some ⟨[0x78, 0x52], [0x78, 0x4D], [[0x61, 0x44], [0x61, 0x41]], false, []⟩,
  some ⟨[0x61, 0x42], universalRoot, [], false, []⟩,
  some ⟨[0x61, 0x43], [], [], true, []⟩,
  some ⟨[0x61, 0x44], [], [], true, []⟩]

theorem nearestAncestors_breadthFirst_tangledClasses :
    let u := Universe.ofList tangledClasses
    let scope : Scope := { packagePrefix := [0x61] }
    let a : Bytes := [0x61, 0x41]
    let found := (nearestAncestors u scope a).found
    a ∈ classesInScope u scope ∧
    found.Nodup ∧ a ∉ found ∧ [0x61, 0x42] ∈ found ∧ [0x61, 0x44] ∈ found ∧
    (found.Pairwise fun x y => ∀ n, AscendsIn u scope a n y → ∃ m ≤ n, AscendsIn u scope a m x) ∧
    ∃ n last, Climb.Runs u scope n (.start u a) last ∧ last.queue = [] ∧ last.sources.Nodup ∧ n ≤ 12 := by
  intro u scope a found
  have child : a ∈ classesInScope u scope := by decide +kernel
  obtain ⟨distinct, exactly, ordered, n, last, run, ended, -, once, -, bound⟩ :=
    nearestAncestors_breadthFirst tangledClasses scope a child
  have toM : AscendsIn u scope a 1 [0x78, 0x4D] := .direct (by unfold Extends; decide +kernel)
  have bridgeM : Bridge u scope [0x78, 0x4D] := by unfold Bridge; decide +kernel
  have toR : AscendsIn u scope a 2 [0x78, 0x52] := toM.through bridgeM (by unfold Extends; decide +kernel)
  have bridgeR : Bridge u scope [0x78, 0x52] := by unfold Bridge; decide +kernel
  have toB : AscendsIn u scope a 2 [0x61, 0x42] := toM.through bridgeM (by unfold Extends; decide +kernel)
  have toD : AscendsIn u scope a 3 [0x61, 0x44] := toR.through bridgeR (by unfold Extends; decide +kernel)
  refine ⟨child, distinct, fun own => ((exactly a).1 own).2.1 rfl, (exactly _).2 ⟨?_, ?_, ?_, 2, toB⟩,
    (exactly _).2 ⟨?_, ?_, ?_, 3, toD⟩, ordered, n, last, run, ended, once, Nat.le_trans bound ?_⟩
  all_goals decide +kernel

end JvmCoupling
