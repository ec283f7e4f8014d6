import JvmCoupling.Proofs.Analysis.CallStatistics

/-! # Calls from one class into another

The strength of a coupling is a number of calls, but the record does not say which of its two classes calls:
that depends on the direction of the analysis.  This module counts the calls from one class into another in
the methods of the caller, and says what a direction makes of these numbers.  The directions are views of one
relation: the callee's view is the caller's turned round, and the view of both adds the two.

* `Universe.callsInto` — the number of distinct calls from one class into another;
* `Scope.Admits` — two classes between which calls count;
* `count_couplings` — the strength of a coupling, by the direction;
* `CallReport.calls` — the strength that a report gives to a coupling;
* `directions_view_oneRelation` — how the reports of the directions are related.
-/

namespace JvmCoupling

/-! ## Distinct calls -/

/-- The calls of a class into `callee`: the calling method and the called one, each pair once. -/
def ClassInfo.callsTo (c : ClassInfo) (callee : Bytes) : List (Bytes × Bytes) :=
  (c.methods.flatMap fun m =>
    (m.calls.filter (·.owner = callee)).map fun site => (m.signature, site.method)).eraseDups

/-- How many distinct calls lead from one class into another.  A class that is not there makes none. -/
def Universe.callsInto (u : Universe) (caller callee : Bytes) : Nat :=
  match u.find? caller with
  | some c => (c.callsTo callee).length
  | none => 0

theorem ClassInfo.mem_callsTo {c : ClassInfo} {callee : Bytes} {call : Bytes × Bytes} :
    call ∈ c.callsTo callee ↔
      ∃ m ∈ c.methods, ∃ site ∈ m.calls, site.owner = callee ∧ call = (m.signature, site.method) := by
  simp only [callsTo, List.mem_eraseDups, List.mem_flatMap, List.mem_map, List.mem_filter, decide_eq_true_eq]
  constructor
  · rintro ⟨m, declared, site, ⟨made, owner⟩, rfl⟩
    exact ⟨m, declared, site, made, owner, rfl⟩
  · rintro ⟨m, declared, site, made, owner, rfl⟩
    exact ⟨m, declared, site, ⟨made, owner⟩, rfl⟩

theorem ClassInfo.nodup_callsTo (c : ClassInfo) (callee : Bytes) : (c.callsTo callee).Nodup := nodup_eraseDups _

theorem Universe.mem_names_of_callsInto {u : Universe} {caller callee : Bytes} (calls : 1 ≤ u.callsInto caller callee) :
    caller ∈ u.names := by
  by_contra absent
  simp [callsInto, find?_eq_none.2 absent] at calls

/-! ## Calls that count -/

/-- Two different classes in scope between which calls count, whichever of the two is the caller. -/
structure Scope.Admits (scope : Scope) (a b : Bytes) : Prop where
  first : scope.InScope a ∧ a ≠ []
  second : scope.InScope b ∧ b ≠ []
  different : a ≠ b
  touches : scope.target ≠ [] → a = scope.target ∨ b = scope.target

theorem Scope.Admits.symm {scope : Scope} {a b : Bytes} (admits : scope.Admits a b) : scope.Admits b a :=
  ⟨admits.second, admits.first, admits.different.symm, fun narrowed => (admits.touches narrowed).symm⟩

theorem CallSite.Couples.admits {scope : Scope} {caller : Bytes} {site : CallSite} (inScope : scope.InScope caller)
    (named : caller ≠ []) (couples : site.Couples scope caller) : scope.Admits caller site.owner := by
  obtain ⟨resolved, calleeInScope, different, touches⟩ := couples
  exact ⟨⟨inScope, named⟩, ⟨calleeInScope, resolved⟩, different.symm, touches⟩

theorem Scope.Admits.couples {scope : Scope} {caller : Bytes} {site : CallSite}
    (admits : scope.Admits caller site.owner) : site.Couples scope caller :=
  ⟨admits.second.2, admits.second.1, admits.different.symm, admits.touches⟩

section Universe

variable {u : Universe} {scope : Scope} {direction : Direction} {a b : Bytes}

theorem mem_callEdges_of_admits (nodup : u.names.Nodup) {c : ClassInfo} (found : u.find? a = some c)
    (admits : scope.Admits a b) {call : Bytes × Bytes} :
    (⟨a, b, call.1, call.2⟩ : CallEdge) ∈ callEdges u scope ↔ call ∈ c.callsTo b := by
  obtain ⟨present, named⟩ := (Universe.find?_eq_some nodup).1 found
  simp only [callEdges, List.mem_eraseDups, mem_observedEdges, ClassInfo.mem_callsTo, CallEdge.mk.injEq]
  constructor
  · rintro ⟨d, presentToo, -, m, declared, site, made, -, sameName, rfl, signature, method⟩
    obtain rfl : d = c := by
      have foundToo := (Universe.find?_eq_some nodup).2 ⟨presentToo, sameName.symm⟩
      exact Option.some.inj (foundToo.symm.trans found)
    exact ⟨m, declared, site, made, rfl, Prod.ext signature method⟩
  · rintro ⟨m, declared, site, made, rfl, rfl⟩
    subst named
    exact ⟨c, present, admits.first.1, m, declared, site, made, admits.couples, rfl, rfl, rfl, rfl⟩

/-- The edges from one class to another are its calls into that class. -/
theorem countP_callEdges (nodup : u.names.Nodup) (admits : scope.Admits a b) :
    (callEdges u scope).countP (fun e => e.caller = a ∧ e.callee = b) = u.callsInto a b := by
  cases found : u.find? a with
  | none =>
    rw [Universe.callsInto, found, List.countP_eq_zero]
    intro e member
    obtain ⟨c, present, -, -, -, -, -, -, rfl⟩ := mem_observedEdges.1 (List.mem_eraseDups.1 member)
    have absent := Universe.find?_eq_none.1 found
    have elsewhere : c.name ≠ a := fun same => absent (Universe.mem_names.2 ⟨c, present, same⟩)
    simp [elsewhere]
  | some c =>
    -- an edge between the two is known by its methods, so both lists count the same pairs
    rw [Universe.callsInto, found, List.countP_eq_length_filter,
      ← List.length_map (fun e : CallEdge => (e.callerMethod, e.calleeMethod))]
    apply List.Perm.length_eq
    refine (List.perm_ext_iff_of_nodup ?_ (c.nodup_callsTo b)).2 fun call => ?_
    · refine List.Nodup.map_on ?_ ((nodup_eraseDups _).filter _)
      rintro ⟨_, _, _, _⟩ between ⟨_, _, _, _⟩ between' same
      simp_all
    · rw [← mem_callEdges_of_admits nodup found admits]
      simp only [List.mem_map, List.mem_filter, decide_eq_true_eq]
      constructor
      · rintro ⟨e, ⟨member, rfl, rfl⟩, rfl⟩
        exact member
      · intro member
        exact ⟨_, ⟨member, rfl, rfl⟩, rfl⟩

/-! ## What a direction counts -/

/-- The pairs of two classes that a list of edges gives rise to: the edges one way, the other way, or
both. -/
theorem count_flatMap_couplings (direction : Direction) (a b : Bytes) (edges : List CallEdge) :
    (edges.flatMap (CallEdge.couplings direction)).count (a, b) =
      (if direction = .callee then 0 else edges.countP fun e => e.caller = a ∧ e.callee = b) +
      (if direction = .callee ∨ direction = .both then edges.countP fun e => e.caller = b ∧ e.callee = a else 0) := by
  induction edges with
  | nil => simp
  | cons e edges ih =>
    have forward : ([(e.caller, e.callee)] : List (Bytes × Bytes)).count (a, b) =
        if e.caller = a ∧ e.callee = b then 1 else 0 := by simp [List.count_singleton]
    have backward : ([(e.callee, e.caller)] : List (Bytes × Bytes)).count (a, b) =
        if e.caller = b ∧ e.callee = a then 1 else 0 := by simp [List.count_singleton, and_comm]
    rw [List.flatMap_cons, List.count_append, ih]
    cases direction <;>
      simp only [CallEdge.couplings, List.countP_cons, List.count_append, forward, backward, decide_eq_true_eq,
        reduceCtorEq, if_true, if_false, or_true, or_false, or_self, List.nil_append, List.append_nil] <;>
      omega

theorem admits_of_mem_couplings (named : [] ∉ u.names) (member : (a, b) ∈ couplings u scope direction) :
    scope.Admits a b := by
  simp only [couplings, callEdges, List.mem_flatMap, List.mem_eraseDups, mem_observedEdges] at member
  obtain ⟨e, ⟨c, present, inScope, m, -, site, -, couples, rfl⟩, pair⟩ := member
  have name : c.name ≠ [] := fun unnamed => named (Universe.mem_names.2 ⟨c, present, unnamed⟩)
  have admits := couples.admits inScope name
  simp only [CallEdge.couplings, List.mem_append, List.mem_ite_nil_left, List.mem_ite_nil_right, List.mem_singleton,
    Prod.mk.injEq] at pair
  rcases pair with ⟨-, rfl, rfl⟩ | ⟨-, rfl, rfl⟩
  · exact admits
  · exact admits.symm

/-- The strength of a coupling: the calls of the owner, those into the owner, or the sum of both. -/
theorem count_couplings (nodup : u.names.Nodup) (admits : scope.Admits a b) (direction : Direction) :
    (couplings u scope direction).count (a, b) =
      (if direction = .callee then 0 else u.callsInto a b) +
      (if direction = .callee ∨ direction = .both then u.callsInto b a else 0) := by
  rw [couplings, count_flatMap_couplings, countP_callEdges nodup admits, countP_callEdges nodup admits.symm]

end Universe

/-! ## Views of one relation -/

/-- The number of calls by which a report couples an owner to another class, and 0 if it does not. -/
def CallReport.calls (report : CallReport) (owner other : Bytes) : Int :=
  match report.records.find? (·.owner = owner) with
  | none => 0
  | some record =>
    match record.coupled.find? (·.name = other) with
    | none => 0
    | some entry => entry.calls

variable {u : Universe} {scope : Scope}

theorem calls_analyzeCalls (direction : Direction) (owner other : Bytes) :
    (analyzeCalls u scope direction).calls owner other = (couplings u scope direction).count (owner, other) := by
  unfold CallReport.calls
  rw [records_analyzeCalls, groupPairs, find?_map_key fun _ => rfl]
  generalize couplings u scope direction = pairs
  by_cases owns : owner ∈ (pairs.map Prod.fst).eraseDups
  · rw [if_pos owns]
    simp only [coupledTo]
    rw [find?_map_key fun _ => rfl]
    have listed : other ∈ ((pairs.filter (·.1 = owner)).map Prod.snd).eraseDups ↔ (owner, other) ∈ pairs := by
      simp
    by_cases pair : (owner, other) ∈ pairs
    · rw [if_pos (listed.2 pair)]
    · rw [if_neg fun coupled => pair (listed.1 coupled), List.count_eq_zero.2 pair]
      rfl
  · have absent : (owner, other) ∉ pairs := fun pair => owns (List.mem_eraseDups.2 (List.mem_map_of_mem pair))
    rw [if_neg owns, List.count_eq_zero.2 absent]
    rfl

theorem couples_iff_calls {direction : Direction} {owner other : Bytes} {calls : Int} :
    (analyzeCalls u scope direction).Couples owner other calls ↔
      0 < calls ∧ calls = (analyzeCalls u scope direction).calls owner other := by
  rw [couples_analyzeCalls, calls_analyzeCalls, ← List.count_pos_iff]
  omega

theorem calls_callee (x y : Bytes) :
    (analyzeCalls u scope .callee).calls y x = (analyzeCalls u scope .caller).calls x y := by
  rw [calls_analyzeCalls, calls_analyzeCalls, couplings, couplings, count_flatMap_couplings, count_flatMap_couplings]
  simp

theorem calls_both (x y : Bytes) :
    (analyzeCalls u scope .both).calls x y =
      (analyzeCalls u scope .caller).calls x y + (analyzeCalls u scope .caller).calls y x := by
  simp only [calls_analyzeCalls, couplings, count_flatMap_couplings]
  simp

/-- Every direction names the same classes, as owners or as coupled classes. -/
theorem coupledClasses_perm (u : Universe) (scope : Scope) (direction : Direction) :
    (coupledClasses u scope direction).Perm (coupledClasses u scope .caller) := by
  refine (List.perm_ext_iff_of_nodup (nodup_eraseDups _) (nodup_eraseDups _)).2 fun x => ?_
  rw [← coupledClasses, ← coupledClasses, mem_coupledClasses, mem_coupledClasses]
  apply exists_congr
  intro y
  simp only [← List.count_pos_iff, couplings, count_flatMap_couplings]
  cases direction <;>
    simp only [reduceCtorEq, if_true, if_false, or_true, or_false, or_self, Nat.add_zero, Nat.zero_add] <;>
    omega

/-- The reports of the directions say the same about the calls between two classes.  What the caller's report says
of two classes, the callee's says of the same two turned round.  The report of both adds what the caller's says of
them both ways round, and so it is symmetric.  A number that stands for no direction gives the caller's report, and
the statistics do not depend on the direction. -/
theorem directions_view_oneRelation (u : Universe) (scope : Scope) :
    let report := analyzeCalls u scope
    (∀ x y n, (report .caller).Couples x y n ↔ (report .callee).Couples y x n) ∧
    (∀ x y n, (report .both).Couples x y n ↔
      0 < n ∧ n = (report .caller).calls x y + (report .caller).calls y x) ∧
    (∀ x y n, (report .both).Couples x y n ↔ (report .both).Couples y x n) ∧
    (∀ code : Int, code < 0 ∨ 2 < code → report (.ofCode code) = report .caller) ∧
    (∀ direction, (report direction).stats = (report .caller).stats) := by
  intro report
  refine ⟨?_, ?_, ?_, ?_, ?_⟩
  · intro x y n
    rw [couples_iff_calls, couples_iff_calls, calls_callee]
  · intro x y n
    rw [couples_iff_calls, calls_both]
  · intro x y n
    rw [couples_iff_calls, couples_iff_calls, calls_both, calls_both, Int.add_comm]
  · intro code outside
    have unknown : Direction.ofCode code = .unknown := by
      unfold Direction.ofCode
      rw [if_neg (by omega), if_neg (by omega), if_neg (by omega)]
    rw [unknown]
    rfl
  · intro direction
    rw [stats_analyzeCalls, stats_analyzeCalls, (coupledClasses_perm u scope direction).length_eq]

/-- Two calls one way and one the other way. -/
theorem directions_view_oneRelation_callsBetweenTwo :
    (2 : Int) < 7 ∧
    analyzeCalls callsBetweenTwo {} (.ofCode 7) = analyzeCalls callsBetweenTwo {} .caller ∧
    (analyzeCalls callsBetweenTwo {} .caller).calls [0x41] [0x42] = 2 ∧
    (analyzeCalls callsBetweenTwo {} .caller).calls [0x42] [0x41] = 1 ∧
    (analyzeCalls callsBetweenTwo {} .both).Couples [0x41] [0x42] 3 ∧
    (analyzeCalls callsBetweenTwo {} .both).Couples [0x42] [0x41] 3 := by
  obtain ⟨-, both, symmetric, outside, -⟩ := directions_view_oneRelation callsBetweenTwo {}
  have coupled := (both [0x41] [0x42] 3).2 ⟨by decide, by decide⟩
  exact ⟨by decide, outside 7 (.inr (by decide)), by decide, by decide, coupled, (symmetric _ _ _).1 coupled⟩

end JvmCoupling
