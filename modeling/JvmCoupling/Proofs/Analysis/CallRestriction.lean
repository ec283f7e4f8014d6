import JvmCoupling.Proofs.Analysis.CallCoupling

/-! # Scopes restrict call coupling

A scope decides call by call what counts, before repetitions are dropped and before calls are grouped into
records.  The outcome is the same as if the whole universe were analysed and the scope were applied to the
records at the end: a coupling of two classes is either there with all its calls or not at all.

* `Scope.Covers` — the pairs of classes that a scope keeps;
* `couplings_eq_filter` — the pairs of a scope are those of the whole universe that it covers;
* `eraseDups_callers` — with the caller as the owner, records stand in universe order, in every scope.
-/

namespace JvmCoupling

/-- Both classes are in scope, and in target mode one of them is the target. -/
def Scope.Covers (scope : Scope) (a b : Bytes) : Prop :=
  scope.InScope a ∧ scope.InScope b ∧ (scope.target = [] ∨ a = scope.target ∨ b = scope.target)

instance (scope : Scope) (a b : Bytes) : Decidable (scope.Covers a b) := inferInstanceAs (Decidable (_ ∧ _))

theorem Scope.covers_comm {scope : Scope} {a b : Bytes} : scope.Covers a b ↔ scope.Covers b a := by
  unfold Covers
  tauto

/-! ## Calls -/

variable {u : Universe} {scope : Scope}

/-- Without a prefix and a target, every call to another class that is known counts. -/
theorem CallSite.couples_everything {caller : Bytes} {site : CallSite} :
    site.Couples {} caller ↔ site.owner ≠ [] ∧ site.owner ≠ caller := by
  simp [Couples, Scope.InScope]

theorem CallSite.couples_iff_covers {caller : Bytes} {site : CallSite} :
    scope.InScope caller ∧ site.Couples scope caller ↔ site.Couples {} caller ∧ scope.Covers caller site.owner := by
  rw [couples_everything]
  unfold Couples Scope.Covers
  tauto

theorem filter_siteEdges (caller signature : Bytes) (site : CallSite) :
    (siteEdges {} caller signature site).filter (fun e => scope.Covers e.caller e.callee) =
      if scope.InScope caller then siteEdges scope caller signature site else [] := by
  unfold siteEdges
  rw [← ite_and]
  simp only [CallSite.couples_iff_covers]
  by_cases couples : site.Couples {} caller
  · by_cases covers : scope.Covers caller site.owner <;> simp [couples, covers]
  · simp [couples]

theorem classEdges_eq_filter (c : ClassInfo) :
    classEdges scope c = (classEdges {} c).filter fun e => scope.Covers e.caller e.callee := by
  have everything : ({} : Scope).InScope c.name := .inl List.nil_prefix
  unfold classEdges
  rw [if_pos everything]
  simp only [List.filter_flatMap, filter_siteEdges]
  split
  · rfl
  · simp

theorem observedEdges_eq_filter :
    observedEdges u scope = (observedEdges u {}).filter fun e => scope.Covers e.caller e.callee := by
  unfold observedEdges
  rw [List.filter_flatMap]
  congr 1
  funext c
  exact classEdges_eq_filter c

theorem callEdges_eq_filter : callEdges u scope = (callEdges u {}).filter fun e => scope.Covers e.caller e.callee := by
  rw [callEdges, callEdges, filter_eraseDups, observedEdges_eq_filter]

/-! ## Pairs -/

theorem filter_couplings (direction : Direction) (e : CallEdge) :
    (e.couplings direction).filter (fun pair => scope.Covers pair.1 pair.2) =
      if scope.Covers e.caller e.callee then e.couplings direction else [] := by
  unfold CallEdge.couplings
  have back : scope.Covers e.callee e.caller ↔ scope.Covers e.caller e.callee := Scope.covers_comm
  by_cases covers : scope.Covers e.caller e.callee
  · cases direction <;> simp [covers, back]
  · cases direction <;> simp [covers, back]

/-- The pairs of a scope are the pairs of the whole universe that it covers, in the same order and as often. -/
theorem couplings_eq_filter (u : Universe) (scope : Scope) (direction : Direction) :
    couplings u scope direction = (couplings u {} direction).filter fun pair => scope.Covers pair.1 pair.2 := by
  unfold couplings
  rw [callEdges_eq_filter]
  induction callEdges u {} with
  | nil => rfl
  | cons e edges ih =>
    rw [List.flatMap_cons, List.filter_append, filter_couplings, ← ih]
    by_cases covers : scope.Covers e.caller e.callee
    · rw [List.filter_cons_of_pos (by simpa using covers), List.flatMap_cons, if_pos covers]
    · rw [List.filter_cons_of_neg (by simpa using covers), if_neg covers, List.nil_append]

/-- A coupling that a scope covers has all its calls there. -/
theorem couples_iff_of_scope {direction : Direction} {owner other : Bytes} {calls : Int} :
    (analyzeCalls u scope direction).Couples owner other calls ↔
      (analyzeCalls u {} direction).Couples owner other calls ∧ scope.Covers owner other := by
  have member : (owner, other) ∈ couplings u scope direction ↔
      (owner, other) ∈ couplings u {} direction ∧ scope.Covers owner other := by
    simp [couplings_eq_filter u scope]
  have count (covers : scope.Covers owner other) :
      (couplings u scope direction).count (owner, other) = (couplings u {} direction).count (owner, other) := by
    rw [couplings_eq_filter u scope]
    exact List.count_filter (by simpa using covers)
  rw [couples_analyzeCalls, couples_analyzeCalls, member]
  constructor
  · rintro ⟨⟨pair, covers⟩, calls⟩
    exact ⟨⟨pair, by rw [calls, count covers]⟩, covers⟩
  · rintro ⟨⟨pair, calls⟩, covers⟩
    exact ⟨⟨pair, covers⟩, by rw [calls, count covers]⟩

/-! ## Records -/

/-- The entries of an owner in a part of the pairs, with the counts that they have in all of them. -/
theorem coupledTo_filter (keeps : Bytes × Bytes → Bool) (pairs : List (Bytes × Bytes)) (owner : Bytes) :
    coupledTo (pairs.filter keeps) owner = (coupledTo pairs owner).filter fun entry => keeps (owner, entry.name) := by
  have names : ((pairs.filter keeps).filter (·.1 = owner)).map Prod.snd =
      ((pairs.filter (·.1 = owner)).map Prod.snd).filter fun other => keeps (owner, other) := by
    rw [List.filter_map, List.filter_filter, List.filter_filter]
    congr 1
    apply List.filter_congr
    rintro ⟨x, y⟩ -
    by_cases own : x = owner <;> simp [own]
  unfold coupledTo
  rw [names, ← filter_eraseDups, List.filter_map]
  apply List.map_congr_left
  intro other kept
  rw [List.count_filter (List.mem_filter.1 kept).2]

/-- The callers of a universe stand in the order of their classes. -/
theorem eraseDups_callers (nodup : u.names.Nodup) (scope : Scope) :
    ((couplings u scope .caller).map Prod.fst).eraseDups =
      u.names.filter fun name => ((couplings u scope .caller).map Prod.fst).contains name := by
  have callers : (couplings u scope .caller).map Prod.fst = (callEdges u scope).map CallEdge.caller := by
    rw [couplings, List.map_flatMap, ← List.flatMap_singleton' ((callEdges u scope).map CallEdge.caller),
      List.flatMap_map]
    rfl
  have observed : (observedEdges u scope).map CallEdge.caller =
      u.classes.flatMap fun c => (classEdges scope c).map CallEdge.caller := List.map_flatMap
  have own : ∀ c : ClassInfo, ∀ x ∈ (classEdges scope c).map CallEdge.caller, x = c.name := by
    intro c x member
    obtain ⟨e, edge, rfl⟩ := List.mem_map.1 member
    obtain ⟨d, listed, -, m, -, site, -, -, rfl⟩ := mem_observedEdges.1
      (show e ∈ observedEdges ⟨[c]⟩ scope by simpa [observedEdges] using edge)
    rw [List.mem_singleton.1 listed]
  have blocks := eraseDups_flatMap_blocks nodup own
  rw [callers, callEdges, eraseDups_map_eraseDups, observed, blocks, Universe.names]
  apply List.filter_congr
  intro name _
  rw [Bool.eq_iff_iff, ← observed]
  simp

/-- A record with the entries that a scope covers. -/
def CallRecord.restrict (scope : Scope) (record : CallRecord) : CallRecord :=
  { record with coupled := record.coupled.filter fun entry => scope.Covers record.owner entry.name }

/-- Narrowing an analysis to a scope restricts what it reports and changes nothing else.  In every direction it
reports the couplings of the whole universe that the scope covers, with the same numbers of calls.  With the
caller as the owner, the records are those of the whole universe, in their order, with the entries that the
scope covers and without the records that become empty. -/
theorem analyzeCalls_restrict (classes : List (Option ClassInfo)) (scope : Scope) (direction : Direction) :
    let u := Universe.ofList classes
    (∀ owner other calls, (analyzeCalls u scope direction).Couples owner other calls ↔
      (analyzeCalls u {} direction).Couples owner other calls ∧
        scope.InScope owner ∧ scope.InScope other ∧
        (scope.target = [] ∨ owner = scope.target ∨ other = scope.target)) ∧
    (analyzeCalls u scope .caller).records =
      ((analyzeCalls u {} .caller).records.map (CallRecord.restrict scope)).filter fun record =>
        record.coupled ≠ [] := by
  intro u
  constructor
  · intro owner other calls
    exact couples_iff_of_scope
  · have nodup : u.names.Nodup := Universe.nodup_names_ofList classes
    have restricted (owner : Bytes) : CallRecord.restrict scope ⟨owner, coupledTo (couplings u {} .caller) owner⟩ =
        ⟨owner, coupledTo (couplings u scope .caller) owner⟩ := by
      rw [couplings_eq_filter u scope, coupledTo_filter]
      rfl
    rw [records_analyzeCalls, records_analyzeCalls, groupPairs, groupPairs, eraseDups_callers nodup,
      eraseDups_callers nodup, List.map_map, List.filter_map, List.filter_filter]
    have owners : (u.names.filter fun name => ((couplings u scope .caller).map Prod.fst).contains name) =
        u.names.filter fun name => decide (coupledTo (couplings u scope .caller) name ≠ []) &&
          ((couplings u {} .caller).map Prod.fst).contains name := by
      apply List.filter_congr
      intro name _
      rw [Bool.eq_iff_iff, Bool.and_eq_true, decide_eq_true_eq, List.contains_iff_mem, List.contains_iff_mem, Ne,
        coupledTo_eq_nil, not_not]
      refine ⟨fun owns => ⟨owns, ?_⟩, And.left⟩
      rw [couplings_eq_filter u scope] at owns
      exact List.map_subset _ (List.filter_subset_self _) owns
    rw [owners]
    simp only [Function.comp_def, restricted]

end JvmCoupling
