import JvmCoupling.Graph.Batch
import JvmCoupling.Proofs.Analysis.CallDirections

/-! # What the exported call rows say

The export writes every entry of a call record as a row from the owner of the record to the coupled class,
whatever the direction of the analysis.  A row states calls of its source into its target exactly if the
caller owns the records.  In the other directions it states the calls of its target into its source, or the
sum of both, and the source of a row may be a class that is not in the universe.

* `Graph.mem_callRows` — the rows of a grouping;
* `Graph.calls_callRows` — the number of calls in a row, by the direction;
* `Graph.calledClass_has_row` — a row whose source calls nothing.
-/

namespace JvmCoupling.Graph

theorem mem_callRows {pairs : List (Bytes × Bytes)} {row : CallRow} :
    row ∈ callRows (groupPairs pairs) ↔
      (row.source, row.target) ∈ pairs ∧ row.calls = pairs.count (row.source, row.target) := by
  simp only [callRows, List.mem_flatMap, List.mem_map]
  constructor
  · rintro ⟨record, recorded, entry, listed, rfl⟩
    rw [(mem_groupPairs.1 recorded).2] at listed
    exact mem_coupledTo.1 listed
  · rintro ⟨pair, calls⟩
    have owns : row.source ∈ pairs.map Prod.fst := List.mem_map.2 ⟨_, pair, rfl⟩
    exact ⟨⟨row.source, coupledTo pairs row.source⟩, mem_groupPairs.2 ⟨owns, rfl⟩, ⟨row.target, row.calls⟩,
      mem_coupledTo.2 ⟨pair, calls⟩, rfl⟩

/-- The number of calls in an exported row.  Unless only callees own records it counts the calls of the
source into the target, and in the directions `callee` and `both` it counts those of the target into the
source.  It is never zero.  So when callers own the records, the source is a class of the universe that
makes that many distinct calls into the target. -/
theorem calls_callRows (classes : List (Option ClassInfo)) (scope : Scope) (direction : Direction) (row : CallRow)
    (exported : row ∈ callRows (analyzeCalls (.ofList classes) scope direction).records) :
    1 ≤ row.calls ∧
    row.calls =
      ((if direction = .callee then 0 else (Universe.ofList classes).callsInto row.source row.target) +
      (if direction = .callee ∨ direction = .both then (Universe.ofList classes).callsInto row.target row.source
        else 0) : Nat) ∧
    (direction ≠ .callee ∧ direction ≠ .both →
      row.source ∈ (Universe.ofList classes).names ∧
      row.calls = (Universe.ofList classes).callsInto row.source row.target) := by
  rw [records_analyzeCalls] at exported
  obtain ⟨pair, calls⟩ := mem_callRows.1 exported
  have positive : 1 ≤ row.calls := by
    have counted := List.count_pos_iff.2 pair
    omega
  have admits := admits_of_mem_couplings (Universe.nil_not_mem_names_ofList classes) pair
  rw [count_couplings (Universe.nodup_names_ofList classes) admits direction] at calls
  refine ⟨positive, calls, ?_⟩
  rintro ⟨notCallee, notBoth⟩
  rw [if_neg notCallee, if_neg (not_or.2 ⟨notCallee, notBoth⟩), Nat.add_zero] at calls
  have made : 1 ≤ (Universe.ofList classes).callsInto row.source row.target := by omega
  exact ⟨Universe.mem_names_of_callsInto made, calls⟩

/-- `A`, which calls nothing, and `C`, two methods of which call a method of `A`. -/
def callsOneWay : List (Option ClassInfo) := [
  some ⟨[0x41], [], [], false, [⟨[0x6D], [], []⟩]⟩,
  some ⟨[0x43], [], [], false, [⟨[0x66], [], [⟨[0x41], [0x6D]⟩]⟩, ⟨[0x67], [], [⟨[0x41], [0x6D]⟩, ⟨[0x41], [0x6D]⟩]⟩]⟩]

theorem calls_callRows_callsOneWay :
    (⟨[0x43], [0x41], 2⟩ : CallRow) ∈ callRows (analyzeCalls (.ofList callsOneWay) {} .caller).records ∧
      [0x43] ∈ (Universe.ofList callsOneWay).names ∧ (Universe.ofList callsOneWay).callsInto [0x43] [0x41] = 2 := by
  have exported : (⟨[0x43], [0x41], 2⟩ : CallRow) ∈
      callRows (analyzeCalls (.ofList callsOneWay) {} .caller).records := by decide
  obtain ⟨-, -, directed⟩ := calls_callRows callsOneWay {} .caller _ exported
  obtain ⟨present, calls⟩ := directed (by decide)
  exact ⟨exported, present, (Int.ofNat_inj.1 calls).symm⟩

/-- When callees own the records, a row says that `A` calls into `C`, although `A` calls nothing. -/
theorem calledClass_has_row :
    (⟨[0x41], [0x43], 2⟩ : CallRow) ∈ callRows (analyzeCalls (.ofList callsOneWay) {} .callee).records ∧
      (Universe.ofList callsOneWay).callsInto [0x41] [0x43] = 0 := by
  decide

end JvmCoupling.Graph
