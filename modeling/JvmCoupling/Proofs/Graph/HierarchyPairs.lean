import JvmCoupling.Proofs.Graph.HierarchyRows
import Mathlib

/-! # Each relation once

Two classes of one tree mention each other in their records, so every pair of a tree is mentioned twice.  The export
puts the names of a pair in order and skips a row that it has already, which leaves one row for each pair: as many
rows for a tree as it has pairs of different members.

* `mentions` — the pairs that records mention, entry by entry;
* `map_pair_hierarchyRows` — the rows stand in the order of the first mentions;
* `mem_pairs_analyzeHierarchy` — the pairs of an analysis are those within its trees;
* `hierarchyRows_once` — each relation has one row.
-/

namespace JvmCoupling.Graph

/-! ## Rows of any records -/

/-- The pairs that the entries of records mention, in order. -/
def mentions (records : List HierarchyRecord) : List (Sym2 Bytes) :=
  records.flatMap fun r => r.coupled.map fun other => s(r.owner, other)

theorem map_pair_hierarchyRows (records : List HierarchyRecord) :
    (hierarchyRows records).map HierarchyRow.pair = (mentions records).eraseDups := by
  have pairs : (records.flatMap fun r => r.coupled.map (hierarchyRow r.owner)).map HierarchyRow.pair =
      mentions records := by
    simp only [mentions, List.map_flatMap, List.map_map, Function.comp_def, pair_hierarchyRow]
  rw [← eraseDups_of_nodup (nodup_pairs_hierarchyRows records), hierarchyRows_eq, eraseDups_map_eraseDups, pairs]

theorem hierarchyRow_ordered (a b : Bytes) : (hierarchyRow a b).first ≤ (hierarchyRow a b).second := by
  unfold hierarchyRow
  split
  · next less => exact List.le_of_lt less
  · next greater => exact List.not_lt.1 greater

/-! ## Rows of an analysis -/

variable {u : Universe} {scope : Scope}

/-- The pairs of an analysis are those of different members of a tree that is reported. -/
theorem mem_pairs_analyzeHierarchy (nodup : u.names.Nodup) {a b : Bytes} :
    s(a, b) ∈ (hierarchyRows (analyzeHierarchy u scope).records).map HierarchyRow.pair ↔
      ∃ tree ∈ (analyzeHierarchy u scope).trees, a ∈ tree ∧ b ∈ tree ∧ a ≠ b := by
  rw [mem_pairs_hierarchyRows, records_analyzeHierarchy nodup]
  constructor
  · rintro ⟨r, recorded, other, listed, same⟩
    obtain ⟨name, kept, rfl⟩ := List.mem_map.1 recorded
    obtain ⟨inScope, reports⟩ := List.mem_filter.1 kept
    obtain ⟨member, different⟩ := List.mem_filter.1 listed
    have reported : inheritanceTree u scope name ∈ (analyzeHierarchy u scope).trees :=
      mem_trees_analyzeHierarchy.2 ⟨(mem_trees_build nodup).2 ⟨name, inScope, rfl⟩, reports⟩
    have own : name ∈ inheritanceTree u scope name := mem_inheritanceTree.2 ⟨inScope, .refl name⟩
    have different : other ≠ name := of_decide_eq_true different
    -- the pair may have been mentioned by either of its classes
    obtain ⟨rfl, rfl⟩ | ⟨rfl, rfl⟩ := Sym2.eq_iff.1 same
    · exact ⟨_, reported, own, member, different.symm⟩
    · exact ⟨_, reported, member, own, different⟩
  · rintro ⟨tree, reported, ha, hb, different⟩
    obtain ⟨built, reports⟩ := mem_trees_analyzeHierarchy.1 reported
    obtain ⟨inScope, rfl⟩ := eq_inheritanceTree_of_mem nodup built ha
    refine ⟨_, List.mem_map_of_mem (List.mem_filter.2 ⟨inScope, reports⟩), b, ?_, rfl⟩
    exact List.mem_filter.2 ⟨hb, decide_eq_true different.symm⟩

/-- The pairs of different members of a tree. -/
def pairsWithin (tree : List Bytes) : Finset (Sym2 Bytes) := tree.toFinset.offDiag.image Sym2.mk.uncurry

theorem mem_pairsWithin {tree : List Bytes} {a b : Bytes} :
    s(a, b) ∈ pairsWithin tree ↔ a ∈ tree ∧ b ∈ tree ∧ a ≠ b := by
  simp only [pairsWithin, Finset.mem_image, Finset.mem_offDiag, List.mem_toFinset, Prod.exists,
    Function.uncurry_apply_pair, Sym2.eq_iff]
  constructor
  · rintro ⟨x, y, ⟨hx, hy, different⟩, ⟨rfl, rfl⟩ | ⟨rfl, rfl⟩⟩
    · exact ⟨hx, hy, different⟩
    · exact ⟨hy, hx, different.symm⟩
  · intro members
    exact ⟨a, b, members, .inl ⟨rfl, rfl⟩⟩

theorem card_pairsWithin {tree : List Bytes} (nodup : tree.Nodup) :
    (pairsWithin tree).card = tree.length * (tree.length - 1) / 2 := by
  rw [pairsWithin, Sym2.card_image_offDiag, List.toFinset_card_of_nodup nodup, Nat.choose_two_right]

theorem nodup_of_mem_trees (nodup : u.names.Nodup) {tree : List Bytes}
    (reported : tree ∈ (analyzeHierarchy u scope).trees) : tree.Nodup := by
  obtain ⟨first, -, rfl⟩ := (mem_trees_build nodup).1 (mem_trees_analyzeHierarchy.1 reported).1
  exact (nodup_classesInScope nodup scope).filter _

theorem length_hierarchyRows_analyzeHierarchy (nodup : u.names.Nodup) (scope : Scope) :
    (hierarchyRows (analyzeHierarchy u scope).records).length =
      ((analyzeHierarchy u scope).trees.map fun tree => tree.length * (tree.length - 1) / 2).sum := by
  have within : ((hierarchyRows (analyzeHierarchy u scope).records).map HierarchyRow.pair).toFinset =
      (analyzeHierarchy u scope).trees.toFinset.biUnion pairsWithin := by
    ext pair
    induction pair with
    | _ a b => simp only [List.mem_toFinset, mem_pairs_analyzeHierarchy nodup, Finset.mem_biUnion, mem_pairsWithin]
  have apart : ((analyzeHierarchy u scope).trees.toFinset : Set (List Bytes)).PairwiseDisjoint pairsWithin := by
    intro tree reported tree' reported' different
    rw [Function.onFun, Finset.disjoint_left]
    rintro ⟨a, b⟩ member member'
    -- a common pair has a common member, and this member has one tree
    obtain ⟨built, -⟩ := mem_trees_analyzeHierarchy.1 (List.mem_toFinset.1 reported)
    obtain ⟨built', -⟩ := mem_trees_analyzeHierarchy.1 (List.mem_toFinset.1 reported')
    obtain ⟨-, same⟩ := eq_inheritanceTree_of_mem nodup built (mem_pairsWithin.1 member).1
    obtain ⟨-, same'⟩ := eq_inheritanceTree_of_mem nodup built' (mem_pairsWithin.1 member').1
    exact different (same.trans same'.symm)
  have distinct : (analyzeHierarchy u scope).trees.Nodup := by
    rw [trees_analyzeHierarchy]
    exact (nodup_trees_build nodup scope).filter _
  calc (hierarchyRows (analyzeHierarchy u scope).records).length
      = ((hierarchyRows (analyzeHierarchy u scope).records).map HierarchyRow.pair).toFinset.card := by
        rw [List.toFinset_card_of_nodup (nodup_pairs_hierarchyRows _), List.length_map]
    _ = ∑ tree ∈ (analyzeHierarchy u scope).trees.toFinset, (pairsWithin tree).card := by
        rw [within, Finset.card_biUnion apart]
    _ = ∑ tree ∈ (analyzeHierarchy u scope).trees.toFinset, tree.length * (tree.length - 1) / 2 :=
        Finset.sum_congr rfl fun tree reported =>
          card_pairsWithin (nodup_of_mem_trees nodup (List.mem_toFinset.1 reported))
    _ = _ := List.sum_toFinset _ distinct

/-- Each relation is exported once.  For any records, no two rows are about the same two classes, the names of a row
are in bytewise order, two classes have a row if a record of one of them lists the other, and the rows stand in the
order in which their pairs are first mentioned.  An analysis exports as many rows as its trees have pairs. -/
theorem hierarchyRows_once (records : List HierarchyRecord) (classes : List (Option ClassInfo)) (scope : Scope) :
    let pairs := (hierarchyRows records).map HierarchyRow.pair
    let report := analyzeHierarchy (.ofList classes) scope
    pairs.Nodup ∧
    (∀ row ∈ hierarchyRows records, row.first ≤ row.second) ∧
    (∀ x y, s(x, y) ∈ pairs ↔
      (∃ r ∈ records, r.owner = x ∧ y ∈ r.coupled) ∨ ∃ r ∈ records, r.owner = y ∧ x ∈ r.coupled) ∧
    pairs = (mentions records).eraseDups ∧
    (hierarchyRows report.records).length = (report.trees.map fun tree => tree.length * (tree.length - 1) / 2).sum := by
  intro pairs report
  refine ⟨nodup_pairs_hierarchyRows records, ?_, ?_, map_pair_hierarchyRows records,
    length_hierarchyRows_analyzeHierarchy (Universe.nodup_names_ofList classes) scope⟩
  · intro row exported
    obtain ⟨r, -, other, -, rfl⟩ := mem_hierarchyRows.1 exported
    exact hierarchyRow_ordered r.owner other
  · intro x y
    rw [mem_pairs_hierarchyRows]
    constructor
    · rintro ⟨r, recorded, other, listed, same⟩
      obtain ⟨rfl, rfl⟩ | ⟨rfl, rfl⟩ := Sym2.eq_iff.1 same
      · exact .inl ⟨r, recorded, rfl, listed⟩
      · exact .inr ⟨r, recorded, rfl, listed⟩
    · rintro (⟨r, recorded, rfl, listed⟩ | ⟨r, recorded, rfl, listed⟩)
      · exact ⟨r, recorded, y, listed, rfl⟩
      · exact ⟨r, recorded, x, listed, Sym2.eq_swap⟩

/-- Two classes that mention each other, the second one also itself. -/
def mirroredRecords : List HierarchyRecord := [⟨[0x42], [[0x41]]⟩, ⟨[0x41], [[0x42], [0x41]]⟩]

/-- The pair has one row, although the greater name mentions it first, and so has the class that mentions itself. -/
theorem hierarchyRows_once_mirroredRecords :
    hierarchyRows mirroredRecords = [⟨[0x41], [0x42]⟩, ⟨[0x41], [0x41]⟩] ∧
    ([0x41] : Bytes) ≤ [0x42] ∧
    s([0x42], [0x41]) ∈ (hierarchyRows mirroredRecords).map HierarchyRow.pair := by
  have rows : hierarchyRows mirroredRecords = [⟨[0x41], [0x42]⟩, ⟨[0x41], [0x41]⟩] := by decide
  obtain ⟨-, ordered, listed, -⟩ := hierarchyRows_once mirroredRecords [] {}
  have first : (⟨[0x41], [0x42]⟩ : HierarchyRow) ∈ hierarchyRows mirroredRecords := by simp [rows]
  have mentioned : ∃ r ∈ mirroredRecords, r.owner = [0x42] ∧ [0x41] ∈ r.coupled := ⟨_, List.mem_cons_self, rfl, by simp⟩
  exact ⟨rows, ordered _ first, (listed _ _).2 (.inl mentioned)⟩

end JvmCoupling.Graph
