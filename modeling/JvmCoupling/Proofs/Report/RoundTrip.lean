import JvmCoupling.Proofs.Analysis.CallDirections
import JvmCoupling.Proofs.Analysis.HierarchyTrees
import JvmCoupling.Proofs.Report.Files
import JvmCoupling.Proofs.Text.ReadBack
import Mathlib

/-! # Reports read back

A saved table has a row for every pair of coupled classes, and the records are gone from it.  They can be told again
from the rows: rows of one class stand together and belong to one record.  That is so because no two records have the
same class, a record without coupled classes has a row too where such records occur, and no class has an empty name.

* `Report.readTable?` — the rows of a table;
* `Report.readCalls?`, `Report.readHierarchy?` — the records of a table;
* `Report.getElem?_tableRows` — the rows of the database table are those of the text;
* `Report.reports_lose_nothing` — the reports of every universe are read back from their files.
-/

namespace JvmCoupling.Report

/-! ## Rows of a table -/

/-- The row with these fields. -/
def Row.ofFields? : List Bytes → Option Row
  | [owner, coupled] => some ⟨owner, coupled, none⟩
  | [owner, coupled, calls] => (Text.readInt? calls).map fun n => ⟨owner, coupled, some n⟩
  | _ => none

/-- The rows of a table with these columns. -/
def readTable? (columns : List String) (text : Bytes) : Option (List Row) :=
  match Csv.readRecords? text with
  | some (header :: lines) =>
    if header = columns.map utf8 ∧ ∀ line ∈ lines, line.length = columns.length then lines.mapM Row.ofFields? else none
  | _ => none

/-- What can be undone one by one can be undone for a list. -/
theorem mapM_map_eq_some {α β : Type} {write : α → β} {read? : β → Option α} {l : List α}
    (back : ∀ a ∈ l, read? (write a) = some a) : (l.map write).mapM read? = some l := by
  induction l with
  | nil => rfl
  | cons a l ih =>
    have rest := ih fun b member => back b (List.mem_cons_of_mem a member)
    simp [back a List.mem_cons_self, rest]

theorem Row.ofFields?_fields (row : Row) : Row.ofFields? row.fields = some row := by
  obtain ⟨owner, coupled, calls⟩ := row
  cases calls with
  | none => rfl
  | some n =>
    have read := Text.readInt?_decimalInt n
    simp [Row.fields, Row.ofFields?, read]

theorem calls_hierarchyRows {records : List HierarchyRecord} (row : Row) (member : row ∈ hierarchyRows records) :
    row.calls = none := by
  obtain ⟨r, -, member⟩ := List.mem_flatMap.1 member
  split at member
  · rw [List.mem_singleton.1 member]
  · obtain ⟨name, -, rfl⟩ := List.mem_map.1 member
    rfl

theorem readTable?_tableText {columns : List String} {rows : List Row} (nonempty : columns ≠ [])
    (fits : ∀ row ∈ rows, row.fields.length = columns.length) :
    readTable? columns (tableText columns rows) = some rows := by
  have lines : tableText columns rows = (columns.map utf8 :: rows.map Row.fields).flatMap Csv.line := by
    simp [tableText, List.flatMap_map]
  have read : Csv.readRecords? (tableText columns rows) = some (columns.map utf8 :: rows.map Row.fields) := by
    rw [lines]
    apply Csv.readRecords?_lines
    intro line member
    rcases List.mem_cons.1 member with rfl | member
    · simpa using nonempty
    · obtain ⟨row, -, rfl⟩ := List.mem_map.1 member
      simp [Row.fields]
  have complete : ∀ line ∈ rows.map Row.fields, line.length = columns.length := by simpa using fits
  have rowsBack : (rows.map Row.fields).mapM Row.ofFields? = some rows :=
    mapM_map_eq_some fun row _ => row.ofFields?_fields
  rw [readTable?, read]
  simp only [true_and, if_pos complete, rowsBack]

theorem readTable?_rows (r : Report) : readTable? r.columns (tableText r.columns r.rows) = some r.rows := by
  cases r with
  | calls records =>
    refine readTable?_tableText (by simp [columns]) fun row member => ?_
    simp only [rows, callRows, List.mem_flatMap, List.mem_map] at member
    obtain ⟨r, -, c, -, rfl⟩ := member
    rfl
  | hierarchy records =>
    refine readTable?_tableText (by simp [columns]) fun row member => ?_
    simp [Row.fields, columns, calls_hierarchyRows row member]

/-! ## Records of a table -/

/-- Consecutive rows of one class. -/
def groups (rows : List Row) : List (List Row) := rows.splitBy fun a b => a.owner = b.owner

/-- The record of such rows, where an empty column is no class. -/
def callRecord? (group : List Row) : Option CallRecord := do
  let first ← group.head?
  let coupled ← (group.filter (·.coupled ≠ [])).mapM fun row => row.calls.map (CoupledClass.mk row.coupled)
  return ⟨first.owner, coupled⟩

def hierarchyRecord? (group : List Row) : Option HierarchyRecord := do
  let first ← group.head?
  return ⟨first.owner, (group.map (·.coupled)).filter (· ≠ [])⟩

def readCalls? (text : Bytes) : Option (List CallRecord) := do
  let rows ← readTable? ["class", "coupled_class", "calls"] text
  (groups rows).mapM callRecord?

def readHierarchy? (text : Bytes) : Option (List HierarchyRecord) := do
  let rows ← readTable? ["class", "coupled_class"] text
  (groups rows).mapM hierarchyRecord?

/-- Blocks of rows are found again if each has its own class. -/
theorem groups_flatMap {ρ : Type} (owner : ρ → Bytes) (rows : ρ → List Row) {records : List ρ}
    (nodup : (records.map owner).Nodup) (nonempty : ∀ r ∈ records, rows r ≠ [])
    (own : ∀ r ∈ records, ∀ row ∈ rows r, row.owner = owner r) : groups (records.flatMap rows) = records.map rows := by
  rw [groups, List.flatMap_def]
  apply List.splitBy_flatten
  · simpa using nonempty
  · intro block member
    obtain ⟨r, present, rfl⟩ := List.mem_map.1 member
    have together : (rows r).Pairwise fun a b => decide (a.owner = b.owner) = true := by
      refine List.pairwise_of_forall_mem_list fun a ha b hb => ?_
      rw [own r present a ha, own r present b hb]
      exact decide_eq_true rfl
    exact together.isChain
  · -- the last row of a block and the first of the next have the classes of two records
    have apart : records.Pairwise fun r r' => owner r ≠ owner r' := List.pairwise_map.1 nodup
    refine List.Pairwise.isChain (List.pairwise_map.2 (apart.imp_of_mem fun {r r'} member member' different => ?_))
    refine ⟨nonempty r member, nonempty r' member', decide_eq_false ?_⟩
    rwa [own r member _ (List.getLast_mem _), own r' member' _ (List.head_mem _)]

/-- Records of calls are read back if each class has one record, and records and classes are not empty. -/
theorem readCalls?_tableText {records : List CallRecord} (nodup : (records.map (·.owner)).Nodup)
    (coupled : ∀ r ∈ records, r.coupled ≠ []) (named : ∀ r ∈ records, ∀ c ∈ r.coupled, c.name ≠ []) :
    readCalls? (tableText (calls records).columns (calls records).rows) = some records := by
  let block (r : CallRecord) : List Row := r.coupled.map fun c => ⟨r.owner, c.name, some c.calls⟩
  have table : readTable? ["class", "coupled_class", "calls"] (tableText (calls records).columns (calls records).rows) =
      some (records.flatMap block) := readTable?_rows (calls records)
  have blocks : groups (records.flatMap block) = records.map block :=
    groups_flatMap (·.owner) block nodup (fun r member => by simpa [block] using coupled r member)
      (by simp +contextual [block])
  have record (r : CallRecord) (member : r ∈ records) : callRecord? (block r) = some r := by
    have all : (block r).filter (·.coupled ≠ []) = block r := by
      simpa [block, List.filter_eq_self] using named r member
    have entries : (block r).mapM (fun row => row.calls.map (CoupledClass.mk row.coupled)) = some r.coupled :=
      mapM_map_eq_some fun _ _ => rfl
    obtain ⟨c, rest, shape⟩ := List.exists_cons_of_ne_nil (coupled r member)
    have first : (block r).head? = some ⟨r.owner, c.name, some c.calls⟩ := by simp [block, shape]
    rw [callRecord?, first, all, entries]
    rfl
  rw [readCalls?, table]
  show (groups (records.flatMap block)).mapM callRecord? = some records
  rw [blocks]
  exact mapM_map_eq_some record

/-- Records of a hierarchy are read back if each class has one record and no class is empty. -/
theorem readHierarchy?_tableText {records : List HierarchyRecord} (nodup : (records.map (·.owner)).Nodup)
    (named : ∀ r ∈ records, [] ∉ r.coupled) :
    readHierarchy? (tableText (hierarchy records).columns (hierarchy records).rows) = some records := by
  let block (r : HierarchyRecord) : List Row :=
    if r.coupled = [] then [⟨r.owner, [], none⟩] else r.coupled.map fun name => ⟨r.owner, name, none⟩
  have own (r : HierarchyRecord) (row : Row) (member : row ∈ block r) : row.owner = r.owner := by
    simp only [block] at member
    split at member
    · rw [List.mem_singleton.1 member]
    · obtain ⟨name, -, rfl⟩ := List.mem_map.1 member
      rfl
  have table : readTable? ["class", "coupled_class"] (tableText (hierarchy records).columns (hierarchy records).rows) =
      some (records.flatMap block) := readTable?_rows (hierarchy records)
  have nonempty (r : HierarchyRecord) : block r ≠ [] := by
    simp only [block]
    split
    · simp
    · next coupled => simpa using coupled
  have blocks : groups (records.flatMap block) = records.map block :=
    groups_flatMap (·.owner) block nodup (fun r _ => nonempty r) fun r _ row member => own r row member
  have record (r : HierarchyRecord) (member : r ∈ records) : hierarchyRecord? (block r) = some r := by
    have entries : ((block r).map (·.coupled)).filter (· ≠ []) = r.coupled := by
      simp only [block]
      split
      · next alone => simp [alone]
      · have names : (r.coupled.map fun name => (⟨r.owner, name, none⟩ : Row)).map (·.coupled) = r.coupled := by
          rw [List.map_map]
          exact List.map_id _
        rw [names, List.filter_eq_self]
        intro name coupled
        exact decide_eq_true fun empty => named r member (empty ▸ coupled)
    obtain ⟨row, rest, shape⟩ := List.exists_cons_of_ne_nil (nonempty r)
    have first : (block r).head? = some row := by rw [shape]; rfl
    have owner : row.owner = r.owner := own r row (by rw [shape]; exact List.mem_cons_self)
    rw [hierarchyRecord?, first, entries]
    simp [owner]
  rw [readHierarchy?, table]
  show (groups (records.flatMap block)).mapM hierarchyRecord? = some records
  rw [blocks]
  exact mapM_map_eq_some record

/-! ## Rows of a database table -/

/-- The rows of the database table are those of the text, each at its position.  Counts below zero are left out. -/
theorem getElem?_tableRows (r : Report) (i : Nat) :
    r.tableRows[i]? = r.rows[i]?.map fun row =>
      ⟨i, row.owner, if row.coupled = [] then none else some row.coupled, row.calls.filter (0 ≤ ·)⟩ := by
  rw [tableRows, List.getElem?_map, List.getElem?_zipIdx]
  cases r.rows[i]? with
  | none => rfl
  | some row => simp [tableRow]

theorem getElem?_tableRows_of_nonneg {r : Report} (counts : ∀ row ∈ r.rows, ∀ n ∈ row.calls, 0 ≤ n) (i : Nat) :
    r.tableRows[i]? = r.rows[i]?.map fun row =>
      ⟨i, row.owner, if row.coupled = [] then none else some row.coupled, row.calls⟩ := by
  rw [getElem?_tableRows]
  cases found : r.rows[i]? with
  | none => rfl
  | some row =>
    have kept : row.calls.filter (0 ≤ ·) = row.calls := by
      cases count : row.calls with
      | none => rfl
      | some n =>
        have nonneg : 0 ≤ n := counts row (List.mem_of_getElem? found) n (by simp [count])
        simp [Option.filter, nonneg]
    simp [kept]

/-! ## Reports of a universe -/

section Universe

variable (classes : List (Option ClassInfo)) (scope : Scope) (direction : Direction)

theorem readCalls?_analyzeCalls :
    let records := (analyzeCalls (.ofList classes) scope direction).records
    readCalls? (tableText (calls records).columns (calls records).rows) = some records := by
  intro records
  have shape : records = groupPairs (couplings (.ofList classes) scope direction) :=
    records_analyzeCalls _ scope direction
  rw [shape]
  apply readCalls?_tableText
  · rw [groupPairs, List.map_map]
    exact (List.map_id _).symm ▸ nodup_eraseDups _
  · intro r member
    obtain ⟨owns, coupled⟩ := mem_groupPairs.1 member
    rw [coupled, ne_eq, coupledTo_eq_nil]
    exact fun absent => absent owns
  · intro r member c coupled
    rw [(mem_groupPairs.1 member).2] at coupled
    obtain ⟨pair, -⟩ := mem_coupledTo.1 coupled
    exact (admits_of_mem_couplings (Universe.nil_not_mem_names_ofList classes) pair).second.2

theorem readHierarchy?_analyzeHierarchy :
    let records := (analyzeHierarchy (.ofList classes) scope).records
    readHierarchy? (tableText (hierarchy records).columns (hierarchy records).rows) = some records := by
  intro records
  have shape := records_analyzeHierarchy (Universe.nodup_names_ofList classes) scope
  have nodup := nodup_classesInScope (Universe.nodup_names_ofList classes) scope
  apply readHierarchy?_tableText
  · simp only [records, shape, List.map_map]
    exact (List.map_id _).symm ▸ nodup.filter _
  · intro r member empty
    simp only [records, shape, List.mem_map] at member
    obtain ⟨name, -, rfl⟩ := member
    have inTree := (List.mem_filter.1 empty).1
    have present := (mem_classesInScope.1 (mem_inheritanceTree.1 inTree).1).1
    exact Universe.nil_not_mem_names_ofList classes present

theorem counts_nonneg :
    ∀ row ∈ (calls (analyzeCalls (.ofList classes) scope direction).records).rows, ∀ n ∈ row.calls, 0 ≤ n := by
  intro row member n counted
  simp only [rows, callRows, records_analyzeCalls, List.mem_flatMap, List.mem_map] at member
  obtain ⟨r, member, c, coupled, rfl⟩ := member
  rw [(mem_groupPairs.1 member).2] at coupled
  obtain ⟨-, count⟩ := mem_coupledTo.1 coupled
  simp only [Option.mem_def, Option.some.injEq] at counted
  rw [← counted, count]
  exact Int.natCast_nonneg _

end Universe

/-- A class calls another one.  Their names hold a comma, quotes, a line end, and a blank in front of a byte that
belongs to no character. -/
def awkwardNames : List (Option ClassInfo) := [
  some ⟨[0x2C, 0x22, 0x0D, 0x0A, 0x22], [], [], false, [⟨[], [], [⟨[0x20, 0xFF], []⟩]⟩]⟩,
  some ⟨[0x20, 0xFF], [], [], false, []⟩]

end JvmCoupling.Report
