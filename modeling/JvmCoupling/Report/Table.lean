import JvmCoupling.Analysis.Calls
import JvmCoupling.Analysis.Hierarchy
import JvmCoupling.Text.Csv

/-! # Report tables

The records of an analysis as rows of a table, and the table as comma separated text.

* `Row`, `callRows`, `hierarchyRows` — one row per pair of coupled classes;
* `tableText` — a line of column names and a line for every row.
-/

namespace JvmCoupling.Report

/-- A class and a class it is coupled to, which is empty for a class without relatives, and the number of
calls where calls are counted. -/
structure Row where
  owner : Bytes
  coupled : Bytes
  calls : Option Int
deriving DecidableEq, Repr, Inhabited

/-- One row for every coupled class. -/
def callRows (records : List CallRecord) : List Row :=
  records.flatMap fun r => r.coupled.map fun c => ⟨r.owner, c.name, some c.calls⟩

/-- One row for every coupled class; a class without relatives has a row too. -/
def hierarchyRows (records : List HierarchyRecord) : List Row :=
  records.flatMap fun r =>
    if r.coupled = [] then [⟨r.owner, [], none⟩] else r.coupled.map fun name => ⟨r.owner, name, none⟩

/-- The fields of a row. -/
def Row.fields (row : Row) : List Bytes :=
  [row.owner, row.coupled] ++ row.calls.toList.map Text.decimalInt

/-- A table: a line of column names, and a line for every row. -/
def tableText (columns : List String) (rows : List Row) : Bytes :=
  Csv.line (columns.map utf8) ++ rows.flatMap fun row => Csv.line row.fields

end JvmCoupling.Report
