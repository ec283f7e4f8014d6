import JvmCoupling.Report.Save
import JvmCoupling.Proofs.ClassFile.Reading
import JvmCoupling.Proofs.Storage.Places

/-! # Report files

A report is written to one file for each format.  Two of the formats are texts, and the third is a table in a
database that both reports share.

* `Report.textAs?` — a report as a text;
* `Report.writeFile_of_textAs?`, `Report.writeFile_of_sqlite` — what is written to a report's file;
* `Report.readFile_pathOf` — the file then holds what was written.
-/

namespace JvmCoupling

open ClassFile (bind_eq_ok mapError_eq_ok)

/-- Replacing a table leaves the others alone. -/
theorem Database.rows?_replace (db : Database) (table other : String) (rows : List TableRow) :
    (db.replace table rows).rows? other = if other = table then some rows else db.rows? other := by
  have kept : (db.tables.filter (·.1 ≠ table)).lookup other =
      if other = table then none else db.tables.lookup other := by
    induction db.tables with
    | nil => simp
    | cons entry tables ih =>
      obtain ⟨name, old⟩ := entry
      rw [lookup_cons_if]
      by_cases replaced : name = table
      · rw [List.filter_cons_of_neg (by simpa using replaced), ih, replaced]
        by_cases same : other = table
        · rw [if_pos same, if_pos same]
        · rw [if_neg same, if_neg same, if_neg same]
      · rw [List.filter_cons_of_pos (by simpa using replaced), lookup_cons_if, ih]
        by_cases same : other = table
        · rw [if_pos same, if_pos same, if_neg fun known => replaced (known.symm.trans same)]
        · rw [if_neg same, if_neg same]
  rw [rows?, replace, List.lookup_append, kept, lookup_cons_if, List.lookup_nil]
  by_cases same : other = table
  · simp [same]
  · simp [same, rows?]

namespace Report

variable {t t' : Tree} {r : Report} {format : Format} {path folder : Bytes}

theorem mem_fileNames {name : String} (named : r.fileName? format = some name) : name ∈ fileNames := by
  cases format with
  | csv =>
    cases named
    cases r with
    | calls _ => show "method_calls" ++ ".csv" ∈ fileNames; decide
    | hierarchy _ => show "hierarchy" ++ ".csv" ∈ fileNames; decide
  | yaml =>
    cases named
    cases r with
    | calls _ => show "method_calls" ++ ".yaml" ∈ fileNames; decide
    | hierarchy _ => show "hierarchy" ++ ".yaml" ∈ fileNames; decide
  | sqlite =>
    cases named
    decide
  | other _ => cases named

theorem isElement_fileName {name : String} (named : r.fileName? format = some name) :
    Path.isElement (utf8 name) = true := by
  have all : ∀ name ∈ fileNames, Path.isElement (utf8 name) = true := by decide +kernel
  exact all name (mem_fileNames named)

/-- The report in a text format. -/
def textAs? (r : Report) : Format → Option Bytes
  | .csv => some (tableText r.columns r.rows)
  | .yaml => some r.yamlText
  | _ => none

theorem writeFile_of_textAs? {text : Bytes} (isText : r.textAs? format = some text)
    (writes : writeAs t r path format = .ok t') : t.writeFile path (.bytes text) = .ok t' := by
  cases format with
  | csv =>
    cases isText
    exact mapError_eq_ok.1 writes
  | yaml =>
    cases isText
    exact mapError_eq_ok.1 writes
  | sqlite => cases isText
  | other _ => cases isText

theorem writeFile_of_sqlite (writes : writeAs t r path .sqlite = .ok t') :
    ∃ db, databaseAt t path r.table = .ok db ∧
      t.writeFile path (.database (db.replace r.table r.tableRows)) = .ok t' := by
  obtain ⟨db, opened, written⟩ := bind_eq_ok.1 writes
  exact ⟨db, opened, mapError_eq_ok.1 written⟩

/-- A report's file holds what was written to it. -/
theorem readFile_pathOf {name : String} {content : Content} (named : r.fileName? format = some name)
    (writes : t.writeFile (r.pathOf folder format) content = .ok t') :
    t'.readFile (r.pathOf folder format) = .ok content := by
  obtain ⟨d, -, -, -, reads⟩ := Tree.writeFile_eq_ok writes
  apply reads
  rw [pathOf, named]
  exact Path.endsInSlash_join (isElement_fileName named) folder

end Report

end JvmCoupling
