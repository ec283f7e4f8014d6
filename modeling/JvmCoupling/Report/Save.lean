import JvmCoupling.Report.Format
import JvmCoupling.Report.Table
import JvmCoupling.Storage.Tree
import JvmCoupling.Text.Quoted
import JvmCoupling.Yaml.Print

/-! # Saving reports

A report holds the records of one analysis.  It is saved into a folder once for each format.

* `Report` — what is saved;
* `Report.rows`, `Report.yamlText`, `Report.tableRows` — a report as rows, as a document and as a table;
* `Report.writeAs` — one format;
* `Report.save` — all formats, up to the first failure.
-/

namespace JvmCoupling

/-- The records of one analysis. -/
inductive Report where
  | calls (records : List CallRecord)
  | hierarchy (records : List HierarchyRecord)
deriving DecidableEq, Repr, Inhabited

namespace Report

/-! ## Contents -/

/-- The name of a report, also of its files. -/
def name : Report → String
  | calls _ => "method_calls"
  | hierarchy _ => "hierarchy"

/-- What a report is called in messages. -/
def title : Report → String
  | calls _ => "method call report"
  | hierarchy _ => "hierarchy report"

/-- The table of a report in a database. -/
def table : Report → String
  | calls _ => "call_coupling"
  | hierarchy _ => "hierarchy_coupling"

/-- The columns of a report. -/
def columns : Report → List String
  | calls _ => ["class", "coupled_class", "calls"]
  | hierarchy _ => ["class", "coupled_class"]

/-- The number of records. -/
def size : Report → Nat
  | calls records => records.length
  | hierarchy records => records.length

/-- The rows of a report. -/
def rows : Report → List Row
  | calls records => callRows records
  | hierarchy records => hierarchyRows records

/-- A coupled class as a block. -/
def coupledBlock (c : CoupledClass) : Yaml.Block := .record [("class", .text c.name), ("calls", .int c.calls)]

/-- A call record as a block. -/
def callBlock (r : CallRecord) : Yaml.Block :=
  .record [("class", .text r.owner), ("coupled", .list (r.coupled.map coupledBlock))]

/-- A hierarchy record as a block. -/
def hierarchyBlock (r : HierarchyRecord) : Yaml.Block :=
  .record [("class", .text r.owner), ("coupled", .list (r.coupled.map .text))]

/-- The records as blocks. -/
def blocks : Report → List Yaml.Block
  | calls records => records.map callBlock
  | hierarchy records => records.map hierarchyBlock

/-- The report as a document. -/
def yamlText (r : Report) : Bytes :=
  Yaml.renderDocument [("kind", .text (utf8 r.name)), ("records", .list r.blocks)]

/-- A row of a database table.  An empty class and a negative count are left empty. -/
def tableRow (position : Nat) (row : Row) : TableRow where
  position
  owner := row.owner
  coupled := if row.coupled = [] then none else some row.coupled
  calls := row.calls.filter (0 ≤ ·)

/-- The rows of a report's database table, numbered from zero. -/
def tableRows (r : Report) : List TableRow := r.rows.zipIdx.map fun (row, i) => tableRow i row

/-! ## Files -/

/-- The name of the database file. -/
def databaseFile : String := "coupling.db"

/-- The name of a report's file in a format; none if the format is not known. -/
def fileName? (r : Report) : Format → Option String
  | .csv => some (r.name ++ ".csv")
  | .yaml => some (r.name ++ ".yaml")
  | .sqlite => some databaseFile
  | .other _ => none

/-- Why a file cannot be written. -/
inductive WriteError where
  | path (e : PathError)
  /-- There is no way to have a database at this path. -/
  | cannotOpenDatabase (path : Bytes)
  /-- The file holds something else, so that the table cannot be made. -/
  | notDatabase (table : String)
deriving DecidableEq, Repr, Inhabited

/-- The wording of a failure to write. -/
def WriteError.message : WriteError → Bytes
  | .path e => e.message
  | .cannotOpenDatabase file =>
    utf8 "open sqlite: sqlite: open " ++ Text.quoted file ++ utf8 ": unable to open database file"
  | .notDatabase table =>
    utf8 "create " ++ utf8 table ++ utf8 ": sqlite: prepare: file is not a database"

/-- Why a report cannot be saved. -/
inductive SaveError where
  | folder (e : PathError)
  | file (title : String) (format : Bytes) (e : WriteError)
deriving DecidableEq, Repr, Inhabited

/-- The wording of a failure to save. -/
def SaveError.message : SaveError → Bytes
  | folder e => utf8 "creating output folder: " ++ e.message
  | file title format e =>
    utf8 "saving " ++ utf8 title ++ utf8 " (" ++ format ++ utf8 "): " ++ e.message

end Report

/-- The database in a file: an empty file is a database without tables, and other bytes are none. -/
def Content.database? : Content → Option Database
  | .database db => some db
  | .bytes [] => some {}
  | .bytes _ => none

namespace Report

/-- The database at a path, where there may be no file yet. -/
def databaseAt (t : Tree) (path : Bytes) (table : String) : Except WriteError Database :=
  match t.locate true path with
  | .ok (.found _ (.file content)) =>
    match content.database? with
    | some db => .ok db
    | none => .error (.notDatabase table)
  | .ok (.free _ _) => .ok {}
  | _ => .error (.cannotOpenDatabase path)

/-- Replaces a table of the database at a path. -/
def writeTable (t : Tree) (path : Bytes) (table : String) (rows : List TableRow) :
    Except WriteError Tree := do
  let db ← databaseAt t path table
  (t.writeFile path (.database (db.replace table rows))).mapError fun _ => .cannotOpenDatabase path

/-- Writes a report in one format to a path. -/
def writeAs (t : Tree) (r : Report) (path : Bytes) : Format → Except WriteError Tree
  | .csv => (t.writeFile path (.bytes (tableText r.columns r.rows))).mapError .path
  | .yaml => (t.writeFile path (.bytes r.yamlText)).mapError .path
  | .sqlite => writeTable t path r.table r.tableRows
  | .other _ => .ok t

/-- What a save leaves behind. -/
structure Outcome where
  tree : Tree
  result : Except SaveError Unit
  log : List Log.Record := []
deriving Inhabited

/-- The path of a report's file; empty if nothing is written. -/
def pathOf (r : Report) (folder : Bytes) (format : Format) : Bytes :=
  match r.fileName? format with
  | some name => Path.join folder (utf8 name)
  | none => []

/-- What is logged of a file that was written. -/
def savedRecord (r : Report) (path : Bytes) : Log.Record :=
  ⟨.info, utf8 "Saved " ++ utf8 r.title,
    [Log.textField "file" path, Log.countField "records" r.size]⟩

/-- Saves a report in every format of a list, up to the first failure. -/
def saveFormats (t : Tree) (r : Report) (folder : Bytes) : List Format → Outcome
  | [] => ⟨t, .ok (), []⟩
  | format :: formats =>
    let path := r.pathOf folder format
    match writeAs t r path format with
    | .error e => ⟨t, .error (.file r.title format.name e), []⟩
    | .ok t =>
      let o := saveFormats t r folder formats
      { o with log := r.savedRecord path :: o.log }

/-- Saves a report into a folder, which is made if needed.  Without formats it is saved as a table of
text. -/
def save (t : Tree) (formats : List Format) (folder : Bytes) (r : Report) : Outcome :=
  match t.makeDirectories folder with
  | (t, .error e) => ⟨t, .error (.folder e), []⟩
  | (t, .ok _) => saveFormats t r folder (if formats = [] then [.csv] else formats)

/-! ## Finding reports -/

/-- The names of report files. -/
def fileNames : List String :=
  ["method_calls.csv", "hierarchy.csv", "method_calls.yaml", "hierarchy.yaml", databaseFile]

/-- The report files below the working directory, in the order of a walk; links are followed to files. -/
def files (t : Tree) : List (Bytes × Content) :=
  (((t.get? t.home).getD (.directory [])).visit Path.here).filterMap fun (path, node) =>
    if node.isDirectory || !fileNames.any fun name => utf8 name = Path.base path then none
    else (t.readFile path).toOption.map fun content => (path, content)

end Report

end JvmCoupling
