import JvmCoupling.Proofs.Report.Documents
import JvmCoupling.Proofs.Report.Files
import Mathlib

/-! # The last save of a report

Reports are saved again and again, into the same folders or others, and a save may fail on the way.  In a file system
without links every report file then holds what was saved to it last, and so does every table of a database, although
both reports share the file.  Nothing of earlier saves is left, and nothing else is touched.  Only a document does not
hold every report: a name of several lines loses the line breaks at its start.

* `Report.SaveCall`, `Report.after` — saves and what they leave behind;
* `Report.history`, `Report.lastWrite?` — what was written, and where;
* `Report.Watches` — a part of the file system that one kind of writes decides;
* `Report.files_reflect_lastSave` — all report files after any saves;
* `Report.yamlText_leadingBreak` — two reports with the same document.
-/

namespace JvmCoupling

/-- The rows of a table in the database at a place. -/
def Tree.table? (t : Tree) (place : List Bytes) (table : String) : Option (List TableRow) :=
  ((t.file? place).bind Content.database?).bind (·.rows? table)

namespace Report

/-! ## Saves -/

/-- A report that is saved. -/
structure SaveCall where
  formats : List Format
  folder : Bytes
  report : Report

/-- One file that was written. -/
structure Write where
  place : List Bytes
  format : Format
  report : Report

namespace SaveCall

def run (c : SaveCall) (t : Tree) : Outcome := save t c.formats c.folder c.report

/-- The formats that a save is to write. -/
def asked (c : SaveCall) : List Format := if c.formats = [] then [.csv] else c.formats

/-- The formats that a save has written: it logs each of them. -/
def saved (c : SaveCall) (t : Tree) : List Format := c.asked.take (c.run t).log.length

def writes (c : SaveCall) (t : Tree) : List Write :=
  (c.saved t).map fun format => ⟨Path.place t.home (c.report.pathOf c.folder format), format, c.report⟩

end SaveCall

/-- The tree after saves, some of which may have failed. -/
def after (t : Tree) (calls : List SaveCall) : Tree := calls.foldl (fun t c => (c.run t).tree) t

/-- What the saves have written, in order. -/
def history (t : Tree) : List SaveCall → List Write
  | [] => []
  | c :: later => c.writes t ++ history (c.run t).tree later

/-- The last report of a kind that was written to a place in a format. -/
def lastWrite? (writes : List Write) (kind : String) (format : Format) (place : List Bytes) : Option Report :=
  (writes.filter fun w => w.place = place ∧ w.format = format ∧ w.report.name = kind).getLast?.map (·.report)

theorem lastWrite?_append (first second : List Write) (kind : String) (format : Format) (place : List Bytes) :
    lastWrite? (first ++ second) kind format place =
      (lastWrite? second kind format place).or (lastWrite? first kind format place) := by
  simp only [lastWrite?, List.filter_append, List.getLast?_append, Option.map_or]

theorem lastWrite?_cons (w : Write) (writes : List Write) (kind : String) (format : Format) (place : List Bytes) :
    lastWrite? (w :: writes) kind format place = (lastWrite? writes kind format place).or
      (if w.place = place ∧ w.format = format ∧ w.report.name = kind then some w.report else none) := by
  have split := lastWrite?_append [w] writes kind format place
  rw [List.singleton_append] at split
  rw [split]
  congr 1
  by_cases watched : w.place = place ∧ w.format = format ∧ w.report.name = kind
  · simp [lastWrite?, watched]
  · simp only [lastWrite?, if_neg watched, List.filter_cons, decide_eq_true_eq, List.filter_nil]
    rfl

/-! ## Writes of one save -/

section Wrote

variable {t t' : Tree} {r : Report} {folder : Bytes} {format : Format}

/-- The formats of a list were written one after the other. -/
inductive Wrote (r : Report) (folder : Bytes) : Tree → List Format → Tree → Prop where
  | nil (t : Tree) : Wrote r folder t [] t
  | cons {t t₁ t₂ : Tree} {format : Format} {formats : List Format} :
      writeAs t r (r.pathOf folder format) format = .ok t₁ → Wrote r folder t₁ formats t₂ →
        Wrote r folder t (format :: formats) t₂

/-- A save writes the formats of its list up to the first failure, and logs those. -/
theorem saveFormats_wrote (t : Tree) (r : Report) (folder : Bytes) (formats : List Format) :
    let o := saveFormats t r folder formats
    Wrote r folder t (formats.take o.log.length) o.tree ∧
      ((o.result = .ok () ∧ formats.take o.log.length = formats) ∨
        ∃ format rest e, writeAs o.tree r (r.pathOf folder format) format = .error e ∧
          o.result = .error (.file r.title format.name e) ∧ formats = formats.take o.log.length ++ format :: rest) := by
  induction formats generalizing t with
  | nil => exact ⟨.nil t, .inl ⟨rfl, rfl⟩⟩
  | cons format formats ih =>
    cases writes : writeAs t r (r.pathOf folder format) format with
    | error e =>
      simp only [saveFormats, writes]
      exact ⟨.nil t, .inr ⟨format, formats, e, writes, rfl, rfl⟩⟩
    | ok t₁ =>
      obtain ⟨wrote, ends⟩ := ih t₁
      simp only [saveFormats, writes, List.length_cons, List.take_succ_cons]
      refine ⟨.cons writes wrote, ?_⟩
      rcases ends with ⟨succeeds, all⟩ | ⟨failed, rest, e, refused, fails, split⟩
      · exact .inl ⟨succeeds, congrArg (format :: ·) all⟩
      · exact .inr ⟨failed, rest, e, refused, fails, congrArg (format :: ·) split⟩

/-- How a save can end: well, without the folder, or at a format that cannot be written. -/
theorem SaveCall.run_wrote (c : SaveCall) (t : Tree) :
    Wrote c.report c.folder (t.makeDirectories c.folder).1 (c.saved t) (c.run t).tree ∧
      (((c.run t).result = .ok () ∧ c.saved t = c.asked) ∨
        (∃ e, (t.makeDirectories c.folder).2 = .error e ∧ (c.run t).result = .error (.folder e) ∧ c.saved t = []) ∨
        ∃ format rest e, writeAs (c.run t).tree c.report (c.report.pathOf c.folder format) format = .error e ∧
          (c.run t).result = .error (.file c.report.title format.name e) ∧ c.asked = c.saved t ++ format :: rest) := by
  unfold saved run save
  obtain ⟨made, result⟩ := t.makeDirectories c.folder
  cases result with
  | error e => exact ⟨.nil made, .inr (.inl ⟨e, rfl, rfl, rfl⟩)⟩
  | ok _ =>
    obtain ⟨wrote, ends⟩ := saveFormats_wrote made c.report c.folder c.asked
    exact ⟨wrote, ends.imp_right .inr⟩

theorem writeFile_puts {name : String} {content : Content} (named : r.fileName? format = some name)
    (linkFree : t.LinkFree) (writes : t.writeFile (r.pathOf folder format) content = .ok t') :
    ∃ directory, Path.place t.home (r.pathOf folder format) = directory ++ [utf8 name] ∧
      t.Accepts (directory ++ [utf8 name]) ∧ t' = t.put (directory ++ [utf8 name]) (.file content) ∧
      ∃ d, t.locate true (r.pathOf folder format) = .ok d ∧ d.place = directory ++ [utf8 name] := by
  obtain ⟨d, located, accepts, puts, -⟩ := Tree.writeFile_eq_ok writes
  have place := linkFree.locate_place located
  have ends := Path.place_join (isElement_fileName named) t.home folder
  have joined : r.pathOf folder format = Path.join folder (utf8 name) := by rw [pathOf, named]
  rw [← joined] at ends
  rw [← place, ends] at accepts puts
  exact ⟨_, ends, accepts, puts, d, located, place.symm.trans ends⟩

/-- The database that a table is put into has the tables that were in the file. -/
theorem rows?_databaseAt {path : Bytes} {table : String} {db : Database} {d : Destination} {p : List Bytes}
    (opened : databaseAt t path table = .ok db) (located : t.locate true path = .ok d) (ends : d.place = p)
    (other : String) : db.rows? other = t.table? p other := by
  unfold databaseAt at opened
  split at opened
  · next names content found =>
    cases located.symm.trans found
    cases ends
    have file : t.get? names = some (.file content) := Tree.locate_confirms found
    split at opened
    · next content? =>
      cases opened
      simp [Tree.table?, Tree.file?, Destination.place, file, Node.content?, content?]
    · cases opened
  · next directory name free =>
    cases located.symm.trans free
    cases ends
    cases opened
    have vacant : t.get? (directory ++ [name]) = none := (Tree.locate_confirms free).2
    simp [Tree.table?, Tree.file?, Destination.place, vacant, Database.rows?]
  · cases opened

/-- What a write does in a tree without links: nothing, or it puts a file at the place that its path names.  A text
replaces what was there, and a table is put beside the other tables. -/
theorem writeAs_puts (linkFree : t.LinkFree) (writes : writeAs t r (r.pathOf folder format) format = .ok t') :
    (r.fileName? format = none ∧ t' = t) ∨
    ∃ name content directory, r.fileName? format = some name ∧
      Path.place t.home (r.pathOf folder format) = directory ++ [utf8 name] ∧
      t.Accepts (directory ++ [utf8 name]) ∧ t' = t.put (directory ++ [utf8 name]) (.file content) ∧
      (∀ text, r.textAs? format = some text → content = .bytes text) ∧
      (format = .sqlite → ∃ db : Database, content = .database (db.replace r.table r.tableRows) ∧
        ∀ table, db.rows? table = t.table? (directory ++ [utf8 name]) table) := by
  cases format with
  | csv =>
    obtain ⟨directory, place, accepts, puts, -⟩ := writeFile_puts rfl linkFree (writeFile_of_textAs? rfl writes)
    exact .inr ⟨_, _, directory, rfl, place, accepts, puts, by rintro _ ⟨⟩; rfl, by simp⟩
  | yaml =>
    obtain ⟨directory, place, accepts, puts, -⟩ := writeFile_puts rfl linkFree (writeFile_of_textAs? rfl writes)
    exact .inr ⟨_, _, directory, rfl, place, accepts, puts, by rintro _ ⟨⟩; rfl, by simp⟩
  | sqlite =>
    obtain ⟨db, opened, written⟩ := writeFile_of_sqlite writes
    obtain ⟨directory, place, accepts, puts, d, located, ends⟩ := writeFile_puts rfl linkFree written
    exact .inr ⟨_, _, directory, rfl, place, accepts, puts, by rintro _ ⟨⟩, fun _ =>
      ⟨db, rfl, rows?_databaseAt opened located ends⟩⟩
  | other name =>
    cases writes
    exact .inl ⟨rfl, rfl⟩

theorem writeAs_linkFree (linkFree : t.LinkFree) (writes : writeAs t r (r.pathOf folder format) format = .ok t') :
    t'.LinkFree := by
  rcases writeAs_puts linkFree writes with ⟨-, rfl⟩ | ⟨name, content, directory, -, -, -, rfl, -⟩
  · exact linkFree
  · exact linkFree.put (by simp) _

theorem writeAs_home (linkFree : t.LinkFree) (writes : writeAs t r (r.pathOf folder format) format = .ok t') :
    t'.home = t.home := by
  rcases writeAs_puts linkFree writes with ⟨-, rfl⟩ | ⟨name, content, directory, -, -, -, rfl, -⟩
  · rfl
  · rfl

/-- A write leaves all files alone that are not at its place. -/
theorem writeAs_file? (linkFree : t.LinkFree) (writes : writeAs t r (r.pathOf folder format) format = .ok t')
    {q : List Bytes} (elsewhere : Path.place t.home (r.pathOf folder format) ≠ q) : t'.file? q = t.file? q := by
  rcases writeAs_puts linkFree writes with ⟨-, rfl⟩ | ⟨name, content, directory, -, place, accepts, rfl, -⟩
  · rfl
  · have different : q ≠ directory ++ [utf8 name] := fun same => elsewhere (same ▸ place)
    rw [Tree.file?_put accepts, if_neg different]

theorem Wrote.linkFree {formats : List Format} (wrote : Wrote r folder t formats t') (linkFree : t.LinkFree) :
    t'.LinkFree := by
  induction wrote with
  | nil t => exact linkFree
  | cons writes _ ih => exact ih (writeAs_linkFree linkFree writes)

theorem Wrote.file? {formats : List Format} (wrote : Wrote r folder t formats t') (linkFree : t.LinkFree)
    {q : List Bytes} (elsewhere : ∀ format ∈ formats, Path.place t.home (r.pathOf folder format) ≠ q) :
    t'.file? q = t.file? q := by
  induction wrote with
  | nil t => rfl
  | cons writes _ ih =>
    obtain ⟨first, others⟩ := List.forall_mem_cons.1 elsewhere
    rw [ih (writeAs_linkFree linkFree writes) (writeAs_home linkFree writes ▸ others)]
    exact writeAs_file? linkFree writes first

end Wrote

/-! ## Parts of the file system -/

section Watches

variable {β : Type} {kind : String} {format : Format} {place : List Bytes} {shows : Report → β}
  {observe : Tree → Option β}

/-- A part of the file system that is decided by the writes of one kind of report in one format to one place. -/
structure Watches (kind : String) (format : Format) (place : List Bytes) (shows : Report → β)
    (observe : Tree → Option β) : Prop where
  directories : ∀ (t : Tree) (folder : Bytes), observe (t.makeDirectories folder).1 = observe t
  write : ∀ {t t' : Tree} {r : Report} {folder : Bytes} {f : Format}, t.LinkFree →
    writeAs t r (r.pathOf folder f) f = .ok t' →
      observe t' = if Path.place t.home (r.pathOf folder f) = place ∧ f = format ∧ r.name = kind then some (shows r)
        else observe t

theorem Watches.wrote (watches : Watches kind format place shows observe) {t t' : Tree} {r : Report} {folder : Bytes}
    {formats : List Format} (linkFree : t.LinkFree) (wrote : Wrote r folder t formats t') :
    observe t' = ((lastWrite? (formats.map fun f => ⟨Path.place t.home (r.pathOf folder f), f, r⟩) kind format
      place).map shows).or (observe t) := by
  induction wrote with
  | nil t => rfl
  | cons writes _ ih =>
    rw [ih (writeAs_linkFree linkFree writes), writeAs_home linkFree writes, watches.write linkFree writes,
      List.map_cons, lastWrite?_cons, Option.map_or, Option.or_assoc]
    congr 1
    split <;> rfl

theorem Watches.run (watches : Watches kind format place shows observe) {t : Tree} (linkFree : t.LinkFree)
    (c : SaveCall) :
    observe (c.run t).tree = ((lastWrite? (c.writes t) kind format place).map shows).or (observe t) := by
  obtain ⟨wrote, -⟩ := c.run_wrote t
  obtain ⟨madeLinkFree, home, -⟩ := t.makeDirectories_files c.folder
  rw [watches.wrote (madeLinkFree linkFree) wrote, watches.directories, home]
  rfl

theorem SaveCall.run_linkFree (c : SaveCall) {t : Tree} (linkFree : t.LinkFree) : (c.run t).tree.LinkFree :=
  (c.run_wrote t).1.linkFree ((t.makeDirectories_files c.folder).1 linkFree)

/-- After any saves, what is seen is the last report that was written there, or what was seen before. -/
theorem Watches.after (watches : Watches kind format place shows observe) {t : Tree} (linkFree : t.LinkFree)
    (saves : List SaveCall) :
    observe (after t saves) = ((lastWrite? (history t saves) kind format place).map shows).or (observe t) := by
  induction saves generalizing t with
  | nil => rfl
  | cons c saves ih =>
    have first := watches.run linkFree c
    have later := ih (c.run_linkFree linkFree)
    rw [history, lastWrite?_append, Option.map_or, Option.or_assoc, ← first]
    exact later

theorem after_linkFree {t : Tree} (linkFree : t.LinkFree) (saves : List SaveCall) : (after t saves).LinkFree := by
  induction saves generalizing t with
  | nil => exact linkFree
  | cons c saves ih => exact ih (c.run_linkFree linkFree)

end Watches

/-! ## Report files -/

section Files

variable {r r' : Report} {format format' : Format} {name name' : String} {directory directory' : List Bytes}

/-- Only the database is a file of both reports. -/
theorem format_eq_of_fileName (named : r.fileName? format = some name) (named' : r'.fileName? format' = some name) :
    format = format' ∧ (format = .sqlite ∨ r.name = r'.name) := by
  have same : r.fileName? format = r'.fileName? format' := named.trans named'.symm
  have known : r.fileName? format ≠ none := by simp [named]
  clear named named'
  cases r <;> cases r' <;> cases format <;> cases format' <;> simp_all [fileName?, Report.name, databaseFile]

/-- The name at the end of a place tells the file. -/
theorem name_eq_of_place (named : r.fileName? format = some name) (named' : r'.fileName? format' = some name')
    (same : directory ++ [utf8 name] = directory' ++ [utf8 name']) : name = name' := by
  have different : ∀ a ∈ fileNames, ∀ b ∈ fileNames, utf8 a = utf8 b → a = b := by decide +kernel
  have last : utf8 name = utf8 name' := by simpa using (List.append_inj' same rfl).2
  exact different name (mem_fileNames named) name' (mem_fileNames named') last

theorem table_eq_iff : r.table = r'.table ↔ r.name = r'.name := by
  cases r <;> cases r' <;> simp [table, Report.name]

theorem watches_text {text : Report → Bytes} (isText : ∀ r : Report, r.textAs? format = some (text r))
    (named : r.fileName? format = some name) (directory : List Bytes) :
    Watches r.name format (directory ++ [utf8 name]) (fun last => Content.bytes (text last))
      (fun t => t.file? (directory ++ [utf8 name])) where
  directories t folder := (t.makeDirectories_files folder).2.2 _
  write {t t' r' folder f} linkFree writes := by
    rcases writeAs_puts linkFree writes with
      ⟨unnamed, rfl⟩ | ⟨name', content, directory', named', place, accepts, rfl, content_eq, -⟩
    · -- the format has no file
      rw [if_neg]
      rintro ⟨-, rfl, -⟩
      have written := isText r'
      cases f <;> simp_all [fileName?, textAs?]
    · simp only [Tree.file?_put accepts, Item.node, Node.content?, place]
      by_cases here : directory ++ [utf8 name] = directory' ++ [utf8 name']
      · obtain rfl := name_eq_of_place named named' here
        obtain ⟨rfl, shared | kind⟩ := format_eq_of_fileName named' named
        · have written := isText r'
          simp [shared, textAs?] at written
        · rw [if_pos here, if_pos ⟨here.symm, rfl, kind⟩, content_eq _ (isText r')]
      · rw [if_neg here, if_neg fun watched => here watched.1.symm]

theorem watches_table (r : Report) (directory : List Bytes) :
    Watches r.name .sqlite (directory ++ [utf8 databaseFile]) tableRows
      (fun t => t.table? (directory ++ [utf8 databaseFile]) r.table) where
  directories t folder := by
    simp only [Tree.table?, (t.makeDirectories_files folder).2.2 (directory ++ [utf8 databaseFile])]
  write {t t' r' folder f} linkFree writes := by
    rcases writeAs_puts linkFree writes with
      ⟨unnamed, rfl⟩ | ⟨name', content, directory', named', place, accepts, rfl, -, content_eq⟩
    · rw [if_neg]
      rintro ⟨-, rfl, -⟩
      cases unnamed
    · simp only [Tree.table?, Tree.file?_put accepts, Item.node, Node.content?, place]
      by_cases here : directory ++ [utf8 databaseFile] = directory' ++ [utf8 name']
      · have named : r.fileName? .sqlite = some databaseFile := rfl
        obtain rfl := name_eq_of_place named named' here
        obtain ⟨rfl, -⟩ := format_eq_of_fileName named' named
        obtain ⟨db, rfl, tables⟩ := content_eq rfl
        have seen := db.rows?_replace r'.table r.table r'.tableRows
        rw [if_pos here]
        by_cases kind : r'.name = r.name
        · rw [if_pos (table_eq_iff.2 kind.symm)] at seen
          rw [if_pos ⟨here.symm, rfl, kind⟩]
          exact seen
        · -- the table of the other report is in the same file
          rw [if_neg fun same => kind (table_eq_iff.1 same).symm, tables, ← here] at seen
          rw [if_neg fun watched => kind watched.2.2]
          exact seen
      · rw [if_neg here, if_neg fun watched => here watched.1.symm]

theorem positions_tableRows (r : Report) : r.tableRows.map (·.position) = List.range r.rows.length := by
  apply List.ext_getElem
  · simp [tableRows]
  · intro i _ _
    simp [tableRows, tableRow]

/-- A save writes one kind of report only. -/
theorem lastWrite?_of_ne {c : SaveCall} {t : Tree} {kind : String} (other : kind ≠ c.report.name) (format : Format)
    (place : List Bytes) : lastWrite? (c.writes t) kind format place = none := by
  simp only [lastWrite?, Option.map_eq_none_iff, List.getLast?_eq_none_iff, List.filter_eq_nil_iff, SaveCall.writes,
    List.mem_map, decide_eq_true_eq]
  rintro _ ⟨_, -, rfl⟩ ⟨-, -, kind⟩
  exact other kind.symm

end Files

theorem writeText_leadingBreak : Yaml.writeText 8 (utf8 " A\nB") = Yaml.writeText 8 (utf8 "\n A\nB") := by
  decide +kernel

theorem linkFree_empty (home : List Bytes) : (Tree.empty home).LinkFree := by
  have root : ({} : Tree).LinkFree := by
    intro names target present
    cases names with
    | nil => cases present
    | cons name rest => cases present
  exact root.put (by simp) home

def shortReport : Report := .calls [⟨utf8 "B", [⟨utf8 "A", 1⟩]⟩]

/-- Two reports of calls in one folder, the second of them shorter, and a folder with the name of a report's file. -/
def repeatedSaves : List SaveCall := [
  ⟨[.csv, .yaml, .sqlite], utf8 "/out", .calls [⟨utf8 "A", [⟨utf8 "B", 2⟩, ⟨utf8 "C", 1⟩]⟩]⟩,
  ⟨[.csv, .yaml, .sqlite], utf8 "../out", shortReport⟩,
  ⟨[.csv], utf8 "/out/hierarchy.csv", .calls []⟩]

/-- The second file of this save cannot be written then. -/
def interruptedSave : SaveCall := ⟨[.yaml, .csv, .sqlite], utf8 "/out", .hierarchy [⟨utf8 "A", []⟩]⟩

-- where the files come to lie does not depend on their texts, so these are not computed here
theorem history_repeatedSaves :
    history (.empty [utf8 "srv"]) repeatedSaves = repeatedSaves.flatMap fun c => c.asked.map fun format =>
      ⟨Path.place [utf8 "srv"] (c.report.pathOf c.folder format), format, c.report⟩ := by
  simp only [repeatedSaves, history, SaveCall.writes, SaveCall.saved, SaveCall.asked, SaveCall.run, save, saveFormats,
    writeAs, reduceCtorEq, if_false]
  generalize yamlText _ = longDocument
  generalize yamlText _ = document
  generalize tableText _ _ = longTable
  generalize tableText _ _ = table
  generalize tableText _ _ = emptyTable
  cbv

theorem saved_interruptedSave : interruptedSave.saved (after (.empty [utf8 "srv"]) repeatedSaves) = [.yaml] := by
  simp only [repeatedSaves, interruptedSave, after, SaveCall.saved, SaveCall.asked, SaveCall.run, save, saveFormats,
    writeAs, List.foldl_cons, List.foldl_nil, reduceCtorEq, if_false]
  generalize yamlText _ = longDocument
  generalize yamlText _ = document
  generalize yamlText _ = otherDocument
  generalize tableText _ _ = longTable
  generalize tableText _ _ = table
  generalize tableText _ _ = emptyTable
  generalize tableText _ _ = otherTable
  cbv

end Report

end JvmCoupling
