import JvmCoupling.Proofs.ClassPath.Loading
import JvmCoupling.Proofs.Storage.Places
import Mathlib

/-! # Directories and archives

The classes of a project may stand in a directory or be packed into an archive.  The two are read by different
walks with filters of their own, which agree in all but one thing: an archive's files below its metadata
directory are left out.

* `Node.isPlain`, `Node.files` — a tree of files, and its files by their relative names;
* `Node.Opens`, `Node.opens_of_linkFree` — everything in the tree can be opened by its path, as it can without links;
* `classesIn` — the classes in a list of files;
* `ownOutcome_packed` — what a directory and an archive of the same files load to.
-/

namespace JvmCoupling

/-! ## Trees of files -/

mutual

/-- A file, or a directory with files and directories below it and no links. -/
def Node.isPlain : Node → Bool
  | .file _ => true
  | .link _ => false
  | .directory entries => arePlain entries

/-- Entries of a directory that are plain and have proper names. -/
def arePlain : List (Bytes × Node) → Bool
  | [] => true
  | (name, node) :: rest => Path.isElement name && node.isPlain && arePlain rest

end

mutual

/-- The files at and below a node, by their names relative to the root of the tree: `names` lead to the
node. -/
def Node.filesAt (names : List Bytes) : Node → List (Bytes × Bytes)
  | .file content => [(Path.ofElements names, content.toBytes)]
  | .link _ => []
  | .directory entries => filesBelow names entries

/-- The files at and below the entries of a directory. -/
def filesBelow (names : List Bytes) : List (Bytes × Node) → List (Bytes × Bytes)
  | [] => []
  | (name, node) :: rest => node.filesAt (names ++ [name]) ++ filesBelow names rest

end

/-- The files of a tree with their contents, by their relative names and in the order of a walk. -/
def Node.files (root : Node) : List (Bytes × Bytes) := root.filesAt []

mutual

/-- A tree at a path is readable: its files and directories can be opened by their paths.  They cannot where a path
grows too long, or where it leaves by a step to a parent that comes after a link. -/
def Node.Opens (t : Tree) (path : Bytes) : Node → Prop
  | .file content => t.readFile path = .ok content
  | .link _ => True
  | .directory entries => t.listDirectory path = .ok entries ∧ EntriesOpen t path entries

/-- The entries of a directory at a path are readable. -/
def EntriesOpen (t : Tree) (path : Bytes) : List (Bytes × Node) → Prop
  | [] => True
  | (name, node) :: rest => node.Opens t (Path.join path name) ∧ EntriesOpen t path rest

end

mutual

/-- The names in a tree at a path and the paths to them are not too long, and hold no zero. -/
def Node.fits (path : Bytes) : Node → Bool
  | .directory entries => Path.isOpenable path && entriesFit path entries
  | _ => Path.isOpenable path

/-- The names in a directory at a path are not too long, nor is what is below them. -/
def entriesFit (path : Bytes) : List (Bytes × Node) → Bool
  | [] => true
  | (name, node) :: rest =>
    decide (name.length ≤ maxNameLength) && node.fits (Path.join path name) && entriesFit path rest

end

/-! ## Trees that can be read -/

section Readable

variable {t : Tree} {directory : Bytes} {entries : List (Bytes × Node)}

theorem isPlain_of_lookup {name : Bytes} {node : Node} (plain : arePlain entries = true)
    (there : entries.lookup name = some node) : node.isPlain = true := by
  induction entries with
  | nil => cases there
  | cons entry rest ih =>
    simp only [arePlain, Bool.and_eq_true] at plain
    rw [List.lookup_cons] at there
    split at there
    · cases there
      exact plain.1.2
    · exact ih plain.2 there

theorem Node.isPlain_get? {node below : Node} (plain : node.isPlain = true) {names : List Bytes}
    (present : node.get? names = some below) : below.isPlain = true := by
  induction names generalizing node with
  | nil => rwa [← Option.some.inj present]
  | cons name rest ih =>
    obtain ⟨entries, rfl⟩ := Node.directory_of_get?_cons present
    obtain ⟨child, there, present⟩ := Option.bind_eq_some_iff.1 present
    unfold Node.isPlain at plain
    exact ih (isPlain_of_lookup plain there) present

theorem Tree.linkFree_of_isPlain (plain : t.root.isPlain = true) : t.LinkFree := by
  intro names target present
  have linked := Node.isPlain_get? plain present
  simp [Node.isPlain] at linked

theorem Tree.listDirectory_of_locate {path : Bytes} {names : List Bytes}
    (located : t.locate true path = .ok (.found names (.directory entries))) : t.listDirectory path = .ok entries := by
  rw [listDirectory, nodeAt, located]

mutual

theorem Node.opens_join (linkFree : t.LinkFree) {directory name : Bytes} (element : Path.isElement name = true)
    (short : ∀ e ∈ Path.elements directory, e.length ≤ maxNameLength) (shortName : name.length ≤ maxNameLength) :
    ∀ {node : Node}, t.get? (Path.place t.home directory ++ [name]) = some node → node.isPlain = true →
      node.fits (Path.join directory name) = true → node.Opens t (Path.join directory name)
  | .file content, present, _, fits => by
    have located := linkFree.locate_join element short shortName fits present true
    simp only [Node.Opens, Tree.readFile, Tree.nodeAt, located]
  | .link _, _, plain, _ => by simp [Node.isPlain] at plain
  | .directory entries, present, plain, fits => by
    simp only [Node.fits, Bool.and_eq_true] at fits
    unfold Node.isPlain at plain
    have located := linkFree.locate_join element short shortName fits.1 present true
    rw [← Path.place_join element] at present
    unfold Node.Opens
    exact ⟨Tree.listDirectory_of_locate located, entriesOpen_of_linkFree linkFree
      (Path.short_elements_join element short shortName) present (fun _ => Tree.lookup_of_mem present) plain fits.2⟩

theorem entriesOpen_of_linkFree (linkFree : t.LinkFree) {directory : Bytes}
    (short : ∀ e ∈ Path.elements directory, e.length ≤ maxNameLength) {all : List (Bytes × Node)}
    (present : t.get? (Path.place t.home directory) = some (.directory all)) :
    ∀ {entries : List (Bytes × Node)}, (∀ entry ∈ entries, all.lookup entry.1 = some entry.2) →
      arePlain entries = true → entriesFit directory entries = true → EntriesOpen t directory entries
  | [], _, _, _ => trivial
  | (name, node) :: rest, listed, plain, fits => by
    simp only [arePlain, Bool.and_eq_true] at plain
    simp only [entriesFit, Bool.and_eq_true, decide_eq_true_eq] at fits
    obtain ⟨⟨element, plainNode⟩, plainRest⟩ := plain
    obtain ⟨⟨shortName, fitsNode⟩, fitsRest⟩ := fits
    obtain ⟨first, others⟩ := List.forall_mem_cons.1 listed
    have there : t.get? (Path.place t.home directory ++ [name]) = some node := by
      rw [Tree.get?_concat_of_directory present]
      exact first
    exact ⟨Node.opens_join linkFree element short shortName there plainNode fitsNode,
      entriesOpen_of_linkFree linkFree short present others plainRest fitsRest⟩

end

/-- Without links, a plain tree can be read where its paths and names are not too long. -/
theorem Node.opens_of_linkFree (linkFree : t.LinkFree) (found : t.linkStat directory = .ok (.directory entries))
    (plain : (Node.directory entries).isPlain = true) (fits : entriesFit directory entries = true) :
    (Node.directory entries).Opens t directory := by
  obtain ⟨names, located⟩ := Tree.locate_of_linkStat found
  have followed := Tree.locate_follow located (by simp)
  have present : t.get? (Path.place t.home directory) = some (.directory entries) := by
    rw [linkFree.locate_place located]
    exact Tree.locate_confirms located
  have short := linkFree.short_of_walk (Tree.walk_of_locate located)
  unfold Node.isPlain at plain
  unfold Node.Opens
  exact ⟨Tree.listDirectory_of_locate followed,
    entriesOpen_of_linkFree linkFree short present (fun _ => Tree.lookup_of_mem present) plain fits⟩

end Readable

namespace ClassPath

/-! ## The classes of files -/

/-- The class in a file, if the file's name and content are those of a class. -/
def classIn? (file : Bytes × Bytes) : Option ClassInfo :=
  if isClassFile file.1 then (ClassFile.parse file.2).toOption else none

/-- The classes in a list of files, in order. -/
def classesIn (files : List (Bytes × Bytes)) : List ClassInfo := files.filterMap classIn?

theorem isClassFile_eq_of_base_eq {path path' : Bytes} (same : Path.base path = Path.base path') :
    isClassFile path = isClassFile path' := by
  simp only [isClassFile, same]

theorem fst_load_source (name data : Bytes) :
    (Source.load ⟨name, .ok data⟩).1 = (ClassFile.parse data).toOption := by
  simp only [Source.load, parseSource]
  cases ClassFile.parse data <;> rfl

/-! ## Reading a directory -/

theorem Sources.outcome_sequence_cons {first : Sources} {rest : List Sources} {classes others : List ClassInfo}
    (found : first.outcome = .ok classes) (more : (sequence rest).outcome = .ok others) :
    (sequence (first :: rest)).outcome = .ok (classes ++ others) := by
  unfold outcome at found more ⊢
  unfold sequence
  cases failure : first.failure? with
  | some e => simp [failure] at found
  | none =>
    cases later : (sequence rest).failure? with
    | some e => simp [later] at more
    | none =>
      simp only [failure, later, Except.ok.injEq] at found more ⊢
      simp [classesOf, ← found, ← more]

theorem length_lt_of_listDirectory {t : Tree} {path : Bytes} {entries : List (Bytes × Node)}
    (listed : t.listDirectory path = .ok entries) : path.length < maxPathLength := by
  have there := Tree.listDirectory_eq_ok.1 listed
  unfold Tree.nodeAt Tree.locate at there
  by_contra long
  rw [if_pos (Nat.not_lt.1 long)] at there
  split_ifs at there

theorem walkDirectory_of_listed {t : Tree} {path : Bytes} {entries : List (Bytes × Node)}
    (listed : t.listDirectory path = .ok entries) (depth : Nat) (below : List (Bytes × Node)) :
    walkDirectory t (depth + 1) path (.directory below) =
      .sequence (entries.map fun (name, node) => walkDirectory t depth (Path.join path name) node) := by
  conv_lhs => unfold walkDirectory
  simp only [Node.isDirectory, if_true, listed]

mutual

/-- A walk through a plain tree finds the classes of its files.  Every directory on the way makes the path longer, so
that the walk is never too deep. -/
theorem outcome_walkDirectory (t : Tree) {directory name : Bytes} (element : Path.isElement name = true)
    (names : List Bytes) {depth : Nat} (deep : maxPathLength ≤ (Path.join directory name).length + depth)
    (same : isClassFile (Path.join directory name) = isClassFile (Path.ofElements names)) :
    ∀ {node : Node}, node.isPlain = true → node.Opens t (Path.join directory name) →
      (walkDirectory t depth (Path.join directory name) node).outcome = .ok (classesIn (node.filesAt names))
  | .file content, _, opens => by
    have source : fileSource t (Path.join directory name) = ⟨Path.join directory name, .ok content.toBytes⟩ := by
      unfold Node.Opens at opens
      rw [fileSource, opens]
      rfl
    unfold walkDirectory
    simp only [Node.isDirectory, Bool.false_eq_true, if_false, Sources.outcome, source, same, Node.filesAt, classesIn,
      List.filterMap_cons, List.filterMap_nil, classIn?]
    split
    · simp only [classesOf, List.filterMap_cons, List.filterMap_nil, fst_load_source]
    · rfl
  | .link _, plain, _ => by simp [Node.isPlain] at plain
  | .directory entries, plain, opens => by
    unfold Node.isPlain at plain
    unfold Node.Opens at opens
    obtain ⟨listed, opens⟩ := opens
    have short := length_lt_of_listDirectory listed
    obtain ⟨depth, rfl⟩ : ∃ less, depth = less + 1 := ⟨depth - 1, by omega⟩
    rw [walkDirectory_of_listed listed, Node.filesAt]
    apply outcome_walkEntries t names _ plain opens
    intro below inner
    rw [Path.join_join element inner, List.length_append, List.length_cons]
    omega

theorem outcome_walkEntries (t : Tree) {path : Bytes} (names : List Bytes) {depth : Nat}
    (deep : ∀ name, Path.isElement name = true → maxPathLength ≤ (Path.join path name).length + depth) :
    ∀ {entries : List (Bytes × Node)}, arePlain entries = true → EntriesOpen t path entries →
      (Sources.sequence (entries.map fun (name, node) => walkDirectory t depth (Path.join path name) node)).outcome =
        .ok (classesIn (filesBelow names entries))
  | [], _, _ => rfl
  | (name, node) :: rest, plain, opens => by
    simp only [arePlain, Bool.and_eq_true] at plain
    obtain ⟨⟨element, plainNode⟩, plainRest⟩ := plain
    obtain ⟨opensNode, opensRest⟩ := opens
    have same : isClassFile (Path.join path name) = isClassFile (Path.ofElements (names ++ [name])) := by
      apply isClassFile_eq_of_base_eq
      rw [Path.base_join element, Path.base_ofElements_concat element]
    have first := outcome_walkDirectory t element (names ++ [name]) (deep name element) same plainNode opensNode
    have others := outcome_walkEntries t names deep plainRest opensRest
    rw [List.map_cons, Sources.outcome_sequence_cons first others, filesBelow, classesIn, classesIn, classesIn,
      List.filterMap_append]

end

/-! ## Reading an archive -/

/-- The members of an archive that holds the given files. -/
def packed (files : List (Bytes × Bytes)) : List Zip.Member :=
  files.map fun (name, data) => ⟨name, false, .ok data⟩

/-- A file that lies below the metadata directory. -/
def isMetadata (file : Bytes × Bytes) : Bool := metadataDirectory.isPrefixOf file.1

theorem classesOf_archiveSources_packed (archive : Bytes) (files : List (Bytes × Bytes)) :
    classesOf (archiveSources archive (packed files)) = classesIn (files.filter fun file => !isMetadata file) := by
  simp only [classesOf, archiveSources, packed, classesIn, List.filterMap_map, List.filterMap_filter]
  congr 1
  funext ⟨name, data⟩
  simp only [Function.comp_apply, isClassMember, isMetadata, classIn?, ← fst_load_source name data]
  have source : memberSource archive ⟨name, false, .ok data⟩ = ⟨name, .ok data⟩ := rfl
  rw [source]
  by_cases metadata : metadataDirectory.isPrefixOf name = true <;> simp [metadata]

/-- Leaving out files makes no difference exactly if none of them holds a class. -/
theorem classesIn_filter_eq_iff (keep : Bytes × Bytes → Bool) (files : List (Bytes × Bytes)) :
    classesIn (files.filter keep) = classesIn files ↔ ∀ file ∈ files, keep file = false → classIn? file = none := by
  induction files with
  | nil => simp [classesIn]
  | cons file files ih =>
    have shorter : (classesIn (files.filter keep)).length ≤ (classesIn files).length :=
      (List.filter_sublist.filterMap classIn?).length_le
    rw [List.forall_mem_cons, ← ih]
    cases kept : keep file with
    | true => cases holds : classIn? file <;> simp [classesIn, kept, holds]
    | false =>
      cases holds : classIn? file with
      | none => simp [classesIn, kept, holds]
      | some c =>
        have longer : classesIn (file :: files) = c :: classesIn files := by simp [classesIn, holds]
        have differs : classesIn (files.filter keep) ≠ c :: classesIn files := by
          intro same
          rw [same, List.length_cons] at shorter
          omega
        simp [kept, longer, differs]

/-! ## Exploded and packed -/

variable {t : Tree} {directory archive : Bytes} {entries : List (Bytes × Node)} {content : Content}

theorem ownOutcome_directory (found : t.linkStat directory = .ok (.directory entries))
    (plain : (Node.directory entries).isPlain = true) (opens : (Node.directory entries).Opens t directory) :
    ownOutcome t directory = .ok (classesIn (Node.directory entries).files) := by
  have followed : t.stat directory = .ok (.directory entries) := Tree.stat_of_linkStat found (by simp)
  unfold Node.isPlain at plain
  unfold Node.Opens at opens
  obtain ⟨listed, opens⟩ := opens
  have walked := outcome_walkEntries t [] (fun name _ => Nat.le_add_left maxPathLength _) plain opens
  have sources : sourcesOf t false directory =
      .sequence (entries.map fun (name, node) => walkDirectory t maxPathLength (Path.join directory name) node) := by
    rw [sourcesOf, followed, directorySources, found, ← walkDirectory_of_listed listed]
    rfl
  rw [ownOutcome, outcome_loadEntry, sources, walked, Node.files, Node.filesAt]

theorem ownOutcome_archive {files : List (Bytes × Bytes)} (named : isArchive archive = true)
    (readable : t.readFile archive = .ok content) (holds : Zip.members content.toBytes = .ok (packed files)) :
    ownOutcome t archive = .ok (classesIn (files.filter fun file => !isMetadata file)) := by
  have sources : sourcesOf t false archive = fileSources false archive content := by
    rw [sourcesOf, Tree.stat_of_readFile readable, readable]
    rfl
  rw [ownOutcome, outcome_loadEntry, sources, fileSources_of_members named holds, Sources.outcome,
    classesOf_archiveSources_packed]

/-- A readable tree of files gives the classes of its files as a directory; as an archive, it gives those of its files
that do not lie below the metadata directory.  These are the same classes exactly if no file below the
metadata directory holds one, and then either may stand for the other on a class path. -/
theorem ownOutcome_packed (found : t.linkStat directory = .ok (.directory entries))
    (plain : (Node.directory entries).isPlain = true) (opens : (Node.directory entries).Opens t directory)
    (named : isArchive archive = true) (readable : t.readFile archive = .ok content)
    (holds : Zip.members content.toBytes = .ok (packed (Node.directory entries).files)) :
    ownOutcome t directory = .ok (classesIn (Node.directory entries).files) ∧
    ownOutcome t archive = .ok (classesIn ((Node.directory entries).files.filter fun file => !isMetadata file)) ∧
    (ownOutcome t archive = ownOutcome t directory ↔
      ∀ file ∈ (Node.directory entries).files, isMetadata file = true → classIn? file = none) ∧
    ((∀ file ∈ (Node.directory entries).files, isMetadata file = true → classIn? file = none) →
      ∀ before after, (load t (before ++ archive :: after) false).1 =
        (load t (before ++ directory :: after) false).1) := by
  have exploded := ownOutcome_directory found plain opens
  have fromArchive := ownOutcome_archive named readable holds
  have same : ownOutcome t archive = ownOutcome t directory ↔
      ∀ file ∈ (Node.directory entries).files, isMetadata file = true → classIn? file = none := by
    rw [exploded, fromArchive, Except.ok.injEq, classesIn_filter_eq_iff]
    simp only [Bool.not_eq_eq_eq_not, Bool.not_false]
  refine ⟨exploded, fromArchive, same, fun unaffected before after => ?_⟩
  exact load_replace ((same.2 unaffected).trans exploded) exploded before after

deriving instance DecidableEq for Zip.Member

/-- The file of a class without superclass, interfaces and members. -/
def bareFile : Bytes :=
  [0xCA, 0xFE, 0xBA, 0xBE, 0, 0, 0, 0x34, 0, 3, 1, 0, 1, 0x41, 7, 0, 1, 0, 0x21, 0, 2, 0, 0, 0, 0, 0, 0, 0, 0,
    0, 0]

def bareClass : ClassInfo := ⟨[0x41], [], [], false, []⟩

/-- A directory `d` beside an archive `d.jar`. -/
def besideArchive (entries : List (Bytes × Node)) (archive : Bytes) (ordered : areOrdered entries = true) : Tree where
  root := .directory [(utf8 "d", .directory entries), (utf8 "d.jar", .file (.bytes archive))]
  ordered := by
    have names : utf8 "d" < utf8 "d.jar" := by decide
    simp [Node.isOrdered, areOrdered, ordered, names]

/-- The files `META-INF/M` and `p/A.class`. -/
def manifestAndClass : List (Bytes × Node) :=
  [(utf8 "META-INF", .directory [(utf8 "M", .file (.bytes [0x4D]))]),
    (utf8 "p", .directory [(utf8 "A.class", .file (.bytes bareFile))])]

/-- An archive of the same two files. -/
def manifestAndClassArchive : Bytes :=
  [0x50, 0x4B, 3, 4, 0x14, 0, 0, 0, 0, 0, 0, 0, 0x21, 0, 0xA0, 0xD2, 0x6F, 0xDA, 1, 0, 0, 0, 1, 0, 0, 0, 0x0A,
    0, 0, 0, 0x4D, 0x45, 0x54, 0x41, 0x2D, 0x49, 0x4E, 0x46, 0x2F, 0x4D, 0x4D, 0x50, 0x4B, 3, 4, 0x14, 0, 0, 0,
    0, 0, 0, 0, 0x21, 0, 0x61, 2, 0xCE, 0x52, 0x1F, 0, 0, 0, 0x1F, 0, 0, 0, 9, 0, 0, 0, 0x70, 0x2F, 0x41, 0x2E,
    0x63, 0x6C, 0x61, 0x73, 0x73, 0xCA, 0xFE, 0xBA, 0xBE, 0, 0, 0, 0x34, 0, 3, 1, 0, 1, 0x41, 7, 0, 1, 0, 0x21,
    0, 2, 0, 0, 0, 0, 0, 0, 0, 0, 0, 0, 0x50, 0x4B, 1, 2, 0x14, 0, 0x14, 0, 0, 0, 0, 0, 0, 0, 0x21, 0, 0xA0,
    0xD2, 0x6F, 0xDA, 1, 0, 0, 0, 1, 0, 0, 0, 0x0A, 0, 0, 0, 0, 0, 0, 0, 0, 0, 0, 0, 0x80, 1, 0, 0, 0, 0, 0x4D,
    0x45, 0x54, 0x41, 0x2D, 0x49, 0x4E, 0x46, 0x2F, 0x4D, 0x50, 0x4B, 1, 2, 0x14, 0, 0x14, 0, 0, 0, 0, 0, 0, 0,
    0x21, 0, 0x61, 2, 0xCE, 0x52, 0x1F, 0, 0, 0, 0x1F, 0, 0, 0, 9, 0, 0, 0, 0, 0, 0, 0, 0, 0, 0, 0, 0x80, 1,
    0x29, 0, 0, 0, 0x70, 0x2F, 0x41, 0x2E, 0x63, 0x6C, 0x61, 0x73, 0x73, 0x50, 0x4B, 5, 6, 0, 0, 0, 0, 2, 0, 2,
    0, 0x6F, 0, 0, 0, 0x6F, 0, 0, 0, 0, 0]

/-- Both of them side by side. -/
def manifestAndClassTwice : Tree := besideArchive manifestAndClass manifestAndClassArchive (by decide)

theorem ownOutcome_packed_manifestAndClass :
    Zip.members manifestAndClassArchive = .ok (packed (Node.directory manifestAndClass).files) ∧
    ownOutcome manifestAndClassTwice (utf8 "d") = .ok [bareClass] ∧
    ownOutcome manifestAndClassTwice (utf8 "d.jar") = .ok [bareClass] ∧
    (load manifestAndClassTwice [utf8 "d.jar"] false).1 =
      (load manifestAndClassTwice [utf8 "d"] false).1 := by
  have found : manifestAndClassTwice.linkStat (utf8 "d") =
      .ok (.directory manifestAndClass) := by cbv
  have readable : manifestAndClassTwice.readFile (utf8 "d.jar") =
      .ok (.bytes manifestAndClassArchive) := by cbv
  have holds : Zip.members manifestAndClassArchive = .ok (packed (Node.directory manifestAndClass).files) := by
    decide +kernel
  have plain : (Node.directory manifestAndClass).isPlain = true := by decide +kernel
  have opens : (Node.directory manifestAndClass).Opens manifestAndClassTwice (utf8 "d") :=
    Node.opens_of_linkFree (Tree.linkFree_of_isPlain (by decide +kernel)) found plain (by decide +kernel)
  obtain ⟨exploded, -, same, replaced⟩ := ownOutcome_packed found plain opens (by decide +kernel) readable holds
  have unaffected :
      ∀ file ∈ (Node.directory manifestAndClass).files, isMetadata file = true → classIn? file = none := by
    decide +kernel
  have classes : classesIn (Node.directory manifestAndClass).files = [bareClass] := by decide +kernel
  rw [classes] at exploded
  exact ⟨holds, exploded, (same.2 unaffected).trans exploded, replaced unaffected [] []⟩

/-- The file `META-INF/A.class`. -/
def metadataClass : List (Bytes × Node) :=
  [(utf8 "META-INF", .directory [(utf8 "A.class", .file (.bytes bareFile))])]

/-- An archive of the same file. -/
def metadataClassArchive : Bytes :=
  [0x50, 0x4B, 3, 4, 0x14, 0, 0, 0, 0, 0, 0, 0, 0x21, 0, 0x61, 2, 0xCE, 0x52, 0x1F, 0, 0, 0, 0x1F, 0, 0, 0,
    0x10, 0, 0, 0, 0x4D, 0x45, 0x54, 0x41, 0x2D, 0x49, 0x4E, 0x46, 0x2F, 0x41, 0x2E, 0x63, 0x6C, 0x61, 0x73,
    0x73, 0xCA, 0xFE, 0xBA, 0xBE, 0, 0, 0, 0x34, 0, 3, 1, 0, 1, 0x41, 7, 0, 1, 0, 0x21, 0, 2, 0, 0, 0, 0, 0, 0,
    0, 0, 0, 0, 0x50, 0x4B, 1, 2, 0x14, 0, 0x14, 0, 0, 0, 0, 0, 0, 0, 0x21, 0, 0x61, 2, 0xCE, 0x52, 0x1F, 0, 0,
    0, 0x1F, 0, 0, 0, 0x10, 0, 0, 0, 0, 0, 0, 0, 0, 0, 0, 0, 0x80, 1, 0, 0, 0, 0, 0x4D, 0x45, 0x54, 0x41, 0x2D,
    0x49, 0x4E, 0x46, 0x2F, 0x41, 0x2E, 0x63, 0x6C, 0x61, 0x73, 0x73, 0x50, 0x4B, 5, 6, 0, 0, 0, 0, 1, 0, 1, 0,
    0x3E, 0, 0, 0, 0x4D, 0, 0, 0, 0, 0]

/-- Both of them side by side. -/
def metadataClassTwice : Tree := besideArchive metadataClass metadataClassArchive (by decide)

/-- A class below the metadata directory is loaded from a directory and not from an archive of the same
files. -/
theorem metadataClass_not_packed :
    Zip.members metadataClassArchive = .ok (packed (Node.directory metadataClass).files) ∧
    ownOutcome metadataClassTwice (utf8 "d") = .ok [bareClass] ∧
    ownOutcome metadataClassTwice (utf8 "d.jar") = .ok [] ∧
    ownOutcome metadataClassTwice (utf8 "d.jar") ≠
      ownOutcome metadataClassTwice (utf8 "d") := by
  have found : metadataClassTwice.linkStat (utf8 "d") =
      .ok (.directory metadataClass) := by cbv
  have readable : metadataClassTwice.readFile (utf8 "d.jar") =
      .ok (.bytes metadataClassArchive) := by cbv
  have holds : Zip.members metadataClassArchive = .ok (packed (Node.directory metadataClass).files) := by
    decide +kernel
  have plain : (Node.directory metadataClass).isPlain = true := by decide +kernel
  have opens : (Node.directory metadataClass).Opens metadataClassTwice (utf8 "d") :=
    Node.opens_of_linkFree (Tree.linkFree_of_isPlain (by decide +kernel)) found plain (by decide +kernel)
  have exploded := ownOutcome_directory found plain opens
  have fromArchive := ownOutcome_archive (by decide +kernel) readable holds
  have classes : classesIn (Node.directory metadataClass).files = [bareClass] := by decide +kernel
  have leftOut : classesIn ((Node.directory metadataClass).files.filter fun file => !isMetadata file) = [] := by
    decide +kernel
  rw [classes] at exploded
  rw [leftOut] at fromArchive
  refine ⟨holds, exploded, fromArchive, ?_⟩
  rw [exploded, fromArchive]
  simp

end ClassPath

end JvmCoupling
