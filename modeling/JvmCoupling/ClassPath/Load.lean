import JvmCoupling.Archive.Zip
import JvmCoupling.ClassFile.Parse
import JvmCoupling.ClassPath.Entry
import JvmCoupling.Log
import JvmCoupling.Storage.Tree
import JvmCoupling.Universe

/-! # Loading a class path

An entry is a directory, an archive or a single class file.  Its classes are read in a fixed order, and the
classes of all entries are put together in entry order, so that the first definition of a class wins.  A
class that cannot be parsed is logged and left out; an entry that cannot be read fails the whole load.

* `Source`, `classesOf` — bytes that may hold a class, and the classes of a list of them;
* `walkDirectory` — the sources below a directory;
* `sourcesOf`, `loadEntry` — the sources and the classes of one entry;
* `load` — the universe of a list of entries.
-/

namespace JvmCoupling.ClassPath

/-! ## Failures -/

/-- Why an entry cannot be loaded. -/
inductive EntryError where
  | path (e : PathError)
  | archive (fault : Zip.Fault)
  | unsupported
  | cancelled
deriving DecidableEq, Repr, Inhabited

/-- The wording of an operation that was called off. -/
def cancelledMessage : Bytes := utf8 "context canceled"

/-- The wording of an entry's failure. -/
def EntryError.message (entry : Bytes) : EntryError → Bytes
  | .path e => e.message
  | .archive fault => fault.message entry
  | .unsupported => utf8 "unsupported class path entry type"
  | .cancelled => cancelledMessage

/-- Why a class path cannot be loaded. -/
inductive LoadError where
  | noEntries
  | badEntry (entry : Bytes) (cause : EntryError)
deriving DecidableEq, Repr, Inhabited

/-- The wording of a failure. -/
def LoadError.message : LoadError → Bytes
  | noEntries => utf8 "no class path entries"
  | badEntry entry cause =>
    utf8 "failed to load class path entry " ++ entry ++ utf8 ": " ++ cause.message entry

/-! ## Sources -/

/-- Bytes that may hold a class, or why they cannot be had, and where they come from. -/
structure Source where
  name : Bytes
  content : Except Log.Record Bytes
deriving Inhabited

/-- The class in some bytes, and what is logged of it. -/
def parseSource (name data : Bytes) : Except Log.Record ClassInfo × Log.Record :=
  match ClassFile.parse data with
  | .ok c =>
    let record : Log.Record :=
      ⟨.debug, utf8 "Loaded class", [Log.textField "class" c.name, Log.countField "methods" c.methods.length]⟩
    (.ok c, record)
  | .error e =>
    let record : Log.Record :=
      ⟨.warn, utf8 "Skipping class that failed to parse",
        [Log.textField "file" name, Log.textField "error" (e.message name)]⟩
    (.error record, record)

/-- The class of a source, if it has one, and what is logged of it. -/
def Source.load (s : Source) : Option ClassInfo × Log.Record :=
  match s.content with
  | .error record => (none, record)
  | .ok data =>
    match parseSource s.name data with
    | (.ok c, record) => (some c, record)
    | (.error _, record) => (none, record)

/-- The classes of a list of sources, in order. -/
def classesOf (sources : List Source) : List ClassInfo := sources.filterMap fun s => s.load.1

/-- What is logged of a list of sources. -/
def logOf (sources : List Source) : List Log.Record := sources.map fun s => s.load.2

/-- The record of a file that cannot be read. -/
def unreadable (message : String) (name error : Bytes) : Log.Record :=
  ⟨.warn, utf8 message, [Log.textField "file" name, Log.textField "error" error]⟩

/-- The source at a path that a walk through a directory comes by.  The path is opened anew. -/
def fileSource (t : Tree) (path : Bytes) : Source :=
  ⟨path, ((t.readFile path).map Content.toBytes).mapError fun e =>
    unreadable "Skipping unreadable class file" path e.message⟩

/-- The sources that were come by, and why there are no more if something failed. -/
structure Sources where
  list : List Source := []
  failure? : Option EntryError := none
deriving Inhabited

namespace Sources

/-- Nothing, for a reason. -/
def fail (e : EntryError) : Sources := { failure? := some e }

/-- The sources of one step after the other, up to the first failure. -/
def sequence : List Sources → Sources
  | [] => {}
  | first :: rest =>
    match first.failure? with
    | some _ => first
    | none =>
      let others := sequence rest
      { others with list := first.list ++ others.list }

/-- The classes of the sources, unless something failed. -/
def outcome (s : Sources) : Except EntryError (List ClassInfo) :=
  match s.failure? with
  | some e => .error e
  | none => .ok (classesOf s.list)

end Sources

/-- The sources at and below a path, in the order of a walk: the names of a directory in order, and directories
entered in place.  A directory is listed by its path, and one that cannot be listed ends the walk.  `depth`
bounds the directories on the way, which each make the path longer. -/
def walkDirectory (t : Tree) (depth : Nat) (path : Bytes) (node : Node) : Sources :=
  if node.isDirectory then
    match depth, t.listDirectory path with
    | 0, _ => .fail (.path ⟨"open", path, .nameTooLong⟩)
    | _, .error e => .fail (.path e)
    | depth + 1, .ok entries =>
      .sequence (entries.map fun (name, node) => walkDirectory t depth (Path.join path name) node)
  else { list := if isClassFile path then [fileSource t path] else [] }

/-- The sources of a directory.  Only its own path may become shorter by joining names to it. -/
def directorySources (t : Tree) (path : Bytes) : Sources :=
  match t.linkStat path with
  | .error e => .fail (.path e)
  | .ok root => walkDirectory t (maxPathLength + 1) path root

/-- Members below this directory describe the archive, or are variants of classes for other releases. -/
def metadataDirectory : Bytes := utf8 "META-INF/"

/-- A member that is loaded. -/
def isClassMember (m : Zip.Member) : Bool :=
  !m.isDirectory && !metadataDirectory.isPrefixOf m.name && isClassFile m.name

/-- The source of a member of an archive. -/
def memberSource (entry : Bytes) (m : Zip.Member) : Source :=
  ⟨m.name, m.content.mapError fun fault =>
    unreadable "Skipping unreadable archive entry" m.name (fault.message entry)⟩

/-- The sources of an archive, in the order of its directory. -/
def archiveSources (entry : Bytes) (members : List Zip.Member) : List Source :=
  (members.filter isClassMember).map (memberSource entry)

/-! ## Entries -/

/-- The sources of an entry that is a file.  When loading has been called off, an archive with members stops
at the first of them. -/
def fileSources (cancelled : Bool) (entry : Bytes) (content : Content) : Sources :=
  if isArchive entry then
    match Zip.members content.toBytes with
    | .error fault => .fail (.archive fault)
    | .ok members =>
      if cancelled && !members.isEmpty then .fail .cancelled else { list := archiveSources entry members }
  else if classExtension.isSuffixOf entry then { list := [⟨entry, .ok content.toBytes⟩] }
  else .fail .unsupported

/-- The sources of an entry.  When loading has been called off, a directory stops at once. -/
def sourcesOf (t : Tree) (cancelled : Bool) (entry : Bytes) : Sources :=
  match t.stat entry with
  | .error e => .fail (.path e)
  | .ok node =>
    if node.isDirectory then
      if cancelled then .fail .cancelled else directorySources t entry
    else
      match t.readFile entry with
      | .error e => .fail (.path e)
      | .ok content => fileSources cancelled entry content

/-- What came of an entry: its classes or its failure, and what is logged. -/
structure EntryResult where
  outcome : Except EntryError (List ClassInfo)
  log : List Log.Record := []
deriving Inhabited

/-- Loads one entry.  Log records name it. -/
def loadEntry (t : Tree) (cancelled : Bool) (entry : Bytes) : EntryResult :=
  let sources := sourcesOf t cancelled entry
  { outcome := sources.outcome
    log := (logOf sources.list).map (Log.Record.under [Log.textField "entry" entry]) }

/-- Loads entries one after the other.  Once one fails, the rest is called off, but still visited; the
first failure counts. -/
def loadEntries (t : Tree) (cancelled : Bool) :
    List Bytes → Except LoadError (List ClassInfo) × List Log.Record
  | [] => (.ok [], [])
  | entry :: rest =>
    let result := loadEntry t cancelled entry
    match result.outcome with
    | .error e => (.error (.badEntry entry e), result.log ++ (loadEntries t true rest).2)
    | .ok classes =>
      let (others, log) := loadEntries t cancelled rest
      (others.map (classes ++ ·), result.log ++ log)

/-- How many classes of a list a universe does not accept, one added after the other. -/
def countShadowed (u : Universe) : List ClassInfo → Nat
  | [] => 0
  | c :: rest => (if u.accepts (some c) then 0 else 1) + countShadowed (u.add (some c)) rest

/-- The universe of a class path, and what is logged on the way. -/
def load (t : Tree) (entries : List Bytes) (cancelled : Bool) :
    Except LoadError Universe × List Log.Record :=
  if entries = [] then (.error .noEntries, [])
  else
    match loadEntries t cancelled entries with
    | (.error e, log) => (.error e, log)
    | (.ok classes, log) =>
      let u := Universe.ofList (classes.map some)
      let record : Log.Record :=
        ⟨.info, utf8 "Loaded class universe", [
          Log.countField "entries" entries.length,
          Log.countField "classes" u.size,
          Log.countField "shadowed" (countShadowed {} classes)]⟩
      (.ok u, log ++ [record])

end JvmCoupling.ClassPath
