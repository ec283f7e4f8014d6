import JvmCoupling.Storage.Database
import JvmCoupling.Storage.Path

/-! # File systems

A file system as plain data: files, directories and symbolic links below a root, and a working directory
among them.  Names within a directory are kept in bytewise order.

* `Node` — a file, a link or a directory;
* `Node.get?`, `Node.put` — the node at a place, by a list of names without links;
* `Node.isOrdered` — every directory at and below a node is in order;
* `Tree` — a file system;
* `Tree.locate` — where a path leads, following links;
* `Tree.stat`, `Tree.readFile`, `Tree.listDirectory` — reading;
* `Tree.makeDirectories`, `Tree.writeFile` — writing.
-/

namespace JvmCoupling

/-- What a file holds: bytes, or the tables of a database. -/
inductive Content where
  | bytes (data : Bytes)
  | database (db : Database)
deriving DecidableEq, Repr, Inhabited

/-- The first bytes of a database file. -/
def databaseHeader : Bytes := utf8 "SQLite format 3" ++ [0]

/-- The content read as bytes.  Of a database only the header is known. -/
def Content.toBytes : Content → Bytes
  | .bytes data => data
  | .database _ => databaseHeader

/-- A file, a symbolic link or a directory. -/
inductive Node where
  | file (content : Content)
  | link (target : Bytes)
  | directory (entries : List (Bytes × Node))
deriving Repr, Inhabited

namespace Node

/-- A directory. -/
def isDirectory : Node → Bool
  | directory _ => true
  | _ => false

/-- The entries of a directory; nothing has no entries. -/
def entries : Node → List (Bytes × Node)
  | directory es => es
  | _ => []

/-- The entries with one set to a node, in bytewise order of the names. -/
def insertEntry (name : Bytes) (node : Node) : List (Bytes × Node) → List (Bytes × Node)
  | [] => [(name, node)]
  | (other, old) :: rest =>
    if other = name then (name, node) :: rest
    else if name < other then (name, node) :: (other, old) :: rest
    else (other, old) :: insertEntry name node rest

/-- The node at a place below. -/
def get? : List Bytes → Node → Option Node
  | [], node => some node
  | name :: rest, node => (node.entries.lookup name).bind (get? rest)

/-- The tree with the node at a place replaced, or put there.  Directories on the way are made as needed. -/
def put (new : Node) : List Bytes → Node → Node
  | [], _ => new
  | name :: rest, node =>
    directory (insertEntry name (put new rest ((node.entries.lookup name).getD (directory []))) node.entries)

end Node

/-! ## The order of names -/

mutual

/-- The names of a directory, and of every directory below it, stand in bytewise order, each of them once. -/
def Node.isOrdered : Node → Bool
  | .directory entries => areOrdered entries
  | .file _ => true
  | .link _ => true

/-- Entries in bytewise order of their names, with what is below them in order too. -/
def areOrdered : List (Bytes × Node) → Bool
  | [] => true
  | (name, node) :: rest => (rest.all fun entry => name < entry.1) && node.isOrdered && areOrdered rest

end

namespace Node

theorem areOrdered_entries {node : Node} (ordered : node.isOrdered = true) : areOrdered node.entries = true := by
  cases node with
  | directory entries => exact ordered
  | file content => rfl
  | link target => rfl

theorem isOrdered_of_lookup {name : Bytes} {node : Node} {entries : List (Bytes × Node)}
    (ordered : areOrdered entries = true) (present : entries.lookup name = some node) : node.isOrdered = true := by
  induction entries with
  | nil => cases present
  | cons entry rest ih =>
    simp only [areOrdered, Bool.and_eq_true] at ordered
    rw [List.lookup_cons] at present
    split at present
    · cases present
      exact ordered.1.2
    · exact ih ordered.2 present

theorem lt_of_mem_insertEntry {first name : Bytes} {node : Node} {entries : List (Bytes × Node)}
    (before : first < name) (others : ∀ entry ∈ entries, first < entry.1) :
    ∀ entry ∈ insertEntry name node entries, first < entry.1 := by
  induction entries with
  | nil => simpa [insertEntry] using before
  | cons entry rest ih =>
    obtain ⟨second, behind⟩ := List.forall_mem_cons.1 others
    unfold insertEntry
    split
    · exact List.forall_mem_cons.2 ⟨before, behind⟩
    · split
      · exact List.forall_mem_cons.2 ⟨before, others⟩
      · exact List.forall_mem_cons.2 ⟨second, ih behind⟩

theorem areOrdered_insertEntry {name : Bytes} {node : Node} {entries : List (Bytes × Node)}
    (ordered : areOrdered entries = true) (inner : node.isOrdered = true) :
    areOrdered (insertEntry name node entries) = true := by
  induction entries with
  | nil => simp [insertEntry, areOrdered, inner]
  | cons entry rest ih =>
    obtain ⟨other, old⟩ := entry
    simp only [areOrdered, Bool.and_eq_true, List.all_eq_true, decide_eq_true_eq] at ordered
    obtain ⟨⟨first, oldInner⟩, others⟩ := ordered
    unfold insertEntry
    split
    · next same =>
      subst same
      simpa only [areOrdered, Bool.and_eq_true, List.all_eq_true, decide_eq_true_eq] using ⟨⟨first, inner⟩, others⟩
    · next different =>
      split
      · next before =>
        simp only [areOrdered, Bool.and_eq_true, List.all_eq_true, decide_eq_true_eq, List.forall_mem_cons]
        exact ⟨⟨⟨before, fun entry member => List.lt_trans before (first entry member)⟩, inner⟩,
          ⟨first, oldInner⟩, others⟩
      · next after =>
        have before : other < name :=
          List.not_le.1 fun reverse => different (List.le_antisymm (List.not_lt.1 after) reverse)
        simp only [areOrdered, Bool.and_eq_true, List.all_eq_true, decide_eq_true_eq]
        exact ⟨⟨lt_of_mem_insertEntry before first, oldInner⟩, ih others⟩

/-- Nodes are put in order. -/
theorem isOrdered_put {new node : Node} (inner : new.isOrdered = true) (ordered : node.isOrdered = true)
    (names : List Bytes) : (put new names node).isOrdered = true := by
  induction names generalizing node with
  | nil => exact inner
  | cons name rest ih =>
    have child : ((node.entries.lookup name).getD (directory [])).isOrdered = true := by
      cases present : node.entries.lookup name with
      | none => rfl
      | some child => exact isOrdered_of_lookup (areOrdered_entries ordered) present
    exact areOrdered_insertEntry (areOrdered_entries ordered) (ih child)

end Node

/-- What can be put at a place: a file, a link, or a directory with nothing in it. -/
inductive Item where
  | directory
  | link (target : Bytes)
  | file (content : Content)
deriving DecidableEq, Repr, Inhabited

/-- The node of an item. -/
def Item.node : Item → Node
  | .directory => .directory []
  | .link target => .link target
  | .file content => .file content

theorem Item.isOrdered_node (item : Item) : item.node.isOrdered = true := by
  cases item <;> rfl

/-! ## Failures -/

/-- Why the operating system refuses an operation. -/
inductive Refusal where
  | noSuchFile
  | notDirectory
  | isDirectory
  | fileExists
  | tooManyLinks
  | nameTooLong
  | invalidArgument
deriving DecidableEq, Repr, Inhabited

/-- The wording of a refusal. -/
def Refusal.message : Refusal → String
  | noSuchFile => "no such file or directory"
  | notDirectory => "not a directory"
  | isDirectory => "is a directory"
  | fileExists => "file exists"
  | tooManyLinks => "too many levels of symbolic links"
  | nameTooLong => "file name too long"
  | invalidArgument => "invalid argument"

/-- An operation on a path that was refused. -/
structure PathError where
  operation : String
  path : Bytes
  refusal : Refusal
deriving DecidableEq, Repr, Inhabited

/-- The full text: operation, path and reason. -/
def PathError.message (e : PathError) : Bytes :=
  utf8 e.operation ++ utf8 " " ++ e.path ++ utf8 ": " ++ utf8 e.refusal.message

/-! ## Following a path -/

/-- A file system: what is below its root, in bytewise order of the names, and the working directory, by the
names that lead to it. -/
structure Tree where
  root : Node := .directory []
  home : List Bytes := []
  ordered : root.isOrdered = true := by rfl
deriving Repr

instance : Inhabited Tree := ⟨{}⟩

/-- Where a path leads. -/
inductive Destination where
  /-- A node of the tree. -/
  | found (names : List Bytes) (node : Node)
  /-- A name that is free, in a directory of the tree. -/
  | free (directory : List Bytes) (name : Bytes)
deriving Repr, Inhabited

/-- The longest name of an entry. -/
def maxNameLength : Nat := 255

/-- The length that a path has to stay below. -/
def maxPathLength : Nat := 4096

/-- How many links may be followed on the way. -/
def maxLinks : Nat := 40

namespace Tree

/-- The node at a place in the tree. -/
def get? (t : Tree) (names : List Bytes) : Option Node := t.root.get? names

/-- The first place of a path: the root, or the working directory. -/
def start (t : Tree) (path : Bytes) : List Bytes := if Path.isAbsolute path then [] else t.home

/-- What a name leads to in a directory. -/
inductive Step where
  | refuse (refusal : Refusal)
  | free
  | into (node : Node)
  | follow (target : Bytes)
deriving Repr, Inhabited

/-- Looks up a name in the directory at a place. -/
def lookup (t : Tree) (names : List Bytes) (name : Bytes) : Step :=
  match t.get? names with
  | none => .refuse .noSuchFile
  | some (.directory entries) =>
    if maxNameLength < name.length then .refuse .nameTooLong
    else
      match entries.lookup name with
      | none => .free
      | some (.link target) => .follow target
      | some node => .into node
  | some _ => .refuse .notDirectory

/-- Follows the elements of a path from a place.  The root is its own parent.  `links` bounds the links on
the way; the last element is followed if it is a link and `followLast` holds. -/
def walk (t : Tree) (followLast : Bool) (links : Nat) (names elements : List Bytes) :
    Except Refusal Destination :=
  match elements with
  | [] =>
    match t.get? names with
    | some node => .ok (.found names node)
    | none => .error .noSuchFile
  | element :: rest =>
    if element = Path.here then walk t followLast links names rest
    else if element = Path.parent then walk t followLast links names.dropLast rest
    else
      match t.lookup names element with
      | .refuse refusal => .error refusal
      | .free => if rest = [] then .ok (.free names element) else .error .noSuchFile
      | .into node =>
        if rest ≠ [] ∧ !node.isDirectory then .error .notDirectory
        else walk t followLast links (names ++ [element]) rest
      | .follow target =>
        if rest = [] ∧ !followLast then .ok (.found (names ++ [element]) (.link target))
        else
          match links with
          | 0 => .error .tooManyLinks
          | links + 1 =>
            if target = [] then .error .noSuchFile
            else
              walk t followLast links (if Path.isAbsolute target then [] else names)
                (Path.elements target ++ rest)
termination_by (links, elements.length)

/-- Where a path leads.  A path that ends in a slash leads to a directory, so that its last element is
followed if it is a link. -/
def locate (t : Tree) (followLast : Bool) (path : Bytes) : Except Refusal Destination :=
  if path.contains 0 then .error .invalidArgument
  else if path = [] then .error .noSuchFile
  else if maxPathLength ≤ path.length then .error .nameTooLong
  else
    match t.walk (followLast || Path.endsInSlash path) maxLinks (t.start path) (Path.elements path) with
    | .ok (.found names node) =>
      if Path.endsInSlash path && !node.isDirectory then .error .notDirectory else .ok (.found names node)
    | other => other

/-! ## Reading -/

/-- The node that a path leads to. -/
def nodeAt (t : Tree) (followLast : Bool) (path : Bytes) : Except Refusal Node :=
  match t.locate followLast path with
  | .ok (.found _ node) => .ok node
  | .ok (.free _ _) => .error .noSuchFile
  | .error refusal => .error refusal

/-- The file or directory that a path leads to, through links. -/
def stat (t : Tree) (path : Bytes) : Except PathError Node :=
  (t.nodeAt true path).mapError fun refusal => ⟨"stat", path, refusal⟩

/-- The node that a path leads to, the last link not followed. -/
def linkStat (t : Tree) (path : Bytes) : Except PathError Node :=
  (t.nodeAt false path).mapError fun refusal => ⟨"lstat", path, refusal⟩

/-- The content of a file. -/
def readFile (t : Tree) (path : Bytes) : Except PathError Content :=
  match t.nodeAt true path with
  | .ok (.file content) => .ok content
  | .ok _ => .error ⟨"read", path, .isDirectory⟩
  | .error refusal => .error ⟨"open", path, refusal⟩

/-- The entries of a directory, in bytewise order. -/
def listDirectory (t : Tree) (path : Bytes) : Except PathError (List (Bytes × Node)) :=
  match t.nodeAt true path with
  | .ok (.directory entries) => .ok entries
  | .ok _ => .error ⟨"readdirent", path, .notDirectory⟩
  | .error refusal => .error ⟨"open", path, refusal⟩

/-! ## Writing -/

/-- The tree with an item put at a place. -/
def put (t : Tree) (names : List Bytes) (item : Item) : Tree where
  root := Node.put item.node names t.root
  home := t.home
  ordered := Node.isOrdered_put item.isOrdered_node t.ordered names

/-- Makes one directory. -/
def makeDirectory (t : Tree) (path : Bytes) : Except PathError Tree :=
  match t.locate false path with
  | .ok (.free directory name) => .ok (t.put (directory ++ [name]) .directory)
  | .ok _ => .error ⟨"mkdir", path, .fileExists⟩
  | .error .notDirectory =>
    -- a slash after the name of a file leads nowhere, but the name is taken
    match t.locate false ((path.reverse.dropWhile (· = Bytes.slash)).reverse) with
    | .ok (.found _ _) => .error ⟨"mkdir", path, .fileExists⟩
    | _ => .error ⟨"mkdir", path, .notDirectory⟩
  | .error refusal => .error ⟨"mkdir", path, refusal⟩

/-- The directories that lead to a path, outermost first, and the path itself. -/
def pathPrefixes (path : Bytes) : Nat → List Bytes
  | 0 => [path]
  | n + 1 =>
    let above := Path.directory path
    if above = [] then [path] else pathPrefixes above n ++ [path]

/-- Makes a directory unless there is one.  What is in the way is an error. -/
def ensureDirectory (t : Tree) (path : Bytes) : Except PathError Tree :=
  match t.stat path with
  | .ok node => if node.isDirectory then .ok t else .error ⟨"mkdir", path, .notDirectory⟩
  | .error _ =>
    match t.makeDirectory path with
    | .ok t => .ok t
    | .error e =>
      match t.linkStat path with
      | .ok node => if node.isDirectory then .ok t else .error e
      | .error _ => .error e

/-- Makes the directories of a list in order, up to the first failure. -/
def ensureDirectories (t : Tree) : List Bytes → Tree × Except PathError Unit
  | [] => (t, .ok ())
  | path :: rest =>
    match t.ensureDirectory path with
    | .ok t => ensureDirectories t rest
    | .error e => (t, .error e)

/-- Makes a directory and the directories that lead to it, unless it is there. -/
def makeDirectories (t : Tree) (path : Bytes) : Tree × Except PathError Unit :=
  match t.stat path with
  | .ok node => (t, if node.isDirectory then .ok () else .error ⟨"mkdir", path, .notDirectory⟩)
  | .error _ => ensureDirectories t (pathPrefixes path path.length)

/-- Writes a file, which is made if its name is free. -/
def writeFile (t : Tree) (path : Bytes) (content : Content) : Except PathError Tree :=
  match t.locate true path with
  | .ok (.found names (.file _)) => .ok (t.put names (.file content))
  | .ok (.found _ _) => .error ⟨"open", path, .isDirectory⟩
  | .ok (.free directory name) => .ok (t.put (directory ++ [name]) (.file content))
  | .error refusal => .error ⟨"open", path, refusal⟩

/-- Puts a link at a path whose last name is free. -/
def writeLink (t : Tree) (path target : Bytes) : Except PathError Tree :=
  match t.locate false path with
  | .ok (.free directory name) => .ok (t.put (directory ++ [name]) (.link target))
  | .ok _ => .error ⟨"symlink", path, .fileExists⟩
  | .error refusal => .error ⟨"symlink", path, refusal⟩

end Tree

/-! ## Building a tree -/

/-- The tree with an item at a path, where the directories that lead to it are made.  An item that does not
fit is left out. -/
def Tree.addItem (t : Tree) (path : Bytes) (item : Item) : Tree :=
  match item with
  | .directory => (t.makeDirectories path).1
  | .link target =>
    let t := if Path.directory path = [] then t else (t.makeDirectories (Path.directory path)).1
    (t.writeLink path target).toOption.getD t
  | .file content =>
    let t := if Path.directory path = [] then t else (t.makeDirectories (Path.directory path)).1
    (t.writeFile path content).toOption.getD t

/-- A file system with nothing in it but an empty working directory. -/
def Tree.empty (home : List Bytes) : Tree := { ({} : Tree).put home .directory with home }

/-- The tree of a list of items, put down in order from the working directory. -/
def Tree.ofItems (home : List Bytes) (items : List (Bytes × Item)) : Tree :=
  items.foldl (fun t (path, item) => t.addItem path item) (.empty home)

/-! ## Visiting a tree -/

mutual

/-- A node and everything below it, each directory's names in order and directories entered in place.
Paths are given as texts: that of the root as it stands, the others joined from it. -/
def Node.visit (path : Bytes) : Node → List (Bytes × Node)
  | .directory entries => (path, .directory entries) :: visitEntries path entries
  | .file content => [(path, .file content)]
  | .link target => [(path, .link target)]

/-- The entries of a directory and everything below them. -/
def visitEntries (path : Bytes) : List (Bytes × Node) → List (Bytes × Node)
  | [] => []
  | (name, node) :: rest => node.visit (Path.join path name) ++ visitEntries path rest

end

end JvmCoupling
