import JvmCoupling.ClassPath.Entry
import JvmCoupling.Storage.Tree
import JvmCoupling.Text.Blank

/-! # Resolving a class path

A class path is a text of fields divided by colons or semicolons.  A field that ends in a star stands for
the archives of a directory.

* `fields` — the trimmed fields that are not blank;
* `expand` — the entries of one field;
* `resolve` — the entries of a class path, each once.
-/

namespace JvmCoupling.ClassPath

/-- Divides the fields of a class path. -/
def isSeparator (b : UInt8) : Bool := b = Bytes.colon || b = Bytes.semicolon

/-- The fields of a class path without blanks around them; blank fields are left out. -/
def fields (classPath : Bytes) : List Bytes :=
  ((Bytes.piecesBy isSeparator classPath).map Text.trim).filter (· ≠ [])

/-- The archives of a directory, in order of their names.  Links count whatever they lead to. -/
def jarsOf (directory : Bytes) (entries : List (Bytes × Node)) : List Bytes :=
  (entries.filter fun (name, node) => !node.isDirectory && isJar name).map fun (name, _) =>
    Path.join directory name

/-- The entries that a field stands for.  A wildcard whose directory cannot be read is kept, so that
loading it reports the problem. -/
def expand (t : Tree) (field : Bytes) : List Bytes :=
  match wildcardDirectory? field with
  | none => [field]
  | some directory =>
    match t.listDirectory directory with
    | .ok entries => jarsOf directory entries
    | .error _ => [field]

/-- The entries of a class path, in order; a repeated entry counts once. -/
def resolve (t : Tree) (classPath : Bytes) : List Bytes :=
  firstSeen ((fields classPath).flatMap (expand t))

end JvmCoupling.ClassPath
