import JvmCoupling.Bytes

/-! # Paths

Paths are byte strings whose elements are divided by slashes.  The operations here are lexical: they do
not look at any file.

* `Path.clean` — the shortest equivalent path;
* `Path.join` — a name below a directory, cleaned;
* `Path.base`, `Path.extension` — the last element and what follows its last dot.
-/

namespace JvmCoupling.Path

/-- The element that stands for the directory itself. -/
def here : Bytes := [Bytes.dot]

/-- The element that stands for the parent directory. -/
def parent : Bytes := [Bytes.dot, Bytes.dot]

/-- The elements of a path; repeated and trailing slashes make none. -/
def elements (path : Bytes) : List Bytes := Bytes.fieldsBy (· = Bytes.slash) path

/-- A path that starts at the root. -/
def isAbsolute (path : Bytes) : Bool := path.head? = some Bytes.slash

/-- A path that can only name a directory. -/
def endsInSlash (path : Bytes) : Bool := path.getLast? = some Bytes.slash

/-- The elements put together again. -/
def ofElements (elements : List Bytes) : Bytes := [Bytes.slash].intercalate elements

/-- Appends an element to a cleaned path, given in reverse.  A step to the parent takes the last element
back, if it is a proper one; at the root it is dropped. -/
def pushElement (rooted : Bool) (done : List Bytes) (element : Bytes) : List Bytes :=
  if element = here then done
  else if element = parent then
    match done with
    | [] => if rooted then [] else [parent]
    | last :: rest => if last = parent then parent :: done else rest
  else element :: done

/-- The shortest path that means the same, if no element is a link. -/
def clean (path : Bytes) : Bytes :=
  let rooted := isAbsolute path
  let body := ofElements ((elements path).foldl (pushElement rooted) []).reverse
  if rooted then Bytes.slash :: body else if body = [] then here else body

/-- A name below a directory. -/
def join (directory name : Bytes) : Bytes :=
  if directory = [] then (if name = [] then [] else clean name)
  else if name = [] then clean directory
  else clean (directory ++ Bytes.slash :: name)

/-- The last element; a dot for an empty path and a slash for a path of slashes. -/
def base (path : Bytes) : Bytes :=
  if path = [] then here
  else
    match (elements path).getLast? with
    | some last => last
    | none => [Bytes.slash]

/-- The last dot of the last element and what follows it. -/
def extension (path : Bytes) : Bytes :=
  let name := Bytes.afterLast Bytes.slash path
  if name.contains Bytes.dot then Bytes.dot :: Bytes.afterLast Bytes.dot name else []

/-- The text in front of the last element, without the slash between; empty if there is none. -/
def directory (path : Bytes) : Bytes :=
  let trimmed := (path.reverse.dropWhile (· = Bytes.slash)).reverse
  ((trimmed.reverse.dropWhile (· ≠ Bytes.slash)).drop 1).reverse

end JvmCoupling.Path
