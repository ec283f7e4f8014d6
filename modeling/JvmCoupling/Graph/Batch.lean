import JvmCoupling.Analysis.Calls
import JvmCoupling.Analysis.Hierarchy

/-! # Rows for a graph database

The export writes classes as nodes and couplings as relationships, in batches of rows.

* `classRows` — the classes in scope;
* `extendsRows` — their direct ancestors in scope;
* `callRows` — one row per coupled class of a call record;
* `hierarchyRows` — one row per unordered pair of a hierarchy record.
-/

namespace JvmCoupling.Graph

/-- A class node. -/
structure ClassRow where
  name : Bytes
  isInterface : Bool
  methods : Nat
deriving DecidableEq, Repr, Inhabited

/-- A class and a direct ancestor of it. -/
structure ExtendsRow where
  sub : Bytes
  super : Bytes
deriving DecidableEq, Repr, Inhabited

/-- A call coupling with its strength. -/
structure CallRow where
  source : Bytes
  target : Bytes
  calls : Int
deriving DecidableEq, Repr, Inhabited

/-- Two classes of one hierarchy, in bytewise order. -/
structure HierarchyRow where
  first : Bytes
  second : Bytes
deriving DecidableEq, Repr, Inhabited

/-- The classes in scope, in universe order. -/
def classesIn (u : Universe) (scope : Scope) : List ClassInfo :=
  u.classes.filter fun c => scope.includes c.name

/-- One node for every class in scope. -/
def classRows (u : Universe) (scope : Scope) : List ClassRow :=
  (classesIn u scope).map fun c => ⟨c.name, c.isInterface, c.methods.length⟩

/-- One row for every direct ancestor that is present and in scope. -/
def extendsRows (u : Universe) (scope : Scope) : List ExtendsRow :=
  (classesIn u scope).flatMap fun c =>
    (c.ancestors.filter fun a => u.contains a && scope.includes a).map fun a => ⟨c.name, a⟩

/-- One row for every entry of every record. -/
def callRows (records : List CallRecord) : List CallRow :=
  records.flatMap fun r => r.coupled.map fun c => ⟨r.owner, c.name, c.calls⟩

/-- The row of two classes, the bytewise smaller one first. -/
def hierarchyRow (a b : Bytes) : HierarchyRow := if b < a then ⟨b, a⟩ else ⟨a, b⟩

/-- One row for every pair of classes that a record mentions, at its first occurrence. -/
def hierarchyRows (records : List HierarchyRecord) : List HierarchyRow :=
  records.foldl (fun rows r =>
    r.coupled.foldl (fun rows other =>
      let row := hierarchyRow r.owner other
      if rows.contains row then rows else rows ++ [row]) rows) []

end JvmCoupling.Graph
