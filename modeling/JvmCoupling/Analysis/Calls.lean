import JvmCoupling.Analysis.Direction
import JvmCoupling.ClassIndex
import JvmCoupling.Log
import JvmCoupling.Scope
import JvmCoupling.Universe

/-! # Call coupling

Two classes in scope are coupled when a method of one calls a method of the other.  The strength of the
coupling is the number of distinct call edges, and records and their entries stand in the order in which
they were first seen.

* `CallEdge` — a call between two classes, with the methods at both ends;
* `CallRecord` — the classes that one class is coupled to;
* `CallTally` — what is gathered on the way, by class numbers;
* `analyzeCalls` — records and statistics of a universe in a scope.
-/

namespace JvmCoupling

/-- A call from a method of one class to a method of another. -/
structure CallEdge where
  caller : Bytes
  callee : Bytes
  callerMethod : Bytes
  calleeMethod : Bytes
deriving DecidableEq, Repr, Inhabited

/-- A coupled class and the number of call edges to it. -/
structure CoupledClass where
  name : Bytes
  calls : Int
deriving DecidableEq, Repr, Inhabited

/-- The classes that a class is coupled to by calls. -/
structure CallRecord where
  owner : Bytes
  coupled : List CoupledClass
deriving DecidableEq, Repr, Inhabited

/-- The names of the coupled classes, in order. -/
def CallRecord.coupledNames (r : CallRecord) : List Bytes := r.coupled.map (·.name)

/-- Counters of one analysis: classes in scope, distinct edges kept, call sites without a known target,
and classes that take part in an edge. -/
structure CallStats where
  classes : Nat := 0
  edges : Nat := 0
  unresolved : Nat := 0
  coupled : Nat := 0
deriving DecidableEq, Repr, Inhabited

/-- The outcome of a call analysis. -/
structure CallReport where
  records : List CallRecord := []
  stats : CallStats := {}
deriving DecidableEq, Repr, Inhabited

/-! ## Counting -/

/-- A coupled class under its number. -/
structure NumberedClass where
  id : Nat
  entry : CoupledClass
deriving DecidableEq, Repr, Inhabited

/-- The record of a class under its number. -/
structure NumberedRecord where
  id : Nat
  owner : Bytes
  coupled : List NumberedClass
deriving DecidableEq, Repr, Inhabited

/-- The record without the numbers. -/
def NumberedRecord.record (r : NumberedRecord) : CallRecord := ⟨r.owner, r.coupled.map (·.entry)⟩

/-- One more call edge to a class: its entry grows, or a new one is appended. -/
def countCall (id : Nat) (name : Bytes) : List NumberedClass → List NumberedClass
  | [] => [⟨id, name, 1⟩]
  | c :: rest => if c.id = id then ⟨id, c.entry.name, c.entry.calls + 1⟩ :: rest else c :: countCall id name rest

/-- One more call edge from an owner to a class, in a new record if the owner has none. -/
def countPair (ownerId : Nat) (owner : Bytes) (id : Nat) (name : Bytes) : List NumberedRecord → List NumberedRecord
  | [] => [⟨ownerId, owner, countCall id name []⟩]
  | r :: rest =>
    if r.id = ownerId then { r with coupled := countCall id name r.coupled } :: rest
    else r :: countPair ownerId owner id name rest

/-- What has been gathered part of the way through an analysis.  Records and participants are kept by number. -/
structure CallTally where
  seen : List CallEdge := []
  index : ClassIndex := .empty
  records : List NumberedRecord := []
  participants : List Nat := []
  classes : Nat := 0
  unresolved : Nat := 0
deriving DecidableEq, Repr, Inhabited

namespace CallTally

/-- One pair of owner and coupled class, which both take part. -/
def addPair (t : CallTally) (pair : Bytes × Bytes) : CallTally :=
  let (owner, index) := t.index.intern pair.1
  let (other, index) := index.intern pair.2
  { t with
    index
    participants := (t.participants.insert owner).insert other
    records := countPair owner pair.1 other pair.2 t.records }

/-- A call edge; one that was seen before changes nothing. -/
def addEdge (direction : Direction) (t : CallTally) (e : CallEdge) : CallTally :=
  if t.seen.contains e then t
  else (direction.pairs e.caller e.callee).foldl addPair { t with seen := e :: t.seen }

/-- A call site in a method of a class.  Calls within the class and out of the scope are left out. -/
def addSite (scope : Scope) (direction : Direction) (caller signature : Bytes) (t : CallTally)
    (site : CallSite) : CallTally :=
  if !site.isResolved then { t with unresolved := t.unresolved + 1 }
  else if site.owner = caller || !scope.includes site.owner then t
  else if !scope.keeps caller site.owner then t
  else t.addEdge direction ⟨caller, site.owner, signature, site.method⟩

/-- All call sites of a method. -/
def addMethod (scope : Scope) (direction : Direction) (caller : Bytes) (t : CallTally) (m : Method) :
    CallTally :=
  m.calls.foldl (addSite scope direction caller m.signature) t

/-- All methods of a class, if it is in scope. -/
def addClass (scope : Scope) (direction : Direction) (t : CallTally) (c : ClassInfo) : CallTally :=
  if scope.includes c.name then
    c.methods.foldl (addMethod scope direction c.name) { t with classes := t.classes + 1 }
  else t

/-- The report of a finished tally. -/
def report (t : CallTally) : CallReport where
  records := t.records.map NumberedRecord.record
  stats := {
    classes := t.classes
    edges := t.seen.length
    unresolved := t.unresolved
    coupled := t.participants.length }

end CallTally

/-- The call coupling of the classes in scope. -/
def analyzeCalls (u : Universe) (scope : Scope) (direction : Direction) : CallReport :=
  (u.classes.foldl (CallTally.addClass scope direction) {}).report

/-- What is logged after an analysis. -/
def CallReport.logRecord (r : CallReport) (scope : Scope) (direction : Direction) : Log.Record where
  severity := .debug
  message := utf8 "Method call analysis finished"
  fields := [
    Log.textField "target" scope.target,
    Log.textField "direction" (utf8 direction.name),
    Log.countField "classes" r.stats.classes,
    Log.countField "edges" r.stats.edges,
    Log.countField "unresolved" r.stats.unresolved,
    Log.countField "records" r.records.length]

end JvmCoupling
