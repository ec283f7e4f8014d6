import JvmCoupling.Analysis.Calls
import JvmCoupling.Analysis.Hierarchy
import JvmCoupling.ClassPath.Load

/-! # Sessions

A session loads a universe and keeps the results of the last analysis of it.  A step that fails leaves the
session as it was.

* `Session.load` — takes over the universe of a class path;
* `Session.analyze` — runs both analyses.
-/

namespace JvmCoupling

/-- A scope, a universe once there is one, and the results of the last analysis. -/
structure Session where
  scope : Scope := {}
  direction : Direction := .caller
  universe? : Option Universe := none
  calls : CallReport := {}
  hierarchy : HierarchyReport := {}
deriving DecidableEq, Repr, Inhabited

/-- Why a session's step fails. -/
inductive SessionError where
  | load (e : ClassPath.LoadError)
  | notLoaded
  | cancelled
deriving DecidableEq, Repr, Inhabited

/-- The wording of a failure. -/
def SessionError.message : SessionError → Bytes
  | load e => e.message
  | notLoaded => utf8 "class universe not loaded"
  | cancelled => ClassPath.cancelledMessage

/-- What a step leaves behind. -/
structure Session.Outcome where
  session : Session
  result : Except SessionError Unit
  log : List Log.Record
deriving Inhabited

namespace Session

/-- Loads the universe of a class path. -/
def load (s : Session) (t : Tree) (entries : List Bytes) (cancelled : Bool) : Outcome :=
  match ClassPath.load t entries cancelled with
  | (.ok u, log) => ⟨{ s with universe? := some u }, .ok (), log⟩
  | (.error e, log) => ⟨s, .error (.load e), log⟩

/-- What is logged after both analyses. -/
def analysisLog (s : Session) : List Log.Record := [
  s.calls.logRecord s.scope s.direction,
  s.hierarchy.logRecord s.scope,
  ⟨.info, utf8 "Coupling analysis finished", [
    Log.countField "call_records" s.calls.records.length,
    Log.countField "hierarchy_records" s.hierarchy.records.length,
    Log.countField "trees" s.hierarchy.trees.length]⟩]

/-- Runs both analyses of the universe. -/
def analyze (s : Session) (cancelled : Bool) : Outcome :=
  match s.universe? with
  | none => ⟨s, .error .notLoaded, []⟩
  | some u =>
    if cancelled then ⟨s, .error .cancelled, []⟩
    else
      let s := { s with
        calls := analyzeCalls u s.scope s.direction
        hierarchy := analyzeHierarchy u s.scope }
      ⟨s, .ok (), s.analysisLog⟩

end Session

end JvmCoupling
