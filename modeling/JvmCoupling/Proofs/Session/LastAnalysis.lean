import JvmCoupling.Proofs.Analysis.CallStatistics
import JvmCoupling.Proofs.Analysis.HierarchyStatistics
import JvmCoupling.Session
import Mathlib

/-! # The results that a session keeps

A session is used step by step: a universe is set or taken away, the scope changes, class paths are loaded and
analyses are run, and each of the last two may fail.  Whatever the steps were, the results in the session belong
together.  They are those of the last analysis that succeeded, for the universe and the scope of that moment, and
before the first such analysis there are none.

The two analyses run side by side and may be called off while they do.  Then either both results are kept or
neither.

* `Session.perform`, `Session.run` — steps and sequences of steps;
* `Session.snapshots` — what the analyses that succeeded have seen;
* `Session.Pair` — the two analyses under way;
* `Session.run_keeps_lastAnalysis` — the results of every sequence of steps.
-/

namespace JvmCoupling

/-! ## Classes in both statistics -/

/-- Both analyses of a universe count the classes in scope. -/
theorem classes_analyzeCalls_eq (u : Universe) (scope : Scope) (direction : Direction) :
    (analyzeCalls u scope direction).stats.classes = (analyzeHierarchy u scope).stats.classes := by
  rw [stats_analyzeCalls, classes_analyzeHierarchy]

namespace Session

/-! ## Steps -/

/-- What can be done with a session. -/
inductive Action where
  /-- A universe is set, or taken away. -/
  | assign (universe? : Option Universe)
  | rescope (scope : Scope)
  /-- A class path is loaded from what the files are at that time. -/
  | load (t : Tree) (entries : List Bytes) (cancelled : Bool)
  | analyze (cancelled : Bool)

/-- One step, which may fail. -/
def perform (s : Session) : Action → Outcome
  | .assign universe? => ⟨{ s with universe? }, .ok (), []⟩
  | .rescope scope => ⟨{ s with scope }, .ok (), []⟩
  | .load t entries cancelled => s.load t entries cancelled
  | .analyze cancelled => s.analyze cancelled

/-- The session after a sequence of steps, some of which may have failed. -/
def run (s : Session) (actions : List Action) : Session := actions.foldl (fun s action => (s.perform action).session) s

/-- What an analysis looks at. -/
structure Snapshot where
  classes : Universe
  scope : Scope

/-- What a step has looked at, if it is an analysis that succeeds. -/
def snapshot? (s : Session) (action : Action) : Option Snapshot :=
  match action, (s.perform action).result with
  | .analyze _, .ok _ => s.universe?.map fun u => ⟨u, s.scope⟩
  | _, _ => none

/-- What the analyses that succeeded have looked at, in the order of the steps. -/
def snapshots (s : Session) : List Action → List Snapshot
  | [] => []
  | action :: actions => (s.snapshot? action).toList ++ (s.perform action).session.snapshots actions

/-- A load that succeeds sets the universe, and one that fails does nothing. -/
theorem load_cases (s : Session) (t : Tree) (entries : List Bytes) (cancelled : Bool) :
    (∃ u, (ClassPath.load t entries cancelled).1 = .ok u ∧ (s.load t entries cancelled).result = .ok () ∧
      (s.load t entries cancelled).session = { s with universe? := some u }) ∨
    (∃ e, (ClassPath.load t entries cancelled).1 = .error e ∧ (s.load t entries cancelled).result = .error (.load e) ∧
      (s.load t entries cancelled).session = s) := by
  unfold load
  obtain ⟨result, log⟩ := ClassPath.load t entries cancelled
  cases result with
  | ok u => exact .inl ⟨u, rfl, rfl, rfl⟩
  | error e => exact .inr ⟨e, rfl, rfl, rfl⟩

/-- An analysis succeeds if there is a universe and it is not called off.  It sets both results, and one that fails
does nothing. -/
theorem analyze_cases (s : Session) (cancelled : Bool) :
    (∃ u, s.universe? = some u ∧ cancelled = false ∧ (s.analyze cancelled).result = .ok () ∧
      (s.analyze cancelled).session =
        { s with calls := analyzeCalls u s.scope s.direction, hierarchy := analyzeHierarchy u s.scope }) ∨
    (∃ e, (s.universe? = none ∨ cancelled = true) ∧ (s.analyze cancelled).result = .error e ∧
      (s.analyze cancelled).session = s) := by
  unfold analyze
  cases loaded : s.universe? with
  | none => exact .inr ⟨.notLoaded, .inl rfl, rfl, rfl⟩
  | some u =>
    cases cancelled with
    | false => exact .inl ⟨u, rfl, rfl, rfl, rfl⟩
    | true => exact .inr ⟨.cancelled, .inr rfl, rfl, rfl⟩

/-- What a step can do: set the universe or the scope, set both results, or fail and do nothing. -/
theorem perform_cases (s : Session) (action : Action) :
    (s.snapshot? action = none ∧ (s.perform action).result = .ok () ∧
      ∃ scope universe?, (s.perform action).session = { s with scope, universe? }) ∨
    (∃ u, s.snapshot? action = some ⟨u, s.scope⟩ ∧ (s.perform action).result = .ok () ∧
      (s.perform action).session =
        { s with calls := analyzeCalls u s.scope s.direction, hierarchy := analyzeHierarchy u s.scope }) ∨
    (s.snapshot? action = none ∧ ∃ e, (s.perform action).result = .error e ∧ (s.perform action).session = s) := by
  cases action with
  | assign universe? => exact .inl ⟨rfl, rfl, s.scope, universe?, rfl⟩
  | rescope scope => exact .inl ⟨rfl, rfl, scope, s.universe?, rfl⟩
  | load t entries cancelled =>
    rcases s.load_cases t entries cancelled with ⟨u, -, succeeds, session⟩ | ⟨e, -, fails, session⟩
    · exact .inl ⟨rfl, succeeds, s.scope, some u, session⟩
    · exact .inr (.inr ⟨rfl, .load e, fails, session⟩)
  | analyze cancelled =>
    rcases s.analyze_cases cancelled with ⟨u, loaded, -, succeeds, session⟩ | ⟨e, -, fails, session⟩
    · exact .inr (.inl ⟨u, by simp [snapshot?, perform, succeeds, loaded], succeeds, session⟩)
    · exact .inr (.inr ⟨by simp [snapshot?, perform, fails], e, fails, session⟩)

theorem session_eq_of_error {s : Session} {action : Action} {e : SessionError}
    (fails : (s.perform action).result = .error e) : (s.perform action).session = s := by
  rcases s.perform_cases action with ⟨-, succeeds, -⟩ | ⟨u, -, succeeds, -⟩ | ⟨-, e', -, unchanged⟩
  · simp [succeeds] at fails
  · simp [succeeds] at fails
  · exact unchanged

/-! ## Sequences of steps -/

/-- The results are those of analyses of the snapshot. -/
def Reflects (s : Session) (snapshot : Snapshot) : Prop :=
  s.calls = analyzeCalls snapshot.classes snapshot.scope s.direction ∧
    s.hierarchy = analyzeHierarchy snapshot.classes snapshot.scope

/-- A step takes a snapshot and keeps its results, or it takes none and leaves the results alone. -/
theorem results_perform (s : Session) (action : Action) :
    (s.perform action).session.direction = s.direction ∧
    match s.snapshot? action with
    | none => (s.perform action).session.calls = s.calls ∧ (s.perform action).session.hierarchy = s.hierarchy
    | some snapshot => (s.perform action).session.Reflects snapshot := by
  rcases s.perform_cases action with
    ⟨none, -, scope, universe?, session⟩ | ⟨u, some, -, session⟩ | ⟨none, e, -, session⟩
  · rw [none, session]
    exact ⟨rfl, rfl, rfl⟩
  · rw [some, session]
    exact ⟨rfl, rfl, rfl⟩
  · rw [none, session]
    exact ⟨rfl, rfl, rfl⟩

/-- After any sequence of steps the results are those of the last snapshot, or the ones from before. -/
theorem results_run (s : Session) (actions : List Action) :
    (s.run actions).direction = s.direction ∧
    match (s.snapshots actions).getLast? with
    | none => (s.run actions).calls = s.calls ∧ (s.run actions).hierarchy = s.hierarchy
    | some snapshot => (s.run actions).Reflects snapshot := by
  induction actions generalizing s with
  | nil => exact ⟨rfl, rfl, rfl⟩
  | cons action actions ih =>
    obtain ⟨direction, first⟩ := s.results_perform action
    obtain ⟨direction', later⟩ := ih (s.perform action).session
    have run : s.run (action :: actions) = (s.perform action).session.run actions := rfl
    rw [run, snapshots, List.getLast?_append]
    refine ⟨direction'.trans direction, ?_⟩
    cases last : ((s.perform action).session.snapshots actions).getLast? with
    | some snapshot =>
      rw [last] at later
      exact later
    | none =>
      -- no later analysis has succeeded, so this step decides
      rw [last] at later
      cases taken : s.snapshot? action with
      | none =>
        rw [taken] at first
        exact ⟨later.1.trans first.1, later.2.trans first.2⟩
      | some snapshot =>
        rw [taken] at first
        obtain ⟨calls, hierarchy⟩ := first
        refine ⟨later.1.trans ?_, later.2.trans hierarchy⟩
        rw [calls, direction']
        rfl

/-! ## Two analyses side by side -/

/-- How far one analysis has come.  It looks once whether it was called off, before it starts. -/
inductive Progress (ρ : Type) where
  | waiting
  | running
  | done (report : ρ)
  | calledOff

/-- What an analysis with this report can do next. -/
inductive Progress.Next {ρ : Type} (report : ρ) (cancelled : Bool) : Progress ρ → Progress ρ → Prop where
  | start : cancelled = false → Next report cancelled .waiting .running
  | stop : cancelled = true → Next report cancelled .waiting .calledOff
  | finish : Next report cancelled .running (.done report)

/-- The two analyses under way. -/
structure Pair where
  cancelled : Bool
  calls : Progress CallReport
  hierarchy : Progress HierarchyReport

namespace Pair

/-- What can happen next.  The analyses may be called off at any time. -/
inductive Step (s : Session) (u : Universe) : Pair → Pair → Prop where
  | cancel (p : Pair) : Step s u p { p with cancelled := true }
  | calls (p : Pair) (next : Progress CallReport) :
      Progress.Next (analyzeCalls u s.scope s.direction) p.cancelled p.calls next → Step s u p { p with calls := next }
  | hierarchy (p : Pair) (next : Progress HierarchyReport) :
      Progress.Next (analyzeHierarchy u s.scope) p.cancelled p.hierarchy next → Step s u p { p with hierarchy := next }

/-- A schedule leads to this point. -/
def Reached (s : Session) (u : Universe) (cancelled : Bool) : Pair → Prop :=
  Relation.ReflTransGen (Step s u) ⟨cancelled, .waiting, .waiting⟩

/-- Once both analyses have ended, their results are kept unless one of them was called off. -/
def outcome? (s : Session) (p : Pair) : Option (Session × Except SessionError Unit) :=
  match p.calls, p.hierarchy with
  | .done calls, .done hierarchy => some ({ s with calls, hierarchy }, .ok ())
  | .calledOff, .done _ | .done _, .calledOff | .calledOff, .calledOff => some (s, .error .cancelled)
  | _, _ => none

/-- What is known of one analysis: its report is right, it was not called off without reason, and it never got past
its start if it was called off from the beginning. -/
structure Sound {ρ : Type} (report : ρ) (atStart cancelled : Bool) (progress : Progress ρ) : Prop where
  done : ∀ r, progress = .done r → r = report ∧ atStart = false
  running : progress = .running → atStart = false
  calledOff : progress = .calledOff → cancelled = true

theorem Sound.next {ρ : Type} {report : ρ} {atStart cancelled : Bool} {progress next : Progress ρ}
    (sound : Sound report atStart cancelled progress) (early : atStart = true → cancelled = true)
    (step : Progress.Next report cancelled progress next) : Sound report atStart cancelled next := by
  cases step with
  | start live =>
    have fresh : atStart = false := Bool.eq_false_iff.2 fun stopped => by simp [early stopped] at live
    exact ⟨by simp, fun _ => fresh, by simp⟩
  | stop stopped => exact ⟨by simp, by simp, fun _ => stopped⟩
  | finish => exact ⟨fun r same => ⟨(Progress.done.inj same).symm, sound.running rfl⟩, by simp, by simp⟩

theorem Sound.cancel {ρ : Type} {report : ρ} {atStart cancelled : Bool} {progress : Progress ρ}
    (sound : Sound report atStart cancelled progress) : Sound report atStart true progress :=
  ⟨sound.done, sound.running, fun _ => rfl⟩

/-- What every schedule preserves. -/
structure Consistent (s : Session) (u : Universe) (atStart : Bool) (p : Pair) : Prop where
  early : atStart = true → p.cancelled = true
  calls : Sound (analyzeCalls u s.scope s.direction) atStart p.cancelled p.calls
  hierarchy : Sound (analyzeHierarchy u s.scope) atStart p.cancelled p.hierarchy

variable {s : Session} {u : Universe} {atStart : Bool} {p p' : Pair}

theorem Consistent.step (consistent : Consistent s u atStart p) (step : Step s u p p') : Consistent s u atStart p' := by
  cases step with
  | cancel => exact ⟨fun _ => rfl, consistent.calls.cancel, consistent.hierarchy.cancel⟩
  | calls next step => exact ⟨consistent.early, consistent.calls.next consistent.early step, consistent.hierarchy⟩
  | hierarchy next step => exact ⟨consistent.early, consistent.calls, consistent.hierarchy.next consistent.early step⟩

theorem Reached.consistent (reached : Reached s u atStart p) : Consistent s u atStart p := by
  induction reached with
  | refl => exact ⟨id, ⟨by simp, by simp, by simp⟩, by simp, by simp, by simp⟩
  | tail _ last ih => exact ih.step last

/-- Whatever the schedule of the two analyses, they end as `analyze` does, called off or not.  They end called off if
they were so from the beginning, and with their results if they never were. -/
theorem Reached.outcome_eq (loaded : s.universe? = some u) (reached : Reached s u atStart p)
    {outcome : Session × Except SessionError Unit} (ends : p.outcome? s = some outcome) :
    ∃ cancelled, outcome = ((s.analyze cancelled).session, (s.analyze cancelled).result) ∧
      (atStart = true → cancelled = true) ∧ (p.cancelled = false → cancelled = false) := by
  obtain ⟨-, calls, hierarchy⟩ := reached.consistent
  have stopped (off : p.cancelled = true) (same : some (s, .error .cancelled) = some outcome) :
      ∃ cancelled, outcome = ((s.analyze cancelled).session, (s.analyze cancelled).result) ∧
        (atStart = true → cancelled = true) ∧ (p.cancelled = false → cancelled = false) := by
    refine ⟨true, ?_, fun _ => rfl, by simp [off]⟩
    simp [analyze, loaded, ← Option.some.inj same]
  unfold outcome? at ends
  split at ends
  · next r r' callsDone hierarchyDone =>
    obtain ⟨rfl, fresh⟩ := calls.done r callsDone
    obtain ⟨rfl, -⟩ := hierarchy.done r' hierarchyDone
    refine ⟨false, ?_, by simp [fresh], fun _ => rfl⟩
    simp [analyze, loaded, ← Option.some.inj ends]
  · next off _ => exact stopped (calls.calledOff off) ends
  · next _ off => exact stopped (hierarchy.calledOff off) ends
  · next off _ => exact stopped (calls.calledOff off) ends
  · cases ends

end Pair

/-! ## The last analysis -/

theorem load_session (s : Session) (t : Tree) (entries : List Bytes) (cancelled : Bool) :
    (s.load t entries cancelled).session =
      { s with universe? := (ClassPath.load t entries cancelled).1.toOption.or s.universe? } := by
  rcases s.load_cases t entries cancelled with ⟨u, loads, -, session⟩ | ⟨e, fails, -, session⟩
  · rw [session, loads]
    rfl
  · rw [session, fails]
    rfl

theorem analyze_eq_ok_iff (s : Session) (cancelled : Bool) :
    (s.analyze cancelled).result = .ok () ↔ (∃ u, s.universe? = some u) ∧ cancelled = false := by
  rcases s.analyze_cases cancelled with ⟨u, loaded, live, succeeds, -⟩ | ⟨e, refused, fails, -⟩
  · exact iff_of_true succeeds ⟨⟨u, loaded⟩, live⟩
  · refine iff_of_false (by simp [fails]) fun ⟨⟨u, loaded⟩, live⟩ => ?_
    rcases refused with absent | off
    · simp [absent] at loaded
    · simp [off] at live

/-- However a new session is used, its two results are those of the last analysis that succeeded, for one universe
and one scope, or both are empty.  Both count the same classes.  A step that fails leaves the whole session alone,
loading a class path changes the universe only, and an analysis succeeds whenever there is a universe and nobody
calls it off.  Two analyses side by side end like one step, whatever their schedule. -/
theorem run_keeps_lastAnalysis (scope : Scope) (direction : Direction) (actions : List Action) :
    let start : Session := { scope, direction }
    let s := start.run actions
    (match (start.snapshots actions).getLast? with
      | none => s.calls = {} ∧ s.hierarchy = {}
      | some snapshot =>
        s.calls = analyzeCalls snapshot.classes snapshot.scope direction ∧
          s.hierarchy = analyzeHierarchy snapshot.classes snapshot.scope) ∧
    s.calls.stats.classes = s.hierarchy.stats.classes ∧
    (∀ action e, (s.perform action).result = .error e → (s.perform action).session = s) ∧
    (∀ t entries cancelled, (s.load t entries cancelled).session =
      { s with universe? := (ClassPath.load t entries cancelled).1.toOption.or s.universe? }) ∧
    (∀ cancelled, (s.analyze cancelled).result = .ok () ↔ (∃ u, s.universe? = some u) ∧ cancelled = false) ∧
    (∀ u, s.universe? = some u → ∀ atStart p, Pair.Reached s u atStart p → ∀ outcome, p.outcome? s = some outcome →
      ∃ cancelled, outcome = ((s.analyze cancelled).session, (s.analyze cancelled).result) ∧
        (atStart = true → cancelled = true) ∧ (p.cancelled = false → cancelled = false)) := by
  intro start s
  obtain ⟨sameDirection, results⟩ := start.results_run actions
  refine ⟨?_, ?_, fun _ _ => session_eq_of_error, s.load_session, s.analyze_eq_ok_iff,
    fun u loaded atStart p reached outcome ends => reached.outcome_eq loaded ends⟩
  · cases last : (start.snapshots actions).getLast? with
    | none =>
      rw [last] at results
      exact results
    | some snapshot =>
      rw [last] at results
      obtain ⟨calls, hierarchy⟩ := results
      exact ⟨by rw [calls, sameDirection], hierarchy⟩
  · cases last : (start.snapshots actions).getLast? with
    | none =>
      rw [last] at results
      rw [results.1, results.2]
    | some snapshot =>
      rw [last] at results
      rw [results.1, results.2]
      exact classes_analyzeCalls_eq _ _ _

/-- A class that calls another one. -/
def callingClasses : Universe := .ofList [some ⟨[0x41], [], [], false, [⟨[], [], [⟨[0x42], []⟩]⟩]⟩,
  some ⟨[0x42], [], [], false, []⟩]

/-- One analysis succeeds, and then a load without entries, an analysis without a universe and one that is called off
fail. -/
def failingActions : List Action := [.assign (some callingClasses), .analyze false, .rescope { target := [0x42] },
  .load default [] false, .assign none, .analyze false, .assign (some default), .analyze true]

/-- Three steps have failed since the analysis, whose results are kept.  Then the analyses are called off when one
of them has started, and the results are kept again. -/
theorem run_keeps_lastAnalysis_failingActions :
    let s := run {} failingActions
    let p : Pair := ⟨true, .calledOff, .done (analyzeHierarchy default s.scope)⟩
    s.calls = analyzeCalls callingClasses {} .caller ∧ s.hierarchy = analyzeHierarchy callingClasses {} ∧
      s.calls.records.length = 1 ∧ s.scope = { target := [0x42] } ∧ (s.perform (.analyze true)).session = s ∧
      Pair.Reached s default false p ∧
      ∃ cancelled, (s, .error .cancelled) = ((s.analyze cancelled).session, (s.analyze cancelled).result) := by
  intro s p
  obtain ⟨results, -, fails, -, -, schedules⟩ := run_keeps_lastAnalysis {} .caller failingActions
  have calls : s.calls = analyzeCalls callingClasses {} .caller := results.1
  have reached : Pair.Reached s default false p :=
    .trans (.single (.hierarchy _ _ (.start rfl))) <| .trans (.single (.cancel _)) <|
      .trans (.single (.calls _ _ (.stop rfl))) (.single (.hierarchy _ _ .finish))
  obtain ⟨cancelled, outcome, -⟩ := schedules default rfl false p reached (s, .error .cancelled) rfl
  refine ⟨calls, results.2, ?_, rfl, fails _ .cancelled rfl, reached, cancelled, outcome⟩
  rw [calls]
  decide

end Session

end JvmCoupling
