import JvmCoupling.ClassPath.Resolve
import JvmCoupling.Command.Help
import JvmCoupling.Command.Summary
import JvmCoupling.Graph.Export
import JvmCoupling.Report.Save

/-! # Running the program

A run works in a directory, with an environment, a graph database and the arguments of the command line.

* `Outcome` — what a run prints, logs and leaves behind;
* `analysis` — an analysis with given settings;
* `run` — the program.
-/

namespace JvmCoupling.Command

open JvmCoupling.Settings

/-- Why a run fails. -/
inductive RunError where
  | flags (e : FlagError)
  | unknownCommand (name : Bytes)
  | config (e : ConfigError)
  | load (e : SessionError)
  | analysis (e : SessionError)
  | save (e : Report.SaveError)
  | graph (e : Graph.ExportError)
deriving Repr, Inhabited

/-- The wording of a failure. -/
def RunError.message : RunError → Bytes
  | .flags e => e.message
  | .unknownCommand name =>
    utf8 "unknown command " ++ Text.quoted name ++ utf8 " for " ++ Text.quoted (utf8 programName)
  | .config e => e.message
  | .load e => e.message
  | .analysis e => utf8 "analysis failed: " ++ e.message
  | .save e => e.message
  | .graph e => e.message

/-- What a run prints, logs and leaves behind. -/
structure Outcome where
  tree : Tree
  result : Except RunError Unit := .ok ()
  printed : Bytes := []
  level : Int := Log.Severity.info.level
  log : List Log.Record := []
  queries : List Graph.Query := []
deriving Inhabited

/-- The error output: the log, and the failure if there is one. -/
def Outcome.errorText (o : Outcome) : Bytes :=
  Log.text (some o.level) o.log ++
    match o.result with
    | .ok () => []
    | .error e => utf8 "Error: " ++ e.message ++ utf8 "\n"

/-- Goes on with what has happened so far, unless it failed. -/
def Outcome.andThen (o : Outcome) (next : Outcome → Outcome) : Outcome :=
  match o.result with
  | .ok () => next o
  | .error _ => o

/-- Logs more, and takes over a result. -/
def Outcome.extend (o : Outcome) (result : Except RunError Unit) (log : List Log.Record) : Outcome :=
  { o with result, log := o.log ++ log }

/-- Saves a report. -/
def Outcome.save (c : Config) (report : Report) (o : Outcome) : Outcome :=
  let saved := Report.save o.tree c.formats c.folder report
  { o.extend (saved.result.mapError .save) saved.log with tree := saved.tree }

/-- Exports the graph, if the settings ask for it. -/
def Outcome.exportGraph (server : Graph.Server) (c : Config) (s : Session) (o : Outcome) : Outcome :=
  if c.graph.isEnabled then
    let exported := Graph.exportTo server c.graph.uri o.queries.length c.graph.clean {
      classes := s.universe?.getD {}
      scope := s.scope
      calls := s.calls.records
      hierarchy := s.hierarchy.records }
    { o.extend (exported.result.mapError .graph) exported.log with queries := o.queries ++ exported.queries }
  else o

/-- An analysis: loads the class path, analyses it, saves both reports and exports the graph.  The first
failure ends it. -/
def analysis (t : Tree) (server : Graph.Server) (c : Config) : Outcome :=
  let entries := ClassPath.resolve t c.classPath
  let start : Outcome := {
    tree := t
    level := if c.verbose then Log.Severity.debug.level else Log.Severity.info.level
    log := [⟨.info, utf8 "Resolved class path", [
      Log.countField "entries" entries.length, Log.textField "prefix" c.packagePrefix,
      Log.textField "target" c.target]⟩] }
  let session : Session := { scope := ⟨c.packagePrefix, c.target⟩, direction := c.direction }
  let loaded := session.load t entries false
  let analysed := loaded.session.analyze false
  let s := analysed.session
  (start.extend (loaded.result.mapError .load) loaded.log).andThen fun o =>
  (o.extend (analysed.result.mapError .analysis) analysed.log).andThen fun o =>
  (o.save c (.calls s.calls.records)).andThen fun o =>
  (o.save c (.hierarchy s.hierarchy.records)).andThen fun o =>
  (o.exportGraph server c s).andThen fun o => { o with printed := summary c s }

/-- The version of the program. -/
def versionName : String := "dev"

/-- Runs a command whose flags are read. -/
def Subcommand.run (t : Tree) (environment : List (Bytes × Bytes)) (server : Graph.Server) (flags : Flags) :
    Subcommand → Outcome
  | .version => { tree := t, printed := utf8 programName ++ utf8 " " ++ utf8 versionName ++ utf8 "\n" }
  | .help => { tree := t, printed := (Subcommand.find flags.arguments).1.helpText }
  | .analyze =>
    match flags.arguments with
    | name :: _ => { tree := t, result := .error (.unknownCommand name) }
    | [] =>
      match Config.load t environment flags with
      | .error e => { tree := t, result := .error (.config e) }
      | .ok c => analysis t server c

/-- The program. -/
def run (t : Tree) (environment : List (Bytes × Bytes)) (server : Graph.Server) (arguments : List Bytes) :
    Outcome :=
  let (command, rest) := Subcommand.find arguments
  match Flags.parse command.flags rest with
  | .error e => { tree := t, result := .error (.flags e) }
  | .ok flags =>
    if flags.get? "help" = some (.bool true) then { tree := t, printed := command.helpText }
    else command.run t environment server flags

end JvmCoupling.Command
