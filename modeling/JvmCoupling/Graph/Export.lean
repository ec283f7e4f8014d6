import JvmCoupling.Graph.Address
import JvmCoupling.Graph.Batch
import JvmCoupling.Log

/-! # Export to a graph database

The export connects to a server and sends it queries in stages.  The first query that the server rejects ends
it.  What an export would do is a list of actions, so that it can be told apart from the server's replies.

* `Query`, `Action` — what is sent and logged;
* `Stage` — a part of the export, with its `actions`;
* `Server` — how a server replies;
* `runStages` — some stages over one connection;
* `exportTo` — the whole export.
-/

namespace JvmCoupling.Graph

/-! ## Queries -/

/-- The rows that a query is sent with. -/
inductive Batch where
  | classes (rows : List ClassRow)
  | ancestors (rows : List ExtendsRow)
  | calls (rows : List CallRow)
  | hierarchy (rows : List HierarchyRow)
deriving DecidableEq, Repr, Inhabited

/-- A query, with rows for those that take them. -/
structure Query where
  text : String
  batch? : Option Batch := none
deriving DecidableEq, Repr, Inhabited

/-- The queries that remove what an earlier export has left. -/
def cleaningQueries : List Query := [
  ⟨"MATCH ()-[r:CALLS_INTO]->() DELETE r", none⟩,
  ⟨"MATCH ()-[r:SAME_HIERARCHY]->() DELETE r", none⟩,
  ⟨"MATCH ()-[r:EXTENDS]->() DELETE r", none⟩,
  ⟨"MATCH (n:JavaClass) DETACH DELETE n", none⟩]

/-- The query that creates the index of class names. -/
def indexQuery : Query :=
  ⟨"CREATE INDEX java_class_name IF NOT EXISTS FOR (n:JavaClass) ON (n.name)", none⟩

/-- The query that creates or updates classes. -/
def classQuery (rows : List ClassRow) : Query :=
  ⟨"UNWIND $batch AS row\n\t\t MERGE (n:JavaClass \x7bname: row.name\x7d)" ++
    "\n\t\t SET n.interface = row.interface, n.methods = row.methods", some (.classes rows)⟩

/-- The query that links classes to their ancestors. -/
def ancestorQuery (rows : List ExtendsRow) : Query :=
  ⟨"UNWIND $batch AS row\n\t\t MATCH (s:JavaClass \x7bname: row.sub\x7d)," ++
    " (p:JavaClass \x7bname: row.super\x7d)\n\t\t MERGE (s)-[:EXTENDS]->(p)", some (.ancestors rows)⟩

/-- The start of the queries that link two classes. -/
def pairText : String :=
  "UNWIND $batch AS row\n\t\t MERGE (a:JavaClass \x7bname: row.from\x7d)" ++
    "\n\t\t MERGE (b:JavaClass \x7bname: row.to\x7d)"

/-- The query that links classes that call each other. -/
def callQuery (rows : List CallRow) : Query :=
  ⟨pairText ++ "\n\t\t MERGE (a)-[r:CALLS_INTO]->(b)\n\t\t SET r.calls = row.calls", some (.calls rows)⟩

/-- The query that links classes of one hierarchy. -/
def hierarchyQuery (rows : List HierarchyRow) : Query :=
  ⟨pairText ++ "\n\t\t MERGE (a)-[:SAME_HIERARCHY]->(b)", some (.hierarchy rows)⟩

/-! ## Stages -/

/-- A step of the export. -/
inductive Action where
  | log (record : Log.Record)
  | send (query : Query)
deriving Repr, Inhabited

/-- A part of the export. -/
inductive Stage where
  | clean
  | indexes
  | classes
  | calls
  | hierarchy
deriving DecidableEq, Repr, Inhabited

/-- What is exported. -/
structure Content where
  classes : Universe := {}
  scope : Scope := {}
  calls : List CallRecord := []
  hierarchy : List HierarchyRecord := []
deriving DecidableEq, Repr, Inhabited

/-- What a stage is doing. -/
def Stage.activity : Stage → String
  | .clean => "cleaning graph"
  | .indexes => "creating indexes"
  | .classes => "loading classes"
  | .calls => "loading call couplings"
  | .hierarchy => "loading hierarchy couplings"

/-- The steps of a stage.  Ancestors are only sent if there are any. -/
def Stage.actions (c : Content) : Stage → List Action
  | .clean =>
    .log ⟨.info, utf8 "Cleaning existing coupling graph", []⟩ :: cleaningQueries.map .send
  | .indexes => [.send indexQuery]
  | .classes =>
    let rows := classRows c.classes c.scope
    let ancestors := extendsRows c.classes c.scope
    [.log ⟨.info, utf8 "Loading classes",
        [Log.countField "classes" rows.length, Log.countField "extends" ancestors.length]⟩,
      .send (classQuery rows)]
      ++ (if ancestors = [] then [] else [.send (ancestorQuery ancestors)])
  | .calls =>
    let rows := callRows c.calls
    [.log ⟨.info, utf8 "Loading call couplings", [Log.countField "edges" rows.length]⟩,
      .send (callQuery rows)]
  | .hierarchy =>
    let rows := hierarchyRows c.hierarchy
    [.log ⟨.info, utf8 "Loading hierarchy couplings", [Log.countField "pairs" rows.length]⟩,
      .send (hierarchyQuery rows)]

/-! ## Servers -/

/-- A server: its word on a new connection, and on each query by its number. -/
structure Server where
  connection : Except Bytes Unit := .ok ()
  reply : Nat → Except Bytes Unit := fun _ => .ok ()

/-- Why an export fails. -/
inductive ExportError where
  | badAddress (e : Address.Error)
  | unreachable (address reason : Bytes)
  | rejected (stage : Stage) (reason : Bytes)
deriving DecidableEq, Repr, Inhabited

/-- The wording of a failure. -/
def ExportError.message : ExportError → Bytes
  | .badAddress e => utf8 "failed to create neo4j driver: " ++ e.message
  | .unreachable address reason =>
    utf8 "failed to reach neo4j at " ++ address ++ utf8 ": " ++ reason
  | .rejected stage reason => utf8 stage.activity ++ utf8 ": " ++ reason

/-- What an export leaves behind: the rejected query is the last of its queries. -/
structure Outcome where
  result : Except ExportError Unit := .ok ()
  log : List Log.Record := []
  queries : List Query := []
deriving Inhabited

/-- Does something more unless there has been a failure; it is told how many queries were sent. -/
def Outcome.andThen (o : Outcome) (next : Nat → Outcome) : Outcome :=
  match o.result with
  | .error _ => o
  | .ok () =>
    let more := next o.queries.length
    ⟨more.result, o.log ++ more.log, o.queries ++ more.queries⟩

/-- Does one step; so many queries were sent before. -/
def perform (server : Server) (stage : Stage) (sent : Nat) : Action → Outcome
  | .log record => { log := [record] }
  | .send query => { result := (server.reply sent).mapError (.rejected stage), queries := [query] }

/-- Does the steps of a stage in order. -/
def performAll (server : Server) (stage : Stage) (sent : Nat) (actions : List Action) : Outcome :=
  actions.foldl (fun o action => o.andThen fun n => perform server stage (sent + n) action) {}

/-- Connects to an address. -/
def connect (server : Server) (address : Bytes) : Outcome :=
  match Address.check address with
  | .error e => { result := .error (.badAddress e) }
  | .ok () => { result := server.connection.mapError (.unreachable address) }

/-- Runs stages over a new connection. -/
def runStages (server : Server) (address : Bytes) (sent : Nat) (c : Content) (stages : List Stage) : Outcome :=
  stages.foldl (fun o stage => o.andThen fun n => performAll server stage (sent + n) (stage.actions c))
    (connect server address)

/-- The stages of the whole export. -/
def exportStages (clean : Bool) : List Stage :=
  (if clean then [.clean] else []) ++ [.indexes, .classes, .calls, .hierarchy]

/-- The whole export. -/
def exportTo (server : Server) (address : Bytes) (sent : Nat) (clean : Bool) (c : Content) : Outcome :=
  (runStages server address sent c (exportStages clean)).andThen fun _ =>
    { log := [⟨.info, utf8 "Coupling graph loaded into Neo4j", [Log.textField "uri" address]⟩] }

end JvmCoupling.Graph
