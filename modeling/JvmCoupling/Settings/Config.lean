import JvmCoupling.Analysis.Direction
import JvmCoupling.Report.Format
import JvmCoupling.Settings.Value
import JvmCoupling.Storage.Tree
import JvmCoupling.Text.Case

/-! # Configuration

The settings of one run, from the command line, the environment, a file and defaults, in this order of
precedence.

* `Key` — a setting that is known;
* `Sources.find?` — its value;
* `Config` — all settings;
* `Config.load` — the configuration of a run.
-/

namespace JvmCoupling.Settings

open JvmCoupling.Yaml

/-! ## Flags -/

/-- The folder that reports go to by default. -/
def defaultFolder : String := "generated_results"

/-- The address of the graph database by default. -/
def defaultAddress : String := "bolt://localhost:7687"

/-- The user of the graph database by default. -/
def defaultUser : String := "neo4j"

/-- The flags of the command line, by name. -/
def knownFlags : List Flag := [
  { name := "clean", kind := .bool, usage := "Clean existing coupling graph before loading" },
  { name := "config", usage := "Config file (default ./coupling.yaml if present)" },
  { name := "direction", usage := "Call coupling direction: caller, callee or both",
    shownDefault := Direction.caller.name },
  { name := "format", kind := .list, usage := "Report formats: csv, yaml, sqlite (default csv)" },
  { name := "neo4j-pass", usage := "Neo4j password; enables the graph export" },
  { name := "neo4j-uri", usage := "Neo4j bolt URI", shownDefault := defaultAddress },
  { name := "neo4j-user", usage := "Neo4j username", shownDefault := defaultUser },
  { name := "output_folder", letter := some 0x6F, usage := "Folder for the generated reports",
    shownDefault := defaultFolder },
  { name := "project_cp", letter := some 0x63, usage := "Project class path (directories, jars, dir/*)" },
  { name := "project_prefix", letter := some 0x70, usage := "Package prefix of the classes to analyze" },
  { name := "target_class", letter := some 0x74,
    usage := "Restrict the analysis to couplings of this class" },
  { name := "verbose", letter := some 0x76, kind := .bool, usage := "Debug logging" },
  { name := "workers", kind := .int,
    usage := "Class path entries read in parallel (default: number of CPUs)" }]

/-! ## Keys -/

/-- A setting: its name, the group it belongs to, the flag that sets it, and its default. -/
structure Key where
  group : Option String := none
  name : String
  flag : String
  default? : Option Bytes := none
deriving DecidableEq, Repr, Inhabited

/-- A setting with the name of its flag. -/
def Key.plain (name : String) (default? : Option Bytes) : Key := ⟨none, name, name, default?⟩

/-- The group of settings of the graph database. -/
def graphGroup : String := "neo4j"

/-- A setting of the graph database. -/
def Key.graph (name flag : String) (default? : Option Bytes) : Key := ⟨some graphGroup, name, flag, default?⟩

namespace Key

/-- Where classes are loaded from. -/
def classPath : Key := .plain "project_cp" none

/-- The start of the names of the classes to analyse. -/
def packagePrefix : Key := .plain "project_prefix" none

/-- The class that the analysis is narrowed to. -/
def target : Key := .plain "target_class" none

/-- Where reports go. -/
def folder : Key := .plain "output_folder" (some (utf8 defaultFolder))

/-- The direction of calls. -/
def direction : Key := .plain "direction" (some (utf8 Direction.caller.name))

/-- The formats of reports. -/
def formats : Key := .plain "format" none

/-- How many entries are read at a time. -/
def workers : Key := .plain "workers" none

/-- Whether details are logged. -/
def verbose : Key := .plain "verbose" none

/-- The address of the graph database. -/
def graphAddress : Key := .graph "uri" "neo4j-uri" (some (utf8 defaultAddress))

/-- The user of the graph database. -/
def graphUser : Key := .graph "user" "neo4j-user" (some (utf8 defaultUser))

/-- The password for the graph database. -/
def graphPassword : Key := .graph "password" "neo4j-pass" none

/-- Whether an earlier graph is removed. -/
def graphClean : Key := .graph "clean" "clean" none

/-- All settings. -/
def all : List Key := [
  classPath, packagePrefix, target, folder, direction, formats, workers, verbose, graphAddress, graphUser,
  graphPassword, graphClean]

end Key

/-- Where settings come from: flags that were given, variables, and the entries of a file. -/
structure Sources where
  flags : Flags := {}
  environment : List (Bytes × Bytes) := []
  file : List (Bytes × Value) := []
deriving Repr, Inhabited

/-- The start of the names of variables. -/
def variablePrefix : Bytes := utf8 "COUPLING_"

/-- The variable of a name.  One that is empty counts as unset. -/
def Sources.variableNamed (s : Sources) (name : Bytes) : Option Bytes :=
  (s.environment.lookup (variablePrefix ++ Text.asciiUpper name)).filter (· ≠ [])

/-- The entry of a key in any letter case.  One that is null counts as unset. -/
def valueAt (entries : List (Bytes × Value)) (key : Bytes) : Option Value :=
  let found : Option (Bytes × Value) := entries.reverse.find? fun (name, _) => Text.lower name = key
  match found.map Prod.snd with
  | some (.scalar .null) => none
  | other => other

/-- The name of the variable for a key, without its start. -/
def Key.variable (k : Key) : Bytes :=
  match k.group with
  | some group => utf8 group ++ utf8 "_" ++ utf8 k.name
  | none => utf8 k.name

/-- The variables that settings can come from, the one for the whole group included. -/
def variableNames : List Bytes :=
  (utf8 graphGroup :: Key.all.map Key.variable).map fun name => variablePrefix ++ Text.asciiUpper name

/-- The value of a key in a file: under its full name, or else in the map of its group. -/
def Key.inFile? (k : Key) (file : List (Bytes × Value)) : Option Value :=
  match k.group with
  | none => valueAt file (utf8 k.name)
  | some group =>
    (valueAt file (utf8 group ++ utf8 "." ++ utf8 k.name)).orElse fun _ =>
      match valueAt file (utf8 group) with
      | some (.map entries) => valueAt entries (utf8 k.name)
      | _ => none

/-- A variable named for the whole group hides what comes after the variables. -/
def Key.hiddenByVariable (k : Key) (s : Sources) : Bool :=
  k.group.any fun group => (s.variableNamed (utf8 group)).isSome

/-- A group that is no map in the file hides the defaults of its settings. -/
def Key.hiddenByFile (k : Key) (file : List (Bytes × Value)) : Bool :=
  k.group.any fun group =>
    match valueAt file (utf8 group) with
    | none | some (.map _) => false
    | some _ => true

/-- The value of a setting: from its flag, its variable, the file, or its default. -/
def Sources.find? (s : Sources) (k : Key) : Option Value :=
  match s.flags.get? k.flag, s.variableNamed k.variable with
  | some value, _ => some (flagValue value)
  | none, some text => some (textValue text)
  | none, none =>
    if k.hiddenByVariable s then none
    else
      match k.inFile? s.file with
      | some value => some value
      | none => if k.hiddenByFile s.file then none else k.default?.map textValue

/-! ## Configurations -/

/-- How to reach the graph database.  Without a password nothing is exported. -/
structure GraphConfig where
  uri : Bytes := []
  user : Bytes := []
  password : Bytes := []
  clean : Bool := false
deriving DecidableEq, Repr, Inhabited

/-- The graph is exported. -/
def GraphConfig.isEnabled (g : GraphConfig) : Bool := g.password ≠ []

/-- The settings of one run. -/
structure Config where
  classPath : Bytes
  packagePrefix : Bytes
  target : Bytes
  folder : Bytes
  direction : Direction
  formats : List Report.Format
  workers : Int
  verbose : Bool
  graph : GraphConfig
deriving DecidableEq, Repr, Inhabited

/-- The run is narrowed to one class. -/
def Config.hasTarget (c : Config) : Bool := c.target ≠ []

/-- Why there is no configuration. -/
inductive ConfigError where
  /-- The file cannot be read. -/
  | file (e : PathError)
  /-- The file breaks the rules of its format, or holds no map. -/
  | malformedFile
  | missing (key : String)
  | direction (e : Direction.ParseError)
  | format (e : Report.Format.ParseError)
deriving DecidableEq, Repr, Inhabited

/-- The wording of a failure. -/
def ConfigError.message : ConfigError → Bytes
  | .file e => utf8 "reading config file: " ++ e.message
  | .malformedFile => utf8 "reading config file"
  | .missing key => utf8 "missing required setting: " ++ utf8 key
  | .direction e => e.message
  | .format e => e.message

/-! ## Files -/

/-- The name of configuration files. -/
def fileStem : String := "coupling"

/-- The extensions that are tried, in order. -/
def fileExtensions : List String :=
  ["json", "toml", "yaml", "yml", "properties", "props", "prop", "hcl", "tfvars", "dotenv", "env", "ini"]

/-- The names that are tried in the working directory, in order. -/
def fileCandidates : List Bytes :=
  fileExtensions.map (fun e => utf8 fileStem ++ utf8 "." ++ utf8 e) ++ [utf8 fileStem]

/-- A file, not a directory, is at a path. -/
def isFileAt (t : Tree) (path : Bytes) : Bool :=
  match t.stat path with
  | .ok node => !node.isDirectory
  | .error _ => false

/-- The file to read: the one that is asked for, or the first that is there. -/
def configPath? (t : Tree) (requested : Bytes) : Option Bytes :=
  if requested ≠ [] then some requested else fileCandidates.find? (isFileAt t)

/-- The entries of the configuration file; without a file there are none. -/
def readConfigFile (t : Tree) (requested : Bytes) : Except ConfigError (List (Bytes × Value)) :=
  match configPath? t requested with
  | none => .ok []
  | some path =>
    match t.readFile path with
    | .error e => .error (.file e)
    | .ok content =>
      match Value.parseMap? content.toBytes with
      | some entries => .ok entries
      | none => .error .malformedFile

/-! ## Loading -/

/-- The path that the command line asks for. -/
def Flags.configPath (flags : Flags) : Bytes :=
  match flags.get? "config" with
  | some (.text path) => path
  | _ => []

/-- The settings of the graph database. -/
def Sources.graphConfig (s : Sources) : GraphConfig where
  uri := asText (s.find? .graphAddress)
  user := asText (s.find? .graphUser)
  password := asText (s.find? .graphPassword)
  clean := asBool (s.find? .graphClean)

/-- The configuration that the sources give.  The class path is looked at first, then the prefix, the
direction and the formats. -/
def Sources.config (s : Sources) : Except ConfigError Config := do
  let classPath := Text.trim (asText (s.find? .classPath))
  if classPath = [] then throw (.missing Key.classPath.name)
  if (s.find? .packagePrefix).isNone then throw (.missing Key.packagePrefix.name)
  let folder := asText (s.find? .folder)
  let direction ← (Direction.parse (asText (s.find? .direction))).mapError .direction
  let formats ← (Report.Format.parseAll (asTexts (s.find? .formats))).mapError .format
  return {
    classPath
    packagePrefix := asText (s.find? .packagePrefix)
    target := Text.trim (asText (s.find? .target))
    folder := if folder = [] then utf8 defaultFolder else folder
    direction
    formats
    workers := asInt (s.find? .workers)
    verbose := asBool (s.find? .verbose)
    graph := s.graphConfig }

/-- The configuration of a run in a working directory. -/
def Config.load (t : Tree) (environment : List (Bytes × Bytes)) (flags : Flags) : Except ConfigError Config := do
  let file ← readConfigFile t flags.configPath
  Sources.config { flags, environment, file }

end JvmCoupling.Settings
