import JvmCoupling.Settings.Config

/-! # Commands and their help

The program has one main command and two others.

* `Subcommand` — a command, with its flags;
* `Subcommand.find` — the command that arguments ask for;
* `Subcommand.help` — its help.
-/

namespace JvmCoupling.Command

open JvmCoupling.Settings

/-- The name of the program. -/
def programName : String := "class-coupling-analyzer"

/-- A command. -/
inductive Subcommand where
  | analyze
  | version
  | help
deriving DecidableEq, Repr, Inhabited

namespace Subcommand

/-- The name of a command. -/
def name : Subcommand → String
  | .analyze => programName
  | .version => "version"
  | .help => "help"

/-- The command of a name, the main one apart. -/
def ofName? (name : Bytes) : Option Subcommand :=
  [Subcommand.version, .help].find? fun c => utf8 c.name = name

/-- The flag that asks for help. -/
def helpFlag (c : Subcommand) : Flag :=
  { name := "help", letter := some 0x68, kind := .bool, usage := "help for " ++ c.name }

/-- The flags of a command, by name. -/
def flags (c : Subcommand) : List Flag :=
  match c with
  | .analyze =>
    let (before, after) := knownFlags.span fun flag => flag.name < "help"
    before ++ [c.helpFlag] ++ after
  | _ => [c.helpFlag]

/-! ## Finding the command -/

/-- An argument is a flag that takes the next argument for its value. -/
def takesNext (argument : Bytes) : Bool :=
  if argument.contains Bytes.equals then false
  else
    match argument with
    | 0x2D :: 0x2D :: name => !knownFlags.any fun flag => utf8 flag.name = name && flag.kind = .bool
    | [0x2D, letter] => !knownFlags.any fun flag => flag.letter = some letter && flag.kind = .bool
    | _ => false

/-- The first argument that is neither a flag nor the value of one.  A flag that takes a value ends the
search if at most one argument is left. -/
def candidate? : List Bytes → Option Bytes
  | [] => none
  | argument :: rest =>
    if argument = utf8 "--" then none
    else if takesNext argument then
      match rest with
      | _ :: next :: rest => candidate? (next :: rest)
      | _ => none
    else if argument ≠ [] ∧ argument.head? ≠ some Bytes.dash then some argument
    else candidate? rest

/-- The arguments without the name of a command, where it stands first as an argument of its own. -/
def removeName (name : Bytes) : List Bytes → List Bytes
  | [] => []
  | argument :: rest =>
    if argument = utf8 "--" then argument :: rest
    else if takesNext argument then
      match rest with
      | [] => [argument]
      | value :: rest => argument :: value :: removeName name rest
    else if argument = name then rest
    else argument :: removeName name rest

/-- The command that arguments ask for, and the arguments that are left for it. -/
def find (arguments : List Bytes) : Subcommand × List Bytes :=
  match candidate? arguments with
  | none => (.analyze, arguments)
  | some name =>
    match ofName? name with
    | some c => (c, removeName name arguments)
    | none => (.analyze, arguments)

/-! ## Help -/

/-- What the help calls the value of a flag. -/
def valueName : FlagKind → String
  | .text => " string"
  | .int => " int"
  | .bool => ""
  | .list => " strings"

/-- A flag as the help shows it. -/
def flagSpelling (flag : Flag) : Bytes :=
  (match flag.letter with
    | some letter => utf8 "  -" ++ [letter] ++ utf8 ", --"
    | none => utf8 "      --")
    ++ utf8 flag.name ++ utf8 (valueName flag.kind)

/-- The lines on flags, with what they do in one column. -/
def flagLines (flags : List Flag) : Bytes :=
  let widest := (flags.map fun flag => (flagSpelling flag).length).foldl max 0
  flags.flatMap fun flag =>
    let spelling := flagSpelling flag
    spelling ++ List.replicate (widest - spelling.length + 3) Bytes.space ++ utf8 flag.usage
      ++ (if flag.shownDefault = "" then []
        else utf8 " (default " ++ Text.quoted (utf8 flag.shownDefault) ++ utf8 ")")
      ++ utf8 "\n"

/-- The text in front of the usage. -/
def description : Subcommand → String
  | .analyze =>
    "Reads compiled classes from a class path and reports, for every class\n" ++
    "under the project prefix, which classes it calls into and which classes share\n" ++
    "its superclass/interface hierarchy.\n\nExample:\n" ++
    "  class-coupling-analyzer -c target/classes:lib/* -p com.example\n" ++
    "  class-coupling-analyzer -c app.jar -p com.example -t com.example.Order --format csv,yaml\n"
  | .version => "Print version information\n"
  | .help =>
    "Help provides help for any command in the application.\n" ++
    "Simply type class-coupling-analyzer help [path to command] for full details.\n"

/-- How the command is called. -/
def callLines : Subcommand → String
  | .analyze =>
    "  class-coupling-analyzer [flags]\n  class-coupling-analyzer [command]\n\nAvailable Commands:\n" ++
    "  completion  Generate the autocompletion script for the specified shell\n" ++
    "  help        Help about any command\n  version     Print version information\n"
  | .version => "  class-coupling-analyzer version [flags]\n"
  | .help => "  class-coupling-analyzer help [command] [flags]\n"

/-- What stands below the flags. -/
def closing : Subcommand → String
  | .analyze =>
    "\nUse \"class-coupling-analyzer [command] --help\" for more information about a command.\n"
  | _ => ""

/-- The help of a command. -/
def helpText (c : Subcommand) : Bytes :=
  utf8 c.description ++ utf8 "\nUsage:\n" ++ utf8 c.callLines ++ utf8 "\nFlags:\n" ++ flagLines c.flags
    ++ utf8 c.closing

end Subcommand

end JvmCoupling.Command
