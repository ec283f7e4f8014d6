import JvmCoupling.Number.Integer
import JvmCoupling.Text.Csv
import JvmCoupling.Text.Quoted

/-! # Command line flags

A flag is given by its name after two dashes or by a letter after one.  Letters can be put together, and a
value follows a flag directly, after an equals sign or as the next argument.

* `Flag` — a flag that is known;
* `Flag.parse` — the flags and the other arguments of a command line.
-/

namespace JvmCoupling.Settings

/-- What a flag takes. -/
inductive FlagKind where
  | text
  | int
  | bool
  | list
deriving DecidableEq, Repr, Inhabited

/-- A flag: its name, its letter, what it takes, and what the help says of it. -/
structure Flag where
  name : String
  letter : Option UInt8 := none
  kind : FlagKind := .text
  usage : String := ""
  /-- The value that the help shows as the default. -/
  shownDefault : String := ""
deriving DecidableEq, Repr, Inhabited

/-- The value of a flag. -/
inductive FlagValue where
  | text (s : Bytes)
  | int (n : Int)
  | bool (b : Bool)
  | list (items : List Bytes)
deriving DecidableEq, Repr, Inhabited

/-! ## Failures -/

/-- Why a value does not suit a flag. -/
inductive ValueError where
  | notBool (text : Bytes)
  | notInt (text : Bytes) (e : Number.IntegerError)
  | badList (e : Csv.Error)
deriving DecidableEq, Repr, Inhabited

/-- The wording for a value that does not suit. -/
def ValueError.message : ValueError → Bytes
  | .notBool text => utf8 "strconv.ParseBool: parsing " ++ Text.quoted text ++ utf8 ": invalid syntax"
  | .notInt text e =>
    utf8 "strconv.ParseInt: parsing " ++ Text.quoted text
      ++ utf8 (if e = .outOfRange then ": value out of range" else ": invalid syntax")
  | .badList e => e.message

/-- Why a command line cannot be read. -/
inductive FlagError where
  | badForm (argument : Bytes)
  | unknownName (name : Bytes)
  | unknownLetter (letter : UInt8) (letters : Bytes)
  | missingValue (name : Bytes)
  | missingLetterValue (letter : UInt8) (letters : Bytes)
  | badValue (flag : Flag) (text : Bytes) (e : ValueError)
  | helpRequested
deriving DecidableEq, Repr, Inhabited

/-- A letter in single quotes.  Of a letter that is not ASCII only the first byte of its encoding shows. -/
def quotedLetter (letter : UInt8) : Bytes :=
  let first := (String.utf8EncodeChar (.ofNat letter.toNat)).headD 0
  Text.quotedChar (.ofNat first.toNat)

/-- A flag as messages name it. -/
def Flag.label (flag : Flag) : Bytes :=
  match flag.letter with
  | some letter => utf8 "-" ++ [letter] ++ utf8 ", --" ++ utf8 flag.name
  | none => utf8 "--" ++ utf8 flag.name

/-- The wording of a failure. -/
def FlagError.message : FlagError → Bytes
  | .badForm argument => utf8 "bad flag syntax: " ++ argument
  | .unknownName name => utf8 "unknown flag: --" ++ name
  | .unknownLetter letter letters =>
    utf8 "unknown shorthand flag: " ++ quotedLetter letter ++ utf8 " in -" ++ letters
  | .missingValue name => utf8 "flag needs an argument: --" ++ name
  | .missingLetterValue letter letters =>
    utf8 "flag needs an argument: " ++ quotedLetter letter ++ utf8 " in -" ++ letters
  | .badValue flag text e =>
    utf8 "invalid argument " ++ Text.quoted text ++ utf8 " for " ++ Text.quoted flag.label
      ++ utf8 " flag: " ++ e.message
  | .helpRequested => utf8 "pflag: help requested"

/-! ## Values -/

/-- The truth value that a text stands for. -/
def boolOf? (text : Bytes) : Option Bool :=
  if ["1", "t", "T", "TRUE", "true", "True"].any fun word => utf8 word = text then some true
  else if ["0", "f", "F", "FALSE", "false", "False"].any fun word => utf8 word = text then some false
  else none

/-- The flags that were given, and the other arguments. -/
structure Flags where
  values : List (String × FlagValue) := []
  arguments : List Bytes := []
deriving DecidableEq, Repr, Inhabited

/-- The value of a flag that was given. -/
def Flags.get? (flags : Flags) (name : String) : Option FlagValue := flags.values.lookup name

/-- The items of a list that was given. -/
def Flags.items (flags : Flags) (name : String) : List Bytes :=
  match flags.get? name with
  | some (.list items) => items
  | _ => []

/-- The value of a flag with one more text given for it: the items of lists add up. -/
def Flags.valueOf (flags : Flags) (flag : Flag) (text : Bytes) : Except ValueError FlagValue :=
  match flag.kind with
  | .text => .ok (.text text)
  | .bool =>
    match boolOf? text with
    | some b => .ok (.bool b)
    | none => .error (.notBool text)
  | .int =>
    match Number.parseAnyInt text with
    | .ok n => .ok (.int n)
    | .error e => .error (.notInt text e)
  | .list =>
    if text = [] then .ok (.list (flags.items flag.name))
    else
      match Csv.readRecord text with
      | .ok items => .ok (.list (flags.items flag.name ++ items))
      | .error e => .error (.badList e)

/-- Gives a flag a value. -/
def Flags.set (flags : Flags) (flag : Flag) (text : Bytes) : Except FlagError Flags :=
  match flags.valueOf flag text with
  | .ok value =>
    .ok { flags with values := (flag.name, value) :: flags.values.filter (·.1 ≠ flag.name) }
  | .error e => .error (.badValue flag text e)

/-! ## Arguments -/

/-- The text that a flag without a value stands for, if it may go without one. -/
def Flag.impliedValue? (flag : Flag) : Option Bytes :=
  if flag.kind = .bool then some (utf8 "true") else none

/-- Takes a flag by its name, behind the dashes; the rest of the arguments may give its value. -/
def parseName (known : List Flag) (flags : Flags) (argument : Bytes) (rest : List Bytes) :
    Except FlagError (Flags × List Bytes) :=
  let body := argument.drop 2
  if body = [] ∨ body.head? = some Bytes.dash ∨ body.head? = some Bytes.equals then
    .error (.badForm argument)
  else
    let (name, value?) : Bytes × Option Bytes :=
      match Bytes.splitAtFirst? Bytes.equals body with
      | some (name, value) => (name, some value)
      | none => (body, none)
    match known.find? fun flag => utf8 flag.name = name with
    | none => .error (if name = utf8 "help" then .helpRequested else .unknownName name)
    | some flag =>
      match value?, flag.impliedValue?, rest with
      | some value, _, _ => (flags.set flag value).map fun flags => (flags, rest)
      | none, some value, _ => (flags.set flag value).map fun flags => (flags, rest)
      | none, none, value :: rest => (flags.set flag value).map fun flags => (flags, rest)
      | none, none, [] => .error (.missingValue name)

/-- Letters that are left to test runners. -/
def isForeign (letters : Bytes) : Bool := (utf8 "test.").isPrefixOf letters

/-- Takes flags by their letters; the rest of the arguments may give the value of the last. -/
def parseLetters (known : List Flag) (flags : Flags) (rest : List Bytes) :
    Bytes → Except FlagError (Flags × List Bytes)
  | [] => .ok (flags, rest)
  | letter :: letters =>
    if isForeign (letter :: letters) then .ok (flags, rest)
    else
      match known.find? fun flag => flag.letter = some letter with
      | none =>
        .error (if letter = 0x68 then .helpRequested else .unknownLetter letter (letter :: letters))
      | some flag =>
        if letters.head? = some Bytes.equals ∧ 2 ≤ letters.length then
          (flags.set flag (letters.drop 1)).map fun flags => (flags, rest)
        else
          match flag.impliedValue? with
          | some value =>
            match flags.set flag value with
            | .ok flags => parseLetters known flags rest letters
            | .error e => .error e
          | none =>
            if letters ≠ [] then (flags.set flag letters).map fun flags => (flags, rest)
            else
              match rest with
              | value :: rest => (flags.set flag value).map fun flags => (flags, rest)
              | [] => .error (.missingLetterValue letter (letter :: letters))

/-- Takes arguments in order, for at most so many steps; every step takes at least one. -/
def parseArguments (known : List Flag) (flags : Flags) (arguments : List Bytes) :
    Nat → Except FlagError Flags
  | 0 => .ok flags
  | fuel + 1 =>
    match arguments with
    | [] => .ok flags
    | argument :: rest =>
      let plain := { flags with arguments := flags.arguments ++ [argument] }
      match argument with
      | 0x2D :: 0x2D :: name =>
        if name = [] then .ok { flags with arguments := flags.arguments ++ rest }
        else
          match parseName known flags argument rest with
          | .ok (flags, rest) => parseArguments known flags rest fuel
          | .error e => .error e
      | 0x2D :: letter :: letters =>
        match parseLetters known flags rest (letter :: letters) with
        | .ok (flags, rest) => parseArguments known flags rest fuel
        | .error e => .error e
      | _ => parseArguments known plain rest fuel

/-- The flags and other arguments of a command line.  Two dashes alone end the flags. -/
def Flags.parse (known : List Flag) (arguments : List Bytes) : Except FlagError Flags :=
  parseArguments known {} arguments arguments.length

end JvmCoupling.Settings
