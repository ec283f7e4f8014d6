import JvmCoupling.Text.Blank
import JvmCoupling.Text.Case
import JvmCoupling.Text.Quoted

/-! # Report formats

* `Format.parse` — the format that a text names;
* `Format.parseAll` — a list of formats, each once.
-/

namespace JvmCoupling.Report

/-- A format of report files. -/
inductive Format where
  | csv
  | yaml
  | sqlite
  /-- A name that stands for no format; nothing is written for it. -/
  | other (name : Bytes)
deriving DecidableEq, Repr, Inhabited

namespace Format

/-- The name of a format. -/
def name : Format → Bytes
  | csv => utf8 "csv"
  | yaml => utf8 "yaml"
  | sqlite => utf8 "sqlite"
  | other name => name

/-- The format of a name as it stands. -/
def ofName (name : Bytes) : Format :=
  if name = utf8 "csv" then csv
  else if name = utf8 "yaml" then yaml
  else if name = utf8 "sqlite" then sqlite
  else other name

/-- A text that names no format. -/
structure ParseError where
  text : Bytes
deriving DecidableEq, Repr, Inhabited

/-- The wording of the error. -/
def ParseError.message (e : ParseError) : Bytes :=
  utf8 "unknown report format " ++ Text.quoted e.text ++ utf8 " (want csv, yaml or sqlite)"

/-- The format that a text names, in any letter case and with blanks around it. -/
def parse (text : Bytes) : Except ParseError Format :=
  match ofName (Text.lower (Text.trim text)) with
  | other _ => .error ⟨text⟩
  | format => .ok format

/-- The formats that the texts of a list name, without repetitions.  An empty list means the table
format. -/
def parseAll (texts : List Bytes) : Except ParseError (List Format) :=
  if texts = [] then .ok [csv] else (texts.mapM parse).map firstSeen

end Format

end JvmCoupling.Report
