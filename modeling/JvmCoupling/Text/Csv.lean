import JvmCoupling.Text.Blank
import JvmCoupling.Text.Number

/-! # Comma separated text

Records of fields divided by commas, one record a line.  A field that could be misread stands in quotes.

* `Csv.line` — the line of a record;
* `Csv.readRecord` — the first record of a text.
-/

namespace JvmCoupling.Csv

/-! ## Writing -/

/-- The first character of a field is blank. -/
def startsBlank (field : Bytes) : Bool := ((Text.pieces field).head?.map Text.Piece.isBlank).getD false

/-- A field that could be misread without quotes: one with a separator, quote or line break in it, one that
starts with a blank, and the end-of-data mark. -/
def needsQuotes (field : Bytes) : Bool :=
  field = utf8 "\\."
    || field.any (fun b =>
      b = Bytes.comma || b = Bytes.quote || b = Bytes.carriageReturn || b = Bytes.lineFeed)
    || startsBlank field

/-- A field; inside quotes a quote is doubled. -/
def encode (field : Bytes) : Bytes :=
  if needsQuotes field then
    utf8 "\"" ++ field.flatMap (fun b => if b = Bytes.quote then [b, b] else [b]) ++ utf8 "\""
  else field

/-- The fields of a record, divided by commas. -/
def record (fields : List Bytes) : Bytes := [Bytes.comma].intercalate (fields.map encode)

/-- The line of a record. -/
def line (fields : List Bytes) : Bytes := record fields ++ utf8 "\n"

/-! ## Reading -/

/-- Why a text has no first record. -/
inductive Error where
  /-- There are only empty lines. -/
  | noRecord
  /-- A quote inside a field that does not start with one. -/
  | bareQuote (start line column : Nat)
  /-- A closing quote is missing, or followed by something else than a separator. -/
  | strayQuote (start line column : Nat)
deriving DecidableEq, Repr, Inhabited

/-- A place in a text; `start` is the line on which the record starts. -/
def placeMessage (start line column : Nat) : Bytes :=
  (if start = line then [] else utf8 "record on line " ++ Text.decimal start ++ utf8 "; ")
    ++ utf8 "parse error on line " ++ Text.decimal line ++ utf8 ", column " ++ Text.decimal column ++ utf8 ": "

/-- The wording of an error. -/
def Error.message : Error → Bytes
  | .noRecord => utf8 "EOF"
  | .bareQuote start line column =>
    placeMessage start line column ++ utf8 "bare \" in non-quoted-field"
  | .strayQuote start line column =>
    placeMessage start line column ++ utf8 "extraneous or missing \" in quoted-field"

/-- The first line of a text with its line feed, and the rest; none at the end.  A carriage return in front
of a line feed or of the end is dropped. -/
def nextLine? (text : Bytes) : Option (Bytes × Bytes) :=
  if text = [] then none
  else
    let drop (s : Bytes) : Bytes := if s.getLast? = some Bytes.carriageReturn then s.dropLast else s
    match Bytes.splitAtFirst? Bytes.lineFeed text with
    | some (before, after) => some (drop before ++ [Bytes.lineFeed], after)
    | none => some (drop text, [])

/-- Where a reader is: the rest of the line, the lines after it, how many lines were taken, and the place of
the next byte. -/
structure Position where
  rest : Bytes
  after : Bytes
  taken : Nat
  start : Nat
  line : Nat
  column : Nat
deriving DecidableEq, Repr, Inhabited

/-- Goes on behind so many bytes of the line. -/
def Position.skip (p : Position) (n : Nat) : Position :=
  { p with rest := p.rest.drop n, column := p.column + n }

/-- Goes on to the next line; at the end the place stays. -/
def Position.nextLine (p : Position) : Position :=
  let p := { p with column := p.column + p.rest.length, taken := p.taken + 1 }
  match nextLine? p.after with
  | some ([], after) => { p with rest := [], after }
  | some (line, after) => { p with rest := line, after, line := p.line + 1, column := 1 }
  | none => { p with rest := [] }

/-- Reads the inside of a quoted field, to behind its closing quote and separator.  The last part tells
whether another field follows. -/
def readQuoted (p : Position) (field : Bytes) : Nat → Except Error (Bytes × Position × Bool)
  | 0 => .error .noRecord
  | fuel + 1 =>
    match Bytes.splitAtFirst? Bytes.quote p.rest with
    | some (before, after) =>
      let field := field ++ before
      let p := p.skip (before.length + 1)
      if after.head? = some Bytes.quote then readQuoted (p.skip 1) (field ++ [Bytes.quote]) fuel
      else if after.head? = some Bytes.comma then .ok (field, p.skip 1, true)
      else if after = [] ∨ after = [Bytes.lineFeed] then .ok (field, p, false)
      else .error (.strayQuote p.start p.taken (p.column - 1))
    | none =>
      if p.rest = [] then .error (.strayQuote p.start p.line p.column)
      else readQuoted p.nextLine (field ++ p.rest) fuel

/-- Reads the fields of a record. -/
def readFields (p : Position) : Nat → Except Error (List Bytes)
  | 0 => .error .noRecord
  | fuel + 1 =>
    if p.rest.head? = some Bytes.quote then
      match readQuoted (p.skip 1) [] (p.rest.length + p.after.length + 2) with
      | .error e => .error e
      | .ok (field, _, false) => .ok [field]
      | .ok (field, p, true) => (readFields p fuel).map (field :: ·)
    else
      let (field, isLast) : Bytes × Bool :=
        match Bytes.splitAtFirst? Bytes.comma p.rest with
        | some (before, _) => (before, false)
        | none => (p.rest.filter (· ≠ Bytes.lineFeed), true)
      match Bytes.splitAtFirst? Bytes.quote field with
      | some (before, _) => .error (.bareQuote p.start p.taken (p.column + before.length))
      | none =>
        if isLast then .ok [field] else (readFields (p.skip (field.length + 1)) fuel).map (field :: ·)

/-- Skips empty lines and reads the first record; `taken` lines are in front. -/
def readFrom (taken : Nat) (text : Bytes) : Nat → Except Error (List Bytes)
  | 0 => .error .noRecord
  | fuel + 1 =>
    match nextLine? text with
    | none => .error .noRecord
    | some (line, after) =>
      if line = [] ∨ line = [Bytes.lineFeed] then readFrom (taken + 1) after fuel
      else readFields ⟨line, after, taken + 1, taken + 1, taken + 1, 1⟩ (text.length + 1)

/-- The fields of the first record of a text. -/
def readRecord (text : Bytes) : Except Error (List Bytes) := readFrom 0 text (text.length + 1)

end JvmCoupling.Csv
