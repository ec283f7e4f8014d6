import JvmCoupling.Text.Utf8
import JvmCoupling.Yaml.Print

/-! # Tokens of a YAML text

A text is cut into tokens, which make its structure explicit: where blocks start and end by indentation, and
which scalars are keys.  A scalar turns out to be a key only when a colon follows it, so that its token is
put in front of it afterwards.

* `Spot` — a character with its place in the text;
* `Token` — the tokens;
* `Token.ofText` — the tokens of a text.  Where it breaks the rules they end with `Token.invalid`.
-/

namespace JvmCoupling.Yaml

/-! ## Characters with places -/

/-- A character, its line and column, and how many characters are in front of it. -/
structure Spot where
  char : Char
  line : Nat
  column : Nat
  index : Nat
deriving DecidableEq, Repr, Inhabited

/-- A character that a text may hold. -/
def isAllowed (c : Char) : Bool :=
  let n := c.toNat
  n = 0x09 || n = 0x0D || n = 0x85 || n = 0xFEFF || 0x10000 ≤ n || isPrintable c

/-- The text with one character for every line break; the separators of lines and paragraphs stay. -/
def unifyBreaks : List Char → List Char
  | '\r' :: '\n' :: rest => '\n' :: unifyBreaks rest
  | c :: rest => (if c = '\r' || c.toNat = 0x85 then '\n' else c) :: unifyBreaks rest
  | [] => []

/-- The characters of a text with their places. -/
def spotsFrom (line column index : Nat) : List Char → List Spot
  | [] => []
  | c :: rest =>
    ⟨c, line, column, index⟩ ::
      (if isLineBreak c then spotsFrom (line + 1) 0 (index + 1) rest
      else spotsFrom line (column + 1) (index + 1) rest)

/-- The first character. -/
def peek? (s : List Spot) : Option Char := s.head?.map (·.char)

/-- A character comes first. -/
def startsWith (c : Char) (s : List Spot) : Bool := peek? s = some c

/-- A blank, a line break or the end comes first. -/
def atBoundary (s : List Spot) : Bool := (peek? s).all fun c => isBlank c || isLineBreak c

/-- A mark of three equal characters at the start of a line. -/
def startsMark (c : Char) (s : List Spot) : Bool :=
  (s.head?.map (·.column)) = some 0 && (s.take 3).map (·.char) = [c, c, c] && atBoundary (s.drop 3)

/-- The start or the end of a document is marked here. -/
def startsDocumentMark (s : List Spot) : Bool := startsMark '-' s || startsMark '.' s

/-! ## Tokens -/

/-- A tag: a handle, which stands for the start of its name, and the rest of its name. -/
structure TagName where
  handle : Bytes
  suffix : Bytes
deriving DecidableEq, Repr, Inhabited

/-- The tokens. -/
inductive Token where
  | streamEnd
  | version (major minor : Nat)
  | tagHandle (handle start : Bytes)
  | documentStart
  | documentEnd
  | blockList
  | blockMap
  | blockEnd
  | flowListStart
  | flowListEnd
  | flowMapStart
  | flowMapEnd
  | item
  | separator
  | key
  | value
  | alias (name : Bytes)
  | anchor (name : Bytes)
  | tag (name : TagName)
  | scalar (text : Bytes) (isPlain : Bool)
  /-- The text breaks the rules here. -/
  | invalid
deriving DecidableEq, Repr, Inhabited

/-! ## Scalars -/

/-- Blanks and line breaks between two parts of a scalar.  An escaped line break makes a gap that has none
of its own. -/
structure Gap where
  blanks : List Char := []
  isBroken : Bool := false
  firstBreak : Option Char := none
  moreBreaks : List Char := []
deriving DecidableEq, Repr, Inhabited

namespace Gap

/-- There is nothing between. -/
def isEmpty (g : Gap) : Bool := g.blanks.isEmpty && !g.isBroken

/-- One more blank; at the start of a line blanks do not count. -/
def addBlank (g : Gap) (c : Char) : Gap := if g.isBroken then g else { g with blanks := g.blanks ++ [c] }

/-- One more line break; blanks in front of the first do not count. -/
def addBreak (g : Gap) (c : Char) : Gap :=
  if g.isBroken then { g with moreBreaks := g.moreBreaks ++ [c] }
  else { blanks := [], isBroken := true, firstBreak := some c, moreBreaks := [] }

/-- What the gap contributes to the text: a single line break becomes a space, and of several the first is
dropped. -/
def fold (g : Gap) : List Char :=
  if !g.isBroken then g.blanks
  else if g.firstBreak = some '\n' then (if g.moreBreaks.isEmpty then [' '] else g.moreBreaks)
  else g.firstBreak.toList ++ g.moreBreaks

end Gap

/-- A character that ends a plain scalar, given what follows. -/
def endsPlain (inFlow : Bool) (c : Char) (rest : List Spot) : Bool :=
  (c = ':' && atBoundary rest) || (inFlow && [',', '?', '[', ']', '\x7b', '\x7d'].contains c)

/-- A scalar that has been read, what follows, and whether a line ended in between. -/
structure ScalarRead where
  text : List Char
  rest : List Spot
  afterBreak : Bool := false
deriving Repr, Inhabited

/-- Reads a plain scalar; it may go on on lines that are indented far enough. -/
def readPlain (inFlow : Bool) (indent : Int) (text : List Char) (gap : Gap) :
    List Spot → Option ScalarRead
  | [] => some ⟨text, [], gap.isBroken⟩
  | spot :: rest =>
    let c := spot.char
    if isBlank c then
      if gap.isBroken && c = '\t' && spot.column < indent then none
      else readPlain inFlow indent text (gap.addBlank c) rest
    else if isLineBreak c then readPlain inFlow indent text (gap.addBreak c) rest
    else if !gap.isEmpty
        && ((!inFlow && spot.column < indent) || c = '#' || startsDocumentMark (spot :: rest)) then
      some ⟨text, spot :: rest, gap.isBroken⟩
    else if endsPlain inFlow c rest then some ⟨text, spot :: rest, gap.isBroken⟩
    else readPlain inFlow indent (text ++ gap.fold ++ [c]) {} rest

/-- Reads a scalar in single quotes; two quotes stand for one. -/
def readSingleQuoted (text : List Char) (gap : Gap) (s : List Spot) : Option ScalarRead :=
  match s with
  | [] => none
  | spot :: rest =>
    let c := spot.char
    if isBlank c then readSingleQuoted text (gap.addBlank c) rest
    else if isLineBreak c then readSingleQuoted text (gap.addBreak c) rest
    else if startsDocumentMark (spot :: rest) then none
    else if c = '\'' then
      match rest with
      | next :: after =>
        if next.char = '\'' then readSingleQuoted (text ++ gap.fold ++ ['\'']) {} after
        else some ⟨text ++ gap.fold, rest, false⟩
      | [] => some ⟨text ++ gap.fold, rest, false⟩
    else readSingleQuoted (text ++ gap.fold ++ [c]) {} rest
termination_by s.length

/-- The character that a letter after a backslash stands for. -/
def escapeValue? (c : Char) : Option Nat :=
  match c with
  | '0' => some 0x00
  | 'a' => some 0x07
  | 'b' => some 0x08
  | 't' => some 0x09
  | '\t' => some 0x09
  | 'n' => some 0x0A
  | 'v' => some 0x0B
  | 'f' => some 0x0C
  | 'r' => some 0x0D
  | 'e' => some 0x1B
  | ' ' => some 0x20
  | '"' => some 0x22
  | '\'' => some 0x27
  | '\\' => some 0x5C
  | 'N' => some 0x85
  | '_' => some 0xA0
  | 'L' => some 0x2028
  | 'P' => some 0x2029
  | _ => none

/-- How many hexadecimal digits follow a letter after a backslash. -/
def escapeLength? (c : Char) : Option Nat :=
  match c with
  | 'x' => some 2
  | 'u' => some 4
  | 'U' => some 8
  | _ => none

/-- The value of a hexadecimal digit. -/
def hexValue? (c : Char) : Option Nat :=
  if '0' ≤ c && c ≤ '9' then some (c.toNat - 0x30)
  else if 'a' ≤ c && c ≤ 'f' then some (c.toNat - 0x57)
  else if 'A' ≤ c && c ≤ 'F' then some (c.toNat - 0x37)
  else none

/-- The character with a code of so many hexadecimal digits. -/
def hexChar? (length : Nat) (s : List Spot) : Option Char := do
  let digits ← (s.take length).mapM fun spot => hexValue? spot.char
  if digits.length < length then none
  let n := digits.foldl (fun n d => 16 * n + d) 0
  if (0xD800 ≤ n && n ≤ 0xDFFF) || 0x10FFFF < n then none else some (.ofNat n)

/-- Reads a scalar in double quotes, with its escapes. -/
def readDoubleQuoted (text : List Char) (gap : Gap) (s : List Spot) : Option ScalarRead :=
  match s with
  | [] => none
  | spot :: rest =>
    let c := spot.char
    if isBlank c then readDoubleQuoted text (gap.addBlank c) rest
    else if isLineBreak c then readDoubleQuoted text (gap.addBreak c) rest
    else if startsDocumentMark (spot :: rest) then none
    else if c = '"' then some ⟨text ++ gap.fold, rest, false⟩
    else if c = '\\' then
      match rest with
      | [] => none
      | letter :: after =>
        let text := text ++ gap.fold
        if isLineBreak letter.char then readDoubleQuoted text { isBroken := true } after
        else
          match escapeValue? letter.char, escapeLength? letter.char with
          | some n, _ => readDoubleQuoted (text ++ [.ofNat n]) {} after
          | none, some length =>
            match hexChar? length after with
            | some h => readDoubleQuoted (text ++ [h]) {} (after.drop length)
            | none => none
          | none, none => none
    else readDoubleQuoted (text ++ gap.fold ++ [c]) {} rest
termination_by s.length
decreasing_by all_goals simp only [List.length_cons, List.length_drop]; omega

/-! ## Block scalars -/

/-- What becomes of the line breaks at the end of a block scalar. -/
inductive Chomping where
  | strip
  | clip
  | keep
deriving DecidableEq, Repr, Inhabited

/-- The line breaks that are kept at the end: `pending` is the break after the last line and `breaks` those after it. -/
def Chomping.kept (pending breaks : List Char) : Chomping → List Char
  | .strip => []
  | .clip => pending
  | .keep => pending ++ breaks

/-- The line breaks in front of a line of a block scalar, the widest indentation met, and what follows. -/
structure BlockGap where
  breaks : List Char
  widest : Nat
  rest : List Spot
deriving Repr, Inhabited

/-- Skips indentation and empty lines.  An indentation of zero is not known yet; tabs do not indent. -/
def skipBlockGap (indent : Nat) (breaks : List Char) (widest : Nat) : List Spot → Option BlockGap
  | [] => some ⟨breaks, widest, []⟩
  | spot :: rest =>
    let isInside : Bool := indent = 0 || spot.column < indent
    if isInside && spot.char = ' ' then skipBlockGap indent breaks (max widest (spot.column + 1)) rest
    else if isInside && spot.char = '\t' then none
    else if isLineBreak spot.char then skipBlockGap indent (breaks ++ [spot.char]) widest rest
    else some ⟨breaks, max widest spot.column, spot :: rest⟩

/-- Reads the lines of a block scalar, with `pending` and `breaks` as in `Chomping.kept`.  `afterBlank` tells that the
last line started with a blank; lines that do so are not joined. -/
def readBlockLines (isLiteral : Bool) (indent : Nat) (text pending breaks : List Char) (afterBlank : Bool)
    (rest : List Spot) : Nat → Option (List Char × List Char × List Char × List Spot)
  | 0 => some (text, pending, breaks, rest)
  | fuel + 1 =>
    match rest with
    | [] => some (text, pending, breaks, rest)
    | spot :: _ =>
      if spot.column ≠ indent then some (text, pending, breaks, rest)
      else
        let startsBlank := isBlank spot.char
        let joins := !isLiteral && !afterBlank && !startsBlank && pending = ['\n']
        let text := text ++ (if joins then (if breaks.isEmpty then [' '] else []) else pending) ++ breaks
        let (line, rest) := rest.span fun s => !isLineBreak s.char
        let (pending, rest) : List Char × List Spot :=
          match rest with
          | [] => ([], [])
          | s :: rest => ([s.char], rest)
        match skipBlockGap indent [] 0 rest with
        | none => none
        | some gap =>
          readBlockLines isLiteral indent (text ++ line.map (·.char)) pending gap.breaks startsBlank gap.rest
            fuel

/-- The marks behind the start of a block scalar: how its end is treated and how far it is indented, in
either order. -/
def readBlockMarks (s : List Spot) : Option (Chomping × Nat × List Spot) :=
  let chomping? (s : List Spot) : Option (Chomping × List Spot) :=
    if startsWith '+' s then some (.keep, s.drop 1)
    else if startsWith '-' s then some (.strip, s.drop 1)
    else none
  let digit? (s : List Spot) : Option (Option Nat × List Spot) :=
    match peek? s with
    | some c =>
      if '0' ≤ c && c ≤ '9' then (if c = '0' then none else some (some (c.toNat - 0x30), s.drop 1))
      else some (none, s)
    | none => some (none, s)
  match chomping? s with
  | some (chomping, s) => do
    let (width?, s) ← digit? s
    some (chomping, width?.getD 0, s)
  | none => do
    match ← digit? s with
    | (some width, s) =>
      match chomping? s with
      | some (chomping, s) => some (chomping, width, s)
      | none => some (.clip, width, s)
    | (none, s) => some (.clip, 0, s)

/-- Skips blanks and a comment up to the end of a line, which is taken too. -/
def skipLineEnd (s : List Spot) : Option (List Spot) :=
  let s := s.dropWhile fun spot => isBlank spot.char
  let s := if startsWith '#' s then s.dropWhile fun spot => !isLineBreak spot.char else s
  match s with
  | [] => some []
  | spot :: rest => if isLineBreak spot.char then some rest else none

/-- Reads a block scalar, behind its first mark.  Without a mark for it, the first line that is not empty
gives the indentation. -/
def readBlockScalar (isLiteral : Bool) (indent : Int) (s : List Spot) : Option ScalarRead := do
  let (chomping, width, s) ← readBlockMarks s
  let s ← skipLineEnd s
  let given : Nat := if width = 0 then 0 else (max indent 0).toNat + width
  let gap ← skipBlockGap given [] 0 s
  let indent : Nat := if given = 0 then max gap.widest (max (indent + 1) 1).toNat else given
  let (text, pending, breaks, rest) ←
    readBlockLines isLiteral indent [] [] gap.breaks false gap.rest (gap.rest.length + 1)
  return ⟨text ++ chomping.kept pending breaks, rest, true⟩

/-! ## Names, tags and directives -/

/-- A letter, a digit, an underscore or a dash. -/
def isNameChar (c : Char) : Bool := c.isAlphanum || c = '_' || c = '-'

/-- Reads the name of an anchor. -/
def readName (s : List Spot) : Option (Bytes × List Spot) :=
  let (name, rest) := s.span fun spot => isNameChar spot.char
  if name.isEmpty then none
  else if atBoundary rest || (peek? rest).any fun c => ['?', ':', ',', ']', '\x7d', '%', '@', '\x60'].contains c then
    some (Text.ofChars (name.map (·.char)), rest)
  else none

/-- A character of the name of a tag. -/
def isTagChar (c : Char) : Bool :=
  isNameChar c ||
    [';', '/', '?', ':', '@', '&', '=', '+', '$', ',', '.', '!', '~', '*', '\'', '(', ')', '[', ']', '%', '<',
      '>'].contains c

/-- The parts of a tag that starts with an exclamation mark. -/
def tagOf (name : List Char) : Option TagName :=
  match name with
  | '<' :: rest =>
    if rest.length < 2 || rest.getLast? ≠ some '>' then none
    else some ⟨[], Text.ofChars rest.dropLast⟩
  | _ =>
    match name.span isNameChar with
    | (handle, '!' :: suffix) =>
      if suffix.isEmpty then none
      else some ⟨utf8 "!" ++ Text.ofChars handle ++ utf8 "!", Text.ofChars suffix⟩
    | _ => if name.isEmpty then some ⟨[], utf8 "!"⟩ else some ⟨utf8 "!", Text.ofChars name⟩

/-- Reads a tag, behind its exclamation mark. -/
def readTag (s : List Spot) : Option (TagName × List Spot) := do
  let (name, rest) := s.span fun spot => isTagChar spot.char
  if !atBoundary rest then none
  let tag ← tagOf (name.map (·.char))
  return (tag, rest)

/-- A number of decimal digits. -/
def numberOf? (digits : List Char) : Option Nat :=
  if digits.isEmpty || !digits.all Char.isDigit then none
  else some (digits.foldl (fun n c => 10 * n + (c.toNat - 0x30)) 0)

/-- The parts of a line between blanks, up to a comment. -/
def lineWords (word : List Char) : List Char → List (List Char)
  | [] => if word.isEmpty then [] else [word]
  | c :: rest =>
    if isBlank c then (if word.isEmpty then lineWords [] rest else word :: lineWords [] rest)
    else if c = '#' && word.isEmpty then []
    else lineWords (word ++ [c]) rest

/-- The token of a directive, given its words. -/
def directiveOf (words : List (List Char)) : Option Token :=
  match words with
  | [['Y', 'A', 'M', 'L'], version] => do
    match version.span Char.isDigit with
    | (major, '.' :: minor) => some (.version (← numberOf? major) (← numberOf? minor))
    | _ => none
  | [['T', 'A', 'G'], handle, start] =>
    if handle.head? = some '!' && handle.getLast? = some '!' && (handle.drop 1).dropLast.all isNameChar then
      some (.tagHandle (Text.ofChars handle) (Text.ofChars start))
    else none
  | _ => none

/-- Reads a directive, behind its percent sign, with its line. -/
def readDirective (s : List Spot) : Option (Token × List Spot) := do
  let (line, rest) := s.span fun spot => !isLineBreak spot.char
  let token ← directiveOf (lineWords [] (line.map (·.char)))
  return (token, rest)

/-! ## Structure -/

/-- A place where a key may have started: the position of its token, and whether the indentation demands a
key there. -/
structure KeyMark where
  position : Nat
  line : Nat
  column : Nat
  index : Nat
  isRequired : Bool
deriving DecidableEq, Repr, Inhabited

/-- How far a text has been cut.  `keys` has the possible key of every level of flow collections, the
innermost first. -/
structure Scan where
  rest : List Spot
  flowLevel : Nat := 0
  indent : Int := -1
  indents : List Int := []
  keyAllowed : Bool := true
  keys : List (Option KeyMark) := [none]
  tokens : Array Token := #[]
deriving Repr, Inhabited

/-- The longest key that is recognised without a mark of its own. -/
def maxKeyLength : Nat := 1024

namespace Scan

/-- The column of the next character. -/
def column (s : Scan) : Int := (s.rest.head?.map fun spot => (spot.column : Int)).getD 0

/-- Appends a token. -/
def emit (s : Scan) (token : Token) : Scan := { s with tokens := s.tokens.push token }

/-- Goes on behind so many characters. -/
def skip (s : Scan) (n : Nat) : Scan := { s with rest := s.rest.drop n }

/-- Puts a token at a position. -/
def insert (s : Scan) (position : Nat) (token : Token) : Scan :=
  { s with tokens := (s.tokens.take position).push token ++ s.tokens.drop position }

/-- Skips blanks, comments and line breaks.  Tabs are blanks except where a block could start.  In a block,
a new line may start a key. -/
def skipBlanks (inFlow keyAllowed inComment : Bool) : List Spot → Bool × List Spot
  | [] => (keyAllowed, [])
  | spot :: rest =>
    let c := spot.char
    if isLineBreak c then skipBlanks inFlow (keyAllowed || !inFlow) false rest
    else if inComment then skipBlanks inFlow keyAllowed true rest
    else if c = ' ' || (c = '\t' && (inFlow || !keyAllowed)) || (c.toNat = 0xFEFF && spot.column = 0) then
      skipBlanks inFlow keyAllowed false rest
    else if c = '#' then skipBlanks inFlow keyAllowed true rest
    else (keyAllowed, spot :: rest)

/-- Ends the blocks that are indented further than a column. -/
def unroll (column : Int) (tokens : Array Token) (indent : Int) : List Int → Array Token × Int × List Int
  | [] => (tokens, indent, [])
  | outer :: indents =>
    if column < indent then unroll column (tokens.push .blockEnd) outer indents
    else (tokens, indent, outer :: indents)

/-- Ends blocks by indentation; inside a flow collection indentation does not count. -/
def unrollIndent (s : Scan) (column : Int) : Scan :=
  if 0 < s.flowLevel then s
  else
    let (tokens, indent, indents) := unroll column s.tokens s.indent s.indents
    { s with tokens, indent, indents }

/-- Starts a block at a column if it is indented further than the current one.  Its token goes to a
position. -/
def rollIndent (s : Scan) (column : Int) (position : Nat) (token : Token) : Scan :=
  if 0 < s.flowLevel || column ≤ s.indent then s
  else { s.insert position token with indent := column, indents := s.indent :: s.indents }

/-- Drops the possible key of the current level; a key that the indentation demands must not be missing. -/
def dropKey (s : Scan) : Option Scan :=
  match s.keys with
  | some key :: _ => if key.isRequired then none else some { s with keys := none :: s.keys.drop 1 }
  | _ => some s

/-- Notes that a key may start here. -/
def noteKey (s : Scan) : Option Scan :=
  if !s.keyAllowed then some s
  else do
    let s ← s.dropKey
    match s.rest with
    | [] => some s
    | spot :: _ =>
      let isRequired : Bool := s.flowLevel = 0 && s.indent = spot.column
      some { s with keys := some ⟨s.tokens.size, spot.line, spot.column, spot.index, isRequired⟩ :: s.keys.drop 1 }

/-- The start of a flow collection. -/
def flowStart (s : Scan) (token : Token) : Option Scan := do
  let s ← s.noteKey
  some { (s.emit token).skip 1 with
    flowLevel := s.flowLevel + 1, keys := none :: s.keys, keyAllowed := true }

/-- The end of a flow collection. -/
def flowEnd (s : Scan) (token : Token) : Option Scan := do
  let s ← s.dropKey
  let s := if 0 < s.flowLevel then { s with flowLevel := s.flowLevel - 1, keys := s.keys.drop 1 } else s
  some { (s.emit token).skip 1 with keyAllowed := false }

/-- A comma between the items of a flow collection. -/
def separator (s : Scan) : Option Scan := do
  let s ← s.dropKey
  some { (s.emit .separator).skip 1 with keyAllowed := true }

/-- The mark of a list item. -/
def item (s : Scan) : Option Scan := do
  if s.flowLevel = 0 && !s.keyAllowed then none
  let s := s.rollIndent s.column s.tokens.size .blockList
  let s ← s.dropKey
  some { (s.emit .item).skip 1 with keyAllowed := true }

/-- The mark of a key. -/
def key (s : Scan) : Option Scan := do
  if s.flowLevel = 0 && !s.keyAllowed then none
  let s := s.rollIndent s.column s.tokens.size .blockMap
  let s ← s.dropKey
  some { (s.emit .key).skip 1 with keyAllowed := s.flowLevel = 0 }

/-- What became of the possible key of the current level: it is still on this line and not too long, it was
never there or is no longer possible, or it was demanded. -/
def currentKey (s : Scan) : Option (Option KeyMark) :=
  match s.keys.head?.join, s.rest with
  | some key, spot :: _ =>
    if key.line < spot.line || key.index + maxKeyLength < spot.index then
      if key.isRequired then none else some none
    else some (some key)
  | _, _ => some none

/-- The mark of a value.  If it follows a possible key, that is one, and may be the first of a block. -/
def value (s : Scan) : Option Scan := do
  match ← s.currentKey with
  | some key =>
    let s := (s.insert key.position .key).rollIndent key.column key.position .blockMap
    let s := { s with keys := none :: s.keys.drop 1, keyAllowed := false }
    some ((s.emit .value).skip 1)
  | none =>
    if s.flowLevel = 0 && !s.keyAllowed then none
    let s := s.rollIndent s.column s.tokens.size .blockMap
    some { (s.emit .value).skip 1 with keyAllowed := s.flowLevel = 0, keys := none :: s.keys.drop 1 }

/-- Ends all blocks, at the mark of a document or the end of the text. -/
def endBlocks (s : Scan) : Option Scan := do
  let s ← (s.unrollIndent (-1)).dropKey
  some { s with keyAllowed := false }

/-- A scalar that may be a key. -/
def keyScalar (s : Scan) (isPlain : Bool) (read : Option ScalarRead) : Option Scan := do
  let s ← s.noteKey
  let r ← read
  some { s.emit (.scalar (Text.ofChars r.text) isPlain) with rest := r.rest, keyAllowed := r.afterBreak }

/-- A block scalar. -/
def blockScalar (s : Scan) (isLiteral : Bool) : Option Scan := do
  let s ← s.dropKey
  let r ← readBlockScalar isLiteral s.indent (s.rest.drop 1)
  some { s.emit (.scalar (Text.ofChars r.text) false) with rest := r.rest, keyAllowed := true }

/-- A token with a name. -/
def named (s : Scan) (read : Option (Token × List Spot)) : Option Scan := do
  let s ← s.noteKey
  let (token, rest) ← read
  some { s.emit token with rest, keyAllowed := false }

/-- Takes the next token, given the character it starts with. -/
def token (s : Scan) (c : Char) : Option Scan :=
  let after := s.rest.drop 1
  let inFlow : Bool := 0 < s.flowLevel
  if s.column = 0 && c = '%' then do
    let s ← s.endBlocks
    let (token, rest) ← readDirective after
    some { s.emit token with rest }
  else if startsMark '-' s.rest then do
    let s ← s.endBlocks
    some ((s.emit .documentStart).skip 3)
  else if startsMark '.' s.rest then do
    let s ← s.endBlocks
    some ((s.emit .documentEnd).skip 3)
  else if c = '[' then s.flowStart .flowListStart
  else if c = '\x7b' then s.flowStart .flowMapStart
  else if c = ']' then s.flowEnd .flowListEnd
  else if c = '\x7d' then s.flowEnd .flowMapEnd
  else if c = ',' then s.separator
  else if c = '-' && atBoundary after then s.item
  else if c = '?' && (inFlow || atBoundary after) then s.key
  else if c = ':' && (inFlow || atBoundary after) then s.value
  else if c = '*' then s.named ((readName after).map fun (name, rest) => (.alias name, rest))
  else if c = '&' then s.named ((readName after).map fun (name, rest) => (.anchor name, rest))
  else if c = '!' then s.named ((readTag after).map fun (name, rest) => (.tag name, rest))
  else if c = '|' && !inFlow then s.blockScalar true
  else if c = '>' && !inFlow then s.blockScalar false
  else if c = '\'' then s.keyScalar false (readSingleQuoted [] {} after)
  else if c = '"' then s.keyScalar false (readDoubleQuoted [] {} after)
  else if markIndicators.contains c && (c = '-' || !inFlow)
      || !(markIndicators.contains c || indicators.contains c || c = '\t') then
    s.keyScalar true (readPlain inFlow (s.indent + 1) [] {} s.rest)
  else none

/-- Goes to the next token and ends the blocks that are indented further. -/
def settle (s : Scan) : Scan :=
  let (keyAllowed, rest) := skipBlanks (0 < s.flowLevel) s.keyAllowed false s.rest
  let s := { s with keyAllowed, rest }
  s.unrollIndent s.column

/-- Takes the next token.  The second part is false after the last. -/
def step (s : Scan) : Option (Scan × Bool) := do
  let s := s.settle
  match peek? s.rest with
  | some c => some (← s.token c, true)
  | none =>
    let s ← s.endBlocks
    some (s.emit .streamEnd, false)

/-- Takes tokens up to the last.  Every token but the last takes at least one character. -/
def run (s : Scan) : Nat → List Token
  | 0 => s.tokens.toList ++ [.invalid]
  | fuel + 1 =>
    match s.step with
    | none => s.tokens.toList ++ [.invalid]
    | some (s, true) => s.run fuel
    | some (s, false) => s.tokens.toList

end Scan

/-- A byte order mark at the start of a text is not part of it. -/
def dropByteOrderMark : List Char → List Char
  | c :: rest => if c.toNat = 0xFEFF then rest else c :: rest
  | [] => []

/-- The tokens of a text. -/
def Token.ofText (text : Bytes) : List Token :=
  match Text.chars? text with
  | none => [.invalid]
  | some cs =>
    let cs := dropByteOrderMark cs
    if !cs.all isAllowed then [.invalid]
    else Scan.run { rest := spotsFrom 0 0 0 (unifyBreaks cs) } (cs.length + 2)

end JvmCoupling.Yaml
