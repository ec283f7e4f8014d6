import JvmCoupling.Text.Base64
import JvmCoupling.Text.Number
import JvmCoupling.Text.Utf8
import JvmCoupling.Yaml.Scalar

/-! # Writing YAML

A document is written character by character and encoded at the end.

* `Style`, `chooseStyle` — the ways to write a text, and the plainest that is allowed for one.  A literal block is
  allowed for every text of several printable lines, also if it starts with a blank or a line break; such a block does
  not hold its text;
* `writeText` — a text in that style;
* `Block`, `renderDocument` — nested lists and records, and a document of them.
-/

namespace JvmCoupling.Yaml

/-! ## Characters -/

/-- A character that ends a line. -/
def isLineBreak (c : Char) : Bool :=
  let n := c.toNat
  n = 0x0A || n = 0x0D || n = 0x85 || n = 0x2028 || n = 0x2029

/-- A character that may stand unescaped: of the basic plane, and neither a control nor the byte order
mark. -/
def isPrintable (c : Char) : Bool :=
  let n := c.toNat
  n = 0x0A || (0x20 ≤ n && n ≤ 0x7E) || (0xA0 ≤ n && n ≤ 0xD7FF)
    || (0xE000 ≤ n && n ≤ 0xFFFD && n ≠ 0xFEFF)

/-- A space or tab. -/
def isBlank (c : Char) : Bool := c = ' ' || c = '\t'

/-! ## Styles -/

/-- The ways to write a text. -/
inductive Style where
  | plain
  | singleQuoted
  | doubleQuoted
  | literal
deriving DecidableEq, Repr, Inhabited

/-- Two neighbours of which the first and the second have given properties. -/
def hasPair (p q : Char → Bool) : List Char → Bool
  | a :: b :: rest => (p a && q b) || hasPair p q (b :: rest)
  | _ => false

/-- A space stands in front of a line break. -/
def hasSpaceBreak (cs : List Char) : Bool := hasPair (· = ' ') isLineBreak cs

/-- A literal block can hold the text: no line ends in a space, and only tabs are not printable. -/
def literalAllowed (cs : List Char) : Bool :=
  cs.getLast? ≠ some ' ' && !hasSpaceBreak cs && cs.all fun c => isPrintable c || c = '\t'

/-- Single quotes can hold the text: there are no escapes in them, and spaces at a line break would be
lost. -/
def singleQuotedAllowed (cs : List Char) : Bool :=
  !hasSpaceBreak cs && !hasPair isLineBreak (· = ' ') cs && cs.all isPrintable

/-- The characters that begin something else than a plain scalar. -/
def indicators : List Char :=
  ['#', ',', '[', ']', '\x7b', '\x7d', '&', '*', '!', '|', '>', '\'', '"', '%', '@', '\x60']

/-- The characters that do so in front of a blank. -/
def markIndicators : List Char := ['?', ':', '-']

/-- A first character that would begin something else than a plain scalar, given what follows. -/
def isIndicator (c : Char) (next? : Option Char) : Bool :=
  indicators.contains c || (markIndicators.contains c && (next?.map isBlank).getD true)

/-- A colon in front of a blank or at the end. -/
def hasKeyMark : List Char → Bool
  | [] => false
  | [c] => c = ':'
  | c :: d :: rest => (c = ':' && isBlank d) || hasKeyMark (d :: rest)

/-- The text can stand without quotes. -/
def plainAllowed (cs : List Char) : Bool :=
  match cs with
  | [] => true
  | c :: rest =>
    singleQuotedAllowed cs && !cs.any isLineBreak && c ≠ ' ' && cs.getLast? ≠ some ' '
      && !isIndicator c rest.head? && !hasKeyMark rest && !hasPair isBlank (· = '#') cs
      && cs.take 3 ≠ ['-', '-', '-'] && cs.take 3 ≠ ['.', '.', '.']

/-- A plain scalar of this text would be read as something else, by this or an older version of the
format. -/
def isAmbiguous (text : Bytes) : Bool :=
  Scalar.resolve text ≠ .text text || isBase60 text || isOldBool text

/-- The plainest style that is allowed for a text: a literal block for several lines, double quotes for what would be
taken for a number or the like, else no quotes, single or double ones. -/
def chooseStyle (text : Bytes) (cs : List Char) : Style :=
  if cs.contains '\n' then
    if literalAllowed cs then .literal else .doubleQuoted
  else if isAmbiguous text then .doubleQuoted
  else if plainAllowed cs then .plain
  else if singleQuotedAllowed cs then .singleQuoted
  else .doubleQuoted

/-! ## Scalars -/

/-- So many spaces. -/
def spaces (n : Nat) : List Char := List.replicate n ' '

/-- Bytes that are characters of their own. -/
def asciiChars (s : Bytes) : List Char := s.map fun b => .ofNat b.toNat

/-- The letters that stand for characters behind a backslash. -/
def escapeLetters : List (Nat × Char) := [
  (0x00, '0'), (0x07, 'a'), (0x08, 'b'), (0x09, 't'), (0x0A, 'n'), (0x0B, 'v'), (0x0C, 'f'), (0x0D, 'r'), (0x1B, 'e'),
  (0x22, '"'), (0x5C, '\\'), (0x85, 'N'), (0x2028, 'L'), (0x2029, 'P')]

/-- The code of a character behind a backslash, in as many hexadecimal digits as it needs. -/
def escapeCode (n : Nat) : List Char :=
  if n ≤ 0xFF then 'x' :: asciiChars (Text.hexUpper 2 n)
  else if n ≤ 0xFFFF then 'u' :: asciiChars (Text.hexUpper 4 n)
  else 'U' :: asciiChars (Text.hexUpper 8 n)

/-- A character in double quotes. -/
def escaped (c : Char) : List Char :=
  if isPrintable c && !isLineBreak c && c ≠ '"' && c ≠ '\\' then [c]
  else
    match escapeLetters.lookup c.toNat with
    | some letter => ['\\', letter]
    | none => '\\' :: escapeCode c.toNat

/-- Text between single quotes: a quote is doubled, and a line that begins inside is indented. -/
def singleQuotedBody (indent : Nat) (afterBreak : Bool) : List Char → List Char
  | [] => []
  | c :: rest =>
    if isLineBreak c then c :: singleQuotedBody indent true rest
    else
      (if afterBreak then spaces indent else []) ++ (if c = '\'' then ['\''] else [])
        ++ c :: singleQuotedBody indent false rest

/-- What is written of a scalar, and whether it ends its last line itself. -/
structure Written where
  text : List Char
  isClosed : Bool := false
deriving DecidableEq, Repr, Inhabited

/-- The lines of a literal block.  `lineOpen` tells that the current line has something on it, and
`afterBreak` that the next character is the first of its line. -/
def literalBody (indent : Nat) (lineOpen afterBreak : Bool) : List Char → Written
  | [] => ⟨[], !lineOpen⟩
  | c :: rest =>
    if isLineBreak c then
      let w := literalBody indent false true rest
      { w with text := c :: w.text }
    else
      let w := literalBody indent true false rest
      let start := if afterBreak then (if lineOpen then ['\n'] else []) ++ spaces indent else []
      { w with text := start ++ c :: w.text }

/-- The width of one level. -/
def indentWidth : Nat := 4

/-- What becomes of line breaks at the end of a literal block: they are dropped if there are none to keep, and kept
if there are several. -/
def literalEnd (cs : List Char) : List Char :=
  match cs.reverse with
  | [] => ['-']
  | c :: rest =>
    if !isLineBreak c then ['-']
    else if (rest.head?.map isLineBreak).getD true then ['+']
    else []

/-- The marks of a literal block: its indentation if the text starts with a space or line break, and what
becomes of line breaks at the end. -/
def literalHeader (cs : List Char) : List Char :=
  let starts := (cs.head?.map fun c => c = ' ' || isLineBreak c).getD false
  '|' :: (if starts then asciiChars (Text.decimal indentWidth) else []) ++ literalEnd cs

/-- A literal block. -/
def writeLiteral (indent : Nat) (cs : List Char) : Written :=
  let w := literalBody indent true true cs
  { w with text := literalHeader cs ++ w.text }

/-- The length of lines of base 64. -/
def binaryLineLength : Nat := 70

/-- A text that is not well-formed, in base 64: on one line, or in a literal block of lines. -/
def writeBinary (indent : Nat) (text : Bytes) : Written :=
  let encoded := Text.base64 text
  let body : Written :=
    if encoded.length < binaryLineLength then ⟨asciiChars encoded, false⟩
    else writeLiteral indent (asciiChars (Text.cutLines binaryLineLength encoded.length encoded))
  { body with text := "!!binary ".toList ++ body.text }

/-- A text in the plainest style.  `indent` is that of lines after the first. -/
def writeText (indent : Nat) (text : Bytes) : Written :=
  match Text.chars? text with
  | none => writeBinary indent text
  | some cs =>
    match chooseStyle text cs with
    | .plain => ⟨cs, false⟩
    | .singleQuoted => ⟨'\'' :: singleQuotedBody indent false cs ++ ['\''], false⟩
    | .doubleQuoted => ⟨'"' :: cs.flatMap escaped ++ ['"'], false⟩
    | .literal => writeLiteral indent cs

/-- The line of a scalar, with its end. -/
def Written.line (w : Written) : List Char := if w.isClosed then w.text else w.text ++ ['\n']

/-! ## Blocks -/

/-- Nested lists and records. -/
inductive Block where
  | text (s : Bytes)
  | int (n : Int)
  | list (items : List Block)
  | record (fields : List (String × Block))
deriving Repr, Inhabited

/-- The indentation of what is nested in a record. -/
def nestedIndent (indent : Nat) : Nat := indentWidth * ((indent + indentWidth) / indentWidth)

/-- The width of the mark of a list item. -/
def markWidth : Nat := 2

mutual

/-- A value behind a key of a record. -/
def Block.renderValue (indent : Nat) : Block → List Char
  | .text s => ' ' :: (writeText (nestedIndent indent) s).line
  | .int n => ' ' :: asciiChars (Text.decimalInt n) ++ ['\n']
  | .list [] => " []\n".toList
  | .list (item :: items) => '\n' :: renderItems (nestedIndent indent) (item :: items)
  | .record fields => '\n' :: renderFields (nestedIndent indent) (spaces (nestedIndent indent)) fields

/-- The items of a list. -/
def renderItems (indent : Nat) : List Block → List Char
  | [] => []
  | item :: items => spaces indent ++ '-' :: item.renderItem indent ++ renderItems indent items

/-- A value behind the mark of a list item. -/
def Block.renderItem (indent : Nat) : Block → List Char
  | .text s => ' ' :: (writeText (indent + markWidth) s).line
  | .int n => ' ' :: asciiChars (Text.decimalInt n) ++ ['\n']
  | .list [] => " []\n".toList
  | .list (item :: items) =>
    ' ' :: '-' :: item.renderItem (indent + markWidth) ++ renderItems (indent + markWidth) items
  | .record fields => renderFields (indent + markWidth) [' '] fields

/-- The fields of a record; `start` stands in front of the first. -/
def renderFields (indent : Nat) (start : List Char) : List (String × Block) → List Char
  | [] => []
  | (key, value) :: fields =>
    start ++ key.toList ++ ':' :: value.renderValue indent ++ renderFields indent (spaces indent) fields

end

/-- A document that holds a record. -/
def renderDocument (fields : List (String × Block)) : Bytes := Text.ofChars (renderFields 0 [] fields)

end JvmCoupling.Yaml
