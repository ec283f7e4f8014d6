import JvmCoupling.Text.Case
import JvmCoupling.Text.Quoted

/-! # Addresses of graph databases

An address starts with a scheme and a colon.  Only the schemes of the graph database's own protocols can be
used.

* `splitScheme` — takes the scheme off an address;
* `Address.check` — whether it can be connected to.
-/

namespace JvmCoupling.Graph.Address

/-- Why an address cannot be used. -/
inductive Error where
  | controlCharacter (address : Bytes)
  | missingScheme (address : Bytes)
  | colonInPath (address : Bytes)
  | badPort (address port : Bytes)
  | unsupportedScheme (scheme : Bytes)
deriving DecidableEq, Repr, Inhabited

/-- The wording for an address that breaks the rules of addresses. -/
def parseMessage (address reason : Bytes) : Bytes :=
  utf8 "parse " ++ Text.quoted address ++ utf8 ": " ++ reason

/-- The wording of an error. -/
def Error.message : Error → Bytes
  | .controlCharacter address => parseMessage address (utf8 "net/url: invalid control character in URL")
  | .missingScheme address => parseMessage address (utf8 "missing protocol scheme")
  | .colonInPath address =>
    parseMessage address (utf8 "first path segment in URL cannot contain colon")
  | .badPort address port =>
    parseMessage address (utf8 "invalid port " ++ Text.quoted port ++ utf8 " after host")
  | .unsupportedScheme scheme => utf8 "URI scheme " ++ scheme ++ utf8 " is not supported"

/-- A byte that may start a scheme. -/
def isLetter (b : UInt8) : Bool := (0x41 ≤ b && b ≤ 0x5A) || (0x61 ≤ b && b ≤ 0x7A)

/-- A byte that may stand in a scheme. -/
def isSchemeByte (b : UInt8) : Bool :=
  isLetter b || Bytes.isDigit b || b = 0x2B || b = Bytes.dash || b = Bytes.dot

/-- Takes the scheme, in lower case, off an address; without one it is empty. -/
def splitScheme (address : Bytes) : Bytes × Bytes :=
  match address.span isSchemeByte with
  | (scheme, 0x3A :: rest) =>
    if scheme.head?.any isLetter then (Text.asciiLower scheme, rest) else ([], address)
  | _ => ([], address)

/-- The part in front of the first such byte. -/
def before (b : UInt8) (s : Bytes) : Bytes := s.takeWhile (· ≠ b)

/-- A port that is not a number, with its colon. -/
def badPort? (authority : Bytes) : Option Bytes :=
  let host := Bytes.afterLast 0x40 authority
  if host.head? = some 0x5B ∨ !host.contains Bytes.colon then none
  else
    let port := Bytes.afterLast Bytes.colon host
    if port.all Bytes.isDigit then none else some (Bytes.colon :: port)

/-- The schemes that can be used. -/
def supportedSchemes : List String :=
  ["bolt", "bolt+unix", "bolt+s", "bolt+ssc", "neo4j", "neo4j+s", "neo4j+ssc"]

/-- An address can be connected to: it follows the rules of addresses, and its scheme can be used. -/
def check (address : Bytes) : Except Error Unit := do
  let whole := before 0x23 address
  if whole.any fun b => b < 0x20 || b = 0x7F then throw (.controlCharacter whole)
  if whole.head? = some Bytes.colon then throw (.missingScheme whole)
  let (scheme, rest) := splitScheme whole
  let rest := before 0x3F rest
  if rest.head? ≠ some Bytes.slash ∧ scheme = [] ∧ (before Bytes.slash rest).contains Bytes.colon then
    throw (.colonInPath whole)
  if (utf8 "//").isPrefixOf rest ∧ (scheme ≠ [] ∨ !(utf8 "///").isPrefixOf rest) then
    if let some port := badPort? (before Bytes.slash (rest.drop 2)) then throw (.badPort whole port)
  if !supportedSchemes.any fun s => utf8 s = scheme then throw (.unsupportedScheme scheme)

end JvmCoupling.Graph.Address
