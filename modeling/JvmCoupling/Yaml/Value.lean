import JvmCoupling.Text.Base64
import JvmCoupling.Yaml.Node

/-! # Values in YAML

The meaning of a document: scalars resolved, aliases replaced and merged maps put in.

* `Value` — a scalar, a list or a map;
* `Value.ofNode?` — the value of a node;
* `Value.parseMap?` — the entries of a document that holds a map, or nothing.
-/

namespace JvmCoupling.Yaml

/-- A value; the keys of maps are texts. -/
inductive Value where
  | scalar (s : Scalar)
  | list (items : List Value)
  | map (entries : List (Bytes × Value))
deriving Repr, Inhabited

/-- The start of the names of standard tags. -/
def standardTag : Bytes := utf8 "tag:yaml.org,2002:"

/-- A number as one with a fraction. -/
def toFloat? : Scalar → Option Scalar
  | .float x => some (.float x)
  | .int n => some (.float (Number.Double.ofDecimal (n < 0) n.natAbs 0))
  | _ => none

/-- The value of a scalar with a standard tag, which has to fit. -/
def taggedValue? (tag : String) (text : Bytes) : Option Scalar :=
  let resolved := Scalar.resolve text
  match tag with
  | "str" => some (.text text)
  | "binary" => (Text.decodeBase64? text).map .text
  | "null" => if resolved = .null then some .null else none
  | "bool" =>
    match resolved with
    | .bool b => some (.bool b)
    | _ => none
  | "int" =>
    match resolved with
    | .int n => some (.int n)
    | _ => none
  | "float" => toFloat? resolved
  | "timestamp" =>
    match resolved with
    | .time t => some (.time t)
    | _ => none
  | _ => some (.text text)

/-- The standard tags that say what a scalar is. -/
def scalarTags : List String := ["str", "binary", "null", "bool", "int", "float", "timestamp"]

/-- The value of a scalar: what its tag says, or what a plain scalar stands for.  Other tags leave the
text. -/
def scalarValue? (tag text : Bytes) (isPlain : Bool) : Option Scalar :=
  if tag = [] then some (if isPlain then Scalar.resolve text else .text text)
  else
    match scalarTags.find? fun name => standardTag ++ utf8 name = tag with
    | some name => taggedValue? name text
    | none => some (.text text)

/-- A node without the names it is known by. -/
def Node.target : Node → Node
  | .alias _ node => node.target
  | node => node

/-- What two keys of a map are compared by: how they are written. -/
inductive KeyForm where
  | scalar (text : Bytes)
  | list
  | map
  | alias (name : Bytes)
deriving DecidableEq, Repr, Inhabited

/-- The form of a key. -/
def Node.keyForm : Node → KeyForm
  | .scalar _ text _ => .scalar text
  | .list _ => .list
  | .map _ => .map
  | .alias name _ => .alias name

/-- The key that stands for the entries of other maps. -/
def Node.isMergeKey : Node → Bool
  | .scalar tag text isPlain =>
    text = utf8 "<<" && ((tag = [] && isPlain) || tag = standardTag ++ utf8 "merge")
  | _ => false

/-- The text of a key.  The first part is none for a key that is null, whose entry does not count; lists and
maps are no keys. -/
def keyText? (key : Node) : Option (Option Bytes) :=
  match key.target with
  | .scalar tag text isPlain =>
    match scalarValue? tag text isPlain with
    | none => none
    | some .null => some none
    | some (.text s) => some (some s)
    | some _ => some (some text)
  | _ => none

/-- Entries without those whose key is there already. -/
def newEntries (present added : List (Bytes × Value)) : List (Bytes × Value) :=
  added.filter fun (key, _) => (present.lookup key).isNone

mutual

/-- The value of a node.  Nested nodes bound its depth. -/
def Value.ofNode? : Nat → Node → Option Value
  | 0, _ => none
  | fuel + 1, node =>
    match node with
    | .alias _ node => Value.ofNode? fuel node
    | .scalar tag text isPlain => (scalarValue? tag text isPlain).map .scalar
    | .list items => (items.mapM (Value.ofNode? fuel)).map .list
    | .map entries => (entriesOf? fuel entries).map .map

/-- The entries of a map.  No key may be written twice; merged entries come last and replace nothing. -/
def entriesOf? : Nat → List (Node × Node) → Option (List (Bytes × Value))
  | 0, _ => none
  | fuel + 1, entries => do
    let forms := entries.map fun (key, _) => key.keyForm
    if (firstSeen forms).length < forms.length then none
    let own ← (entries.filter fun (key, _) => !key.isMergeKey).mapM fun (key, value) => do
      return ((← keyText? key), ← Value.ofNode? fuel value)
    let own := own.filterMap fun (key?, value) => key?.map fun key => (key, value)
    match entries.find? fun (key, _) => key.isMergeKey with
    | none => return own
    | some (_, merged) =>
      let others ← mergedEntries? fuel merged
      return own ++ newEntries own others

/-- The entries that a merged map, or a list of them, brings. -/
def mergedEntries? : Nat → Node → Option (List (Bytes × Value))
  | 0, _ => none
  | fuel + 1, node =>
    match node.target with
    | .map entries => entriesOf? fuel entries
    | .list items => do
      let maps ← items.mapM fun item =>
        match item.target with
        | .map entries => entriesOf? fuel entries
        | _ => none
      return maps.foldl (fun present added => present ++ newEntries present added) []
    | _ => none

end

/-- The entries of a document, which holds a map or nothing; none if it breaks the rules. -/
def Value.parseMap? (text : Bytes) : Option (List (Bytes × Value)) := do
  let tokens := Token.ofText text
  match ← Node.ofTokens? tokens with
  | none => some []
  | some root =>
    match ← Value.ofNode? (8 * tokens.length + 16) root with
    | .map entries => some entries
    | .scalar .null => some []
    | _ => none

end JvmCoupling.Yaml
