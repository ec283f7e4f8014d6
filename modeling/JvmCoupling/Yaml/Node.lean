import JvmCoupling.Yaml.Token

/-! # Nodes of a YAML document

The tokens of a text put together: scalars, lists and maps as they are written, with their tags.

* `Node` — a node;
* `Node.ofTokens?` — the first document of a list of tokens.  None at all is told apart from one that breaks
  the rules.
-/

namespace JvmCoupling.Yaml

/-- A node as it is written. -/
inductive Node where
  | scalar (tag : Bytes) (text : Bytes) (isPlain : Bool)
  | list (items : List Node)
  | map (entries : List (Node × Node))
  /-- Another node that was given this name. -/
  | alias (name : Bytes) (node : Node)
deriving Repr, Inhabited

/-- A scalar that is not written at all. -/
def Node.absent : Node := .scalar [] [] true

/-- What is left of the tokens, the nodes that were given names, and what the handles of tags stand for. -/
structure Reading where
  tokens : List Token
  anchors : List (Bytes × Node) := []
  handles : List (Bytes × Bytes) := [(utf8 "!", utf8 "!"), (utf8 "!!", utf8 "tag:yaml.org,2002:")]
deriving Repr, Inhabited

/-- A step that may find the rules broken. -/
abbrev Reader := StateT Reading Option

namespace Reader

/-- The next token.  After the last there are no more. -/
def next : Reader Token := do return (← get).tokens.headD .invalid

/-- Takes the next token. -/
def take : Reader Unit := modify fun r => { r with tokens := r.tokens.drop 1 }

/-- The rules are broken. -/
def fail {α : Type} : Reader α := fun _ => none

/-- Takes the next token if it is the expected one. -/
def takeIf (token : Token) : Reader Bool := do
  if (← next) = token then
    take
    return true
  else return false

/-- The full name of a tag.  A lone exclamation mark is no tag. -/
def tagText (name : TagName) : Reader Bytes := do
  if name.handle = [] then return if name.suffix = utf8 "!" then [] else name.suffix
  else
    match (← get).handles.lookup name.handle with
    | some start => return start ++ name.suffix
    | none => fail

/-- The properties in front of a node: a name and a tag, in either order. -/
structure Properties where
  anchor? : Option Bytes := none
  tag? : Option Bytes := none
deriving DecidableEq, Repr, Inhabited

/-- Takes the properties in front of a node. -/
def properties (p : Properties) : Nat → Reader Properties
  | 0 => return p
  | fuel + 1 => do
    match ← next, p.anchor?, p.tag? with
    | .anchor name, none, _ =>
      take
      properties { p with anchor? := some name } fuel
    | .tag name, _, none =>
      take
      properties { p with tag? := some (← tagText name) } fuel
    | _, _, _ => return p

/-- Gives a node its name. -/
def register (p : Properties) (node : Node) : Reader Node := do
  match p.anchor? with
  | some name => modify fun r => { r with anchors := (name, node) :: r.anchors }
  | none => pure ()
  return node

mutual

/-- A node.  `inBlock` allows blocks, and `inMap` a list that is not indented. -/
def node (inBlock inMap : Bool) : Nat → Reader Node
  | 0 => fail
  | fuel + 1 => do
    match ← next with
    | .alias name =>
      take
      match (← get).anchors.lookup name with
      | some target => return .alias name target
      | none => fail
    | _ =>
      let p ← properties {} 2
      let tag := p.tag?.getD []
      match ← next with
      | .item => if inMap then register p (.list (← bareItems fuel)) else emptyNode p
      | .scalar text isPlain =>
        take
        register p (.scalar tag text isPlain)
      | .flowListStart =>
        take
        register p (.list (← flowItems true fuel))
      | .flowMapStart =>
        take
        register p (.map (← flowEntries true fuel))
      | .blockList =>
        if inBlock then
          take
          register p (.list (← blockItems fuel))
        else emptyNode p
      | .blockMap =>
        if inBlock then
          take
          register p (.map (← blockEntries fuel))
        else emptyNode p
      | _ => emptyNode p

/-- A node of which there are only properties. -/
def emptyNode (p : Properties) : Reader Node := do
  if p.anchor?.isNone && p.tag?.isNone then fail
  else register p (.scalar (p.tag?.getD []) [] true)

/-- A node, unless one of the given tokens shows that it is absent. -/
def nodeUnless (stops : List Token) (inBlock inMap : Bool) : Nat → Reader Node
  | 0 => fail
  | fuel + 1 => do
    if stops.contains (← next) then return .absent else node inBlock inMap fuel

/-- The items of an indented list. -/
def blockItems : Nat → Reader (List Node)
  | 0 => fail
  | fuel + 1 => do
    if ← takeIf .item then
      let first ← nodeUnless [.item, .blockEnd] true false fuel
      return first :: (← blockItems fuel)
    else if ← takeIf .blockEnd then return []
    else fail

/-- The items of a list that is not indented. -/
def bareItems : Nat → Reader (List Node)
  | 0 => fail
  | fuel + 1 => do
    if ← takeIf .item then
      let first ← nodeUnless [.item, .key, .value, .blockEnd] true false fuel
      return first :: (← bareItems fuel)
    else return []

/-- A value behind its mark, if there is one. -/
def valueUnless (stops : List Token) (inBlock inMap : Bool) : Nat → Reader Node
  | 0 => fail
  | fuel + 1 => do
    if ← takeIf .value then nodeUnless stops inBlock inMap fuel else return .absent

/-- The entries of a block map. -/
def blockEntries : Nat → Reader (List (Node × Node))
  | 0 => fail
  | fuel + 1 => do
    if ← takeIf .key then
      let key ← nodeUnless [.key, .value, .blockEnd] true true fuel
      let value ← valueUnless [.key, .value, .blockEnd] true true fuel
      return (key, value) :: (← blockEntries fuel)
    else if ← takeIf .blockEnd then return []
    else fail

/-- The items of a flow list; a key makes an item a map of one entry. -/
def flowItems (isFirst : Bool) : Nat → Reader (List Node)
  | 0 => fail
  | fuel + 1 => do
    if ← takeIf .flowListEnd then return []
    if !isFirst then
      if !(← takeIf .separator) then fail
    if ← takeIf .flowListEnd then return []
    if ← takeIf .key then
      let key ← nodeUnless [.value, .separator, .flowListEnd] false false fuel
      let value ← valueUnless [.separator, .flowListEnd] false false fuel
      return .map [(key, value)] :: (← flowItems false fuel)
    else
      let first ← node false false fuel
      return first :: (← flowItems false fuel)

/-- The entries of a flow map; a node that is no key has no value. -/
def flowEntries (isFirst : Bool) : Nat → Reader (List (Node × Node))
  | 0 => fail
  | fuel + 1 => do
    if ← takeIf .flowMapEnd then return []
    if !isFirst then
      if !(← takeIf .separator) then fail
    if ← takeIf .flowMapEnd then return []
    if ← takeIf .key then
      let key ← nodeUnless [.value, .separator, .flowMapEnd] false false fuel
      let value ← valueUnless [.separator, .flowMapEnd] false false fuel
      return (key, value) :: (← flowEntries false fuel)
    else
      let key ← node false false fuel
      return (key, .absent) :: (← flowEntries false fuel)

end

/-- Takes the directives in front of a document. -/
def directives (hasVersion : Bool) : Nat → Reader Unit
  | 0 => fail
  | fuel + 1 => do
    match ← next with
    | .version major minor =>
      if hasVersion || major ≠ 1 || minor ≠ 1 then fail
      else
        take
        directives true fuel
    | .tagHandle handle start =>
      take
      modify fun r => { r with handles := (handle, start) :: r.handles }
      directives hasVersion fuel
    | _ => return

/-- The first document, if there is one.  A few tokens behind its end have to be well-formed too. -/
def document (fuel : Nat) : Reader (Option Node) := do
  match ← next with
  | .streamEnd => return none
  | .version _ _ | .tagHandle _ _ | .documentStart =>
    directives false fuel
    if !(← takeIf .documentStart) then fail
  | _ => pure ()
  let root ←
    match ← next with
    | .version _ _ | .tagHandle _ _ | .documentStart | .documentEnd | .streamEnd => pure .absent
    | _ => node true false fuel
  if ((← get).tokens.take 3).contains .invalid then fail
  return some root

end Reader

/-- The first document of a list of tokens. -/
def Node.ofTokens? (tokens : List Token) : Option (Option Node) :=
  ((Reader.document (8 * tokens.length + 16)).run { tokens }).map (·.1)

end JvmCoupling.Yaml
