import Interchange.Yaml.Outline

/-!
# Nodes

A document is a tree of nodes: a scalar, a sequence of nodes, or a mapping with a node for each key.
Keys and values that are not written are empty scalars. A node may also be an alias, which stands
for a node with an anchor.

* `Node`, `Document`: such a tree, and the nodes for its aliases.
* `Document.ofTokens?`: the one document that tokens make up.
* `Document.parse?`: the one document of a text.
* `Document.target?`: the node that an alias stands for.
-/

namespace Interchange.Yaml

/-- A tree of scalars. A mapping keeps its entries as they are written. -/
inductive Node where
  /-- `plain` says that the text is neither quoted nor in lines of its own. -/
  | scalar (text : String) (plain : Bool) (tag : Option String)
  | sequence (items : List Node)
  | mapping (entries : List (Node × Node))
  /-- What stands at the last anchor with the number. -/
  | alias (number : Nat)
deriving Repr

/-- What stands where nothing is written. -/
def Node.nothing : Node :=
  .scalar "" true none

/-! ## Reading tokens -/

/-- The tokens to come, and what came before them. -/
structure Remainder where
  tokens : List Token
  /-- What the handles of tags stand for. -/
  handles : List (List Char × List Char)
  /-- The names of anchors, each with its number. -/
  names : List (List Char × Nat)
  /-- The nodes with anchors by their numbers, in the order in which they start. -/
  anchors : Array (Nat × Node)
  /-- How many events there were: one for a scalar or an alias, two for what holds others. -/
  events : Nat

abbrev Reader := StateT Remainder Option

namespace Reader

/-- The next token, which stays. -/
def peek : Reader (Option Token) := do
  return (← get).tokens.head?

/-- Goes to the next token. -/
def advance : Reader Unit :=
  modify fun state => { state with tokens := state.tokens.tail }

/-- The next token is one of some. -/
def meets (tokens : List Token) : Reader Bool := do
  return (← peek).any (tokens.contains ·)

/-- Skips the next token if it is the given one, and says whether it is. -/
def skips (token : Token) : Reader Bool := do
  if ← meets [token] then
    advance
    return true
  else return false

/-- Counts events. -/
def count (events : Nat) : Reader Unit :=
  modify fun state => { state with events := state.events + events }

/-- A scalar that is not written. -/
def nothing : Reader Node := do
  count 1
  return .nothing

/-- Skips the comma between two entries; none stands before the first. -/
def separator (first : Bool) : Reader Unit := do
  if first then return
  else if ← skips .flowEntry then return
  else failure

/-! ## Anchors and tags -/

/-- The name of an anchor, if one is next. -/
def anchorName : Reader (Option (List Char)) := do
  match ← peek with
  | some (.anchor name) =>
    advance
    return some name
  | _ => return none

/-- A tag in full, if one is next. Its handle has to be known. -/
def fullTag : Reader (Option (List Char)) := do
  match ← peek with
  | some (.tag handle suffix) =>
    advance
    if handle.isEmpty then return some suffix
    else
      match (← get).handles.find? fun known => known.1 == handle with
      | some (_, address) => return some (address ++ suffix)
      | none => failure
  | _ => return none

/-- An anchor and a tag in either order. -/
def properties : Reader (Option (List Char) × Option (List Char)) := do
  let first ← anchorName
  let tag ← fullTag
  let anchor ← if first.isSome then pure first else anchorName
  return (anchor, tag)

/-- Reads a node under an anchor. The number of its name is how many names there are before it. A
name that is used again counts as one of them, and takes a new number. -/
def anchored (anchor : Option (List Char)) (read : Reader Node) : Reader Node := do
  match anchor with
  | none => read
  | some name =>
    let before ← get
    let number := before.names.length
    let others := before.names.filter fun known => known.1 != name
    set { before with
      names := (name, number) :: others
      anchors := before.anchors.push (number, .nothing) }
    let node ← read
    modify fun state => { state with
      anchors := state.anchors.setIfInBounds before.anchors.size (number, node) }
    return node

/-- An alias for a name that was used before. -/
def named (name : List Char) : Reader Node := do
  match (← get).names.find? fun known => known.1 == name with
  | some (_, number) =>
    count 1
    return .alias number
  | none => failure

/-- A scalar with a tag. -/
def scalar (text : List Char) (plain : Bool) (tag : Option (List Char)) : Reader Node := do
  count 1
  return .scalar (String.ofList text) plain (tag.map String.ofList)

/-! ## Nodes -/

mutual

/-- Reads a node. `block` says that it may be a block, and `bare` that the entries of a sequence may
stand where the mapping around it has its keys. `fuel` bounds the depth and the number of nodes. -/
def node : (fuel : Nat) → (block bare : Bool) → Reader Node
  | 0, _, _ => failure
  | fuel + 1, block, bare => do
    match ← peek with
    | some (.alias name) =>
      advance
      named name
    | _ =>
      let (anchor, tag) ← properties
      anchored anchor do
        match ← peek, block, bare with
        | some (.scalar text plain), _, _ =>
          advance
          scalar text plain tag
        | some .flowSequenceStart, _, _ =>
          advance
          count 2
          return .sequence (← flowItems fuel true)
        | some .flowMappingStart, _, _ =>
          advance
          count 2
          return .mapping (← flowEntries fuel true)
        | some .blockSequenceStart, true, _ =>
          advance
          count 2
          return .sequence (← blockItems fuel)
        | some .blockMappingStart, true, _ =>
          advance
          count 2
          return .mapping (← blockEntries fuel)
        | some .blockEntry, _, true =>
          count 2
          return .sequence (← bareItems fuel)
        | _, _, _ => if anchor.isSome || tag.isSome then scalar [] true tag else failure

/-- Reads a node of a block unless one of some tokens follows. -/
def blockNode : (fuel : Nat) → (bare : Bool) → (stops : List Token) → Reader Node
  | 0, _, _ => failure
  | fuel + 1, bare, stops => do
    if ← meets stops then nothing else node fuel true bare

/-- Reads the entries of a sequence with a block of its own. -/
def blockItems : (fuel : Nat) → Reader (List Node)
  | 0 => failure
  | fuel + 1 => do
    if ← skips .blockEntry then
      let item ← blockNode fuel false [.blockEntry, .blockEnd]
      return item :: (← blockItems fuel)
    else if ← skips .blockEnd then return []
    else failure

/-- Reads the entries of a sequence without a block of its own. -/
def bareItems : (fuel : Nat) → Reader (List Node)
  | 0 => failure
  | fuel + 1 => do
    if ← skips .blockEntry then
      let item ← blockNode fuel false [.blockEntry, .key, .value, .blockEnd]
      return item :: (← bareItems fuel)
    else return []

/-- Reads the entries of a mapping that is a block. -/
def blockEntries : (fuel : Nat) → Reader (List (Node × Node))
  | 0 => failure
  | fuel + 1 => do
    if ← skips .key then
      let stops := [Token.key, .value, .blockEnd]
      let key ← blockNode fuel true stops
      let value ← if ← skips .value then blockNode fuel true stops else nothing
      return (key, value) :: (← blockEntries fuel)
    else if ← skips .blockEnd then return []
    else failure

/-- Reads a node between brackets unless one of some tokens follows. -/
def flowNode : (fuel : Nat) → (stops : List Token) → Reader Node
  | 0, _ => failure
  | fuel + 1, stops => do
    if ← meets stops then nothing else node fuel false false

/-- Reads the value of a key between brackets. -/
def flowValue : (fuel : Nat) → (stop : Token) → Reader Node
  | 0, _ => failure
  | fuel + 1, stop => do
    if ← skips .value then flowNode fuel [.flowEntry, stop] else nothing

/-- Reads the entries of a sequence between brackets. An entry may be a mapping of one key. -/
def flowItems : (fuel : Nat) → (first : Bool) → Reader (List Node)
  | 0, _ => failure
  | fuel + 1, first => do
    if ← skips .flowSequenceEnd then return []
    separator first
    if ← skips .flowSequenceEnd then return []
    else if ← skips .key then
      count 2
      let key ← node fuel false false
      let value ← flowValue fuel .flowSequenceEnd
      return .mapping [(key, value)] :: (← flowItems fuel false)
    else
      let item ← node fuel false false
      return item :: (← flowItems fuel false)

/-- Reads the entries of a mapping between brackets. -/
def flowEntries : (fuel : Nat) → (first : Bool) → Reader (List (Node × Node))
  | 0, _ => failure
  | fuel + 1, first => do
    if ← skips .flowMappingEnd then return []
    separator first
    if ← skips .flowMappingEnd then return []
    else if ← skips .key then
      let key ← flowNode fuel [.value, .flowEntry, .flowMappingEnd]
      let value ← flowValue fuel .flowMappingEnd
      return (key, value) :: (← flowEntries fuel false)
    else
      let key ← node fuel false false
      let value ← nothing
      return (key, value) :: (← flowEntries fuel false)

end

end Reader

/-! ## Documents -/

/-- Where the types of the standard have their names. -/
def standardTags : String := "tag:yaml.org,2002:"

/-- What handles stand for if no directive says otherwise. -/
def standardHandles : List (List Char × List Char) :=
  [(['!'], ['!']), (['!', '!'], standardTags.toList)]

/-- The handles that directives give, and what follows the directives. There is one version at most,
which is 1.1 or 1.2, and a handle is given once. -/
def directives? : (versioned : Bool) → (handles : List (List Char × List Char)) → List Token →
    Option (List (List Char × List Char) × List Token)
  | versioned, handles, .version major minor :: rest =>
    if versioned || major != 1 || (minor != 1 && minor != 2) then none
    else directives? true handles rest
  | versioned, handles, .handle handle address :: rest =>
    if handles.any fun known => known.1 == handle then none
    else directives? versioned ((handle, address) :: handles) rest
  | _, handles, rest => some (handles, rest)

/-- Reads the root. Behind a start marker, it may be missing. -/
def Reader.root (fuel : Nat) (marked : Bool) : Reader Node := do
  let missing :=
    marked && (← peek).all fun token => token == .documentStart || token == .documentEnd
  if missing then nothing else node fuel true false

/-- A tree, and what its aliases stand for. -/
structure Document where
  root : Node
  /-- The nodes with anchors by their numbers, in the order in which they start. -/
  anchors : List (Nat × Node)
  /-- How many events the document is made of. -/
  events : Nat

namespace Document

/-- The one document that tokens make up. Behind directives it has a start marker, and nothing but
end markers follows it. -/
def ofTokens? (tokens : List Token) : Option Document := do
  let (handles, rest) ← directives? false [] tokens
  let marked := rest.head? == some .documentStart
  if !marked && rest.length != tokens.length then none
  else
    let body := if marked then rest.tail else rest
    let (root, last) ← (Reader.root (4 * tokens.length + 4) marked).run
      ⟨body, handles ++ standardHandles, [], #[], 0⟩
    if last.tokens.all (· == .documentEnd) then return ⟨root, last.anchors.toList,
      last.events⟩ else none

/-- The one document of a text. -/
def parse? (text : String) : Option Document :=
  (tokens? text).bind ofTokens?

/-! ## Aliases -/

/-- The node that a node stands for. Of several anchors with one number, the last one counts,
wherever the alias stands. -/
def target? (document : Document) : Node → Option Node
  | .alias number =>
    (document.anchors.reverse.find? fun entry => entry.1 == number).map Prod.snd
  | node => some node

/-- How many aliases are met on a walk through a node, where a walk takes no more than `depth` steps
inward. -/
def jumps (document : Document) : (depth : Nat) → Node → Nat
  | 0, _ => 0
  | _ + 1, .scalar _ _ _ => 0
  | depth + 1, .sequence items =>
    items.foldl (fun sum item => sum + jumps document depth item) 0
  | depth + 1, .mapping entries =>
    entries.foldl
      (fun sum entry => sum + jumps document depth entry.1 + jumps document depth entry.2) 0
  | depth + 1, .alias number =>
    match document.target? (.alias number) with
    | some node => jumps document depth node + 1
    | none => 1

/-- The greatest number of aliases on a walk through a document, for each of its events. -/
def jumpLimit : Nat := 100

/-- A walk through the document takes no more aliases than it may. -/
def isShort (document : Document) (depth : Nat) : Bool :=
  document.jumps depth document.root ≤ jumpLimit * document.events

end Document

end Interchange.Yaml
