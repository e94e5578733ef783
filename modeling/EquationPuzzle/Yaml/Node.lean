import EquationPuzzle.Yaml.Token

/-!
# YAML documents

A document as a tree of texts, lists and maps.  Aliases are replaced by what they stand for, and
tags are written out by the handles in force.  A text has exactly one document.
-/

namespace EquationPuzzle.Yaml

inductive Node where
  | scalar (tag : Option String) (text : String) (plain : Bool)
  | sequence (tag : Option String) (items : List Node)
  | mapping (tag : Option String) (entries : List (Node × Node))

/-- What stands where nothing is written. -/
def Node.missing : Node := .scalar none "" true

structure Builder where
  input : List Token
  /-- What the handles of tags stand for. -/
  handles : List (String × String)
  /-- The number of the node that each anchor names; the last one counts. -/
  anchors : List (String × Nat) := []
  /-- The nodes with an anchor that are complete. -/
  nodes : List (Nat × Node) := []
  fresh : Nat := 0

abbrev Build := StateT Builder Option

namespace Build

def peek? : Build (Option Token) := return (← get).input.head?

def skip : Build Unit := modify fun builder => { builder with input := builder.input.tail }

/-- Whether the next token is the given one. -/
def sees (token : Token) : Build Bool := return (← peek?) = some token

/-- Whether the next token is one of several, or there is none. -/
def seesAny (tokens : List Token) : Build Bool := do
  match ← peek? with
  | none => return true
  | some token => return tokens.contains token

/-- The full name of a tag.  A tag that is the mark alone says nothing. -/
def resolve (tag : Tag) : Build String := do
  if tag.handle.isEmpty then return tag.suffix
  match (← get).handles.lookup tag.handle with
  | some expansion => return expansion ++ tag.suffix
  | none => failure

/-- An anchor and a tag, in either order. -/
def properties : Build (Option String × Option String) := do
  match ← peek? with
  | some (.anchor name) =>
    skip
    match ← peek? with
    | some (.tag tag) =>
      skip
      return (some name, some (← resolve tag))
    | _ => return (some name, none)
  | some (.tag tag) =>
    skip
    match ← peek? with
    | some (.anchor name) =>
      skip
      return (some name, some (← resolve tag))
    | _ => return (none, some (← resolve tag))
  | _ => return (none, none)

/-- Gives an anchor to the node that is about to be built. -/
def enter (name : String) : Build Nat := do
  let builder ← get
  set { builder with
    anchors := (name, builder.fresh) :: builder.anchors
    fresh := builder.fresh + 1 }
  return builder.fresh

def leave (number : Nat) (node : Node) : Build Unit :=
  modify fun builder => { builder with nodes := (number, node) :: builder.nodes }

/-- The node that an alias stands for.  It must be complete. -/
def follow (name : String) : Build Node := do
  let builder ← get
  let some number := builder.anchors.lookup name | failure
  let some node := builder.nodes.lookup number | failure
  return node

mutual

/-- One node.  Block collections may be refused, and a block list may be allowed to start without
indentation.  Fuel bounds the number of steps. -/
def node (block unindented : Bool) : Nat → Build Node
  | 0 => failure
  | fuel + 1 => do
    match ← peek? with
    | some (.alias name) =>
      skip
      follow name
    | _ =>
      let (name, tag) ← properties
      match name with
      | none => content block unindented name.isSome tag fuel
      | some name =>
        let number ← enter name
        let built ← content block unindented true tag fuel
        leave number built
        return built

/-- A node behind its anchor and its tag. -/
def content (block unindented anchored : Bool) (tag : Option String) : Nat → Build Node
  | 0 => failure
  | fuel + 1 => do
    match ← peek? with
    | some (.scalar text plain) =>
      skip
      return .scalar (if tag = some "!" then none else tag) text plain
    | some .flowSequenceStart =>
      skip
      return .sequence tag (← flowItems true fuel)
    | some .flowMappingStart =>
      skip
      return .mapping tag (← flowEntries true fuel)
    | some .blockEntry =>
      if unindented then return .sequence tag (← unindentedItems fuel)
      else absent anchored tag
    | some .blockSequenceStart =>
      if block then
        skip
        return .sequence tag (← blockItems fuel)
      else absent anchored tag
    | some .blockMappingStart =>
      if block then
        skip
        return .mapping tag (← blockEntries fuel)
      else absent anchored tag
    | _ => absent anchored tag
where
  /-- An anchor or a tag may stand for a node by itself. -/
  absent (anchored : Bool) (tag : Option String) : Build Node :=
    if anchored ∨ tag.isSome then return .scalar tag "" true else failure

/-- A node, unless one of several tokens follows. -/
def nodeUnless (tokens : List Token) (block : Bool) (unindented : Bool) : Nat → Build Node
  | 0 => failure
  | fuel + 1 => do
    if ← seesAny tokens then return .missing
    node block unindented fuel

/-- The items of an indented block list. -/
def blockItems : Nat → Build (List Node)
  | 0 => failure
  | fuel + 1 => do
    match ← peek? with
    | some .blockEntry =>
      skip
      let item ← nodeUnless [.blockEntry, .blockEnd] true false fuel
      return item :: (← blockItems fuel)
    | some .blockEnd =>
      skip
      return []
    | _ => failure

/-- The items of a block list that is indented no more than the map around it. -/
def unindentedItems : Nat → Build (List Node)
  | 0 => failure
  | fuel + 1 => do
    if ← sees .blockEntry then
      skip
      let item ← nodeUnless [.blockEntry, .key, .value, .blockEnd] true false fuel
      return item :: (← unindentedItems fuel)
    else return []

/-- The value behind a key of a block map. -/
def blockValue : Nat → Build Node
  | 0 => failure
  | fuel + 1 => do
    if ← sees .value then
      skip
      nodeUnless [.key, .value, .blockEnd] true true fuel
    else return .missing

def blockEntries : Nat → Build (List (Node × Node))
  | 0 => failure
  | fuel + 1 => do
    match ← peek? with
    | some .key =>
      skip
      let key ← nodeUnless [.key, .value, .blockEnd] true true fuel
      let value ← blockValue fuel
      return (key, value) :: (← blockEntries fuel)
    | some .blockEnd =>
      skip
      return []
    | _ => failure

/-- The value behind a key inside a flow collection, which one of the given tokens may end. -/
def flowValue (tokens : List Token) : Nat → Build Node
  | 0 => failure
  | fuel + 1 => do
    if ← sees .value then
      skip
      nodeUnless tokens false false fuel
    else return .missing

/-- A key and its value as the only entry of a map that is an item of a flow list. -/
def flowPair : Nat → Build Node
  | 0 => failure
  | fuel + 1 => do
    let ending : List Token := [.flowEntry, .flowSequenceEnd]
    if ← seesAny (.value :: ending) then
      skip
      let value ← flowValue ending fuel
      return .mapping none [(.missing, value)]
    let key ← node false false fuel
    let value ← flowValue ending fuel
    return .mapping none [(key, value)]

def flowItems (first : Bool) : Nat → Build (List Node)
  | 0 => failure
  | fuel + 1 => do
    if ← sees .flowSequenceEnd then
      skip
      return []
    if ¬first then
      if ← sees .flowEntry then skip else failure
    match ← peek? with
    | some .key =>
      skip
      let item ← flowPair fuel
      return item :: (← flowItems false fuel)
    | some .flowSequenceEnd =>
      skip
      return []
    | _ =>
      let item ← node false false fuel
      return item :: (← flowItems false fuel)

def flowEntries (first : Bool) : Nat → Build (List (Node × Node))
  | 0 => failure
  | fuel + 1 => do
    if ← sees .flowMappingEnd then
      skip
      return []
    if ¬first then
      if ← sees .flowEntry then skip else failure
    let ending : List Token := [.flowEntry, .flowMappingEnd]
    match ← peek? with
    | some .key =>
      skip
      let key ← nodeUnless (.value :: ending) false false fuel
      let value ← flowValue ending fuel
      return (key, value) :: (← flowEntries false fuel)
    | some .flowMappingEnd =>
      skip
      return []
    | _ =>
      let key ← node false false fuel
      return (key, .missing) :: (← flowEntries false fuel)

end

/-- The directives before a document: at most one version, which must be known, and each handle at
most once. -/
def directives (versioned : Bool) (handles : List (String × String)) :
    List Token → Option (List (String × String) × List Token)
  | .directive (.version major minor) :: rest =>
    if versioned ∨ major ≠ 1 ∨ (minor ≠ 1 ∧ minor ≠ 2) then none
    else directives true handles rest
  | .directive (.tagHandle handle expansion) :: rest =>
    if (handles.lookup handle).isSome then none
    else directives versioned ((handle, expansion) :: handles) rest
  | rest => some (handles, rest)

/-- The handles that need no directive. -/
def defaultHandles : List (String × String) :=
  [("!", "!"), ("!!", "tag:yaml.org,2002:")]

/-- The only document of a text. -/
def document (input : List Token) : Option Node := do
  let (handles, rest) ← directives false [] input
  let fuel := 4 * input.length + 4
  let builder (input : List Token) : Builder := { input, handles := handles ++ defaultHandles }
  let (root, builder) ← match rest with
    | .documentStart :: rest =>
      match rest with
      | [] => some (Node.missing, builder rest)
      | .documentStart :: _ => some (Node.missing, builder rest)
      | .documentEnd :: _ => some (Node.missing, builder rest)
      | .directive _ :: _ => some (Node.missing, builder rest)
      | _ => (node true false fuel).run (builder rest)
    | [] => none
    | _ => if rest.length = input.length then (node true false fuel).run (builder rest) else none
  if (builder.input.dropWhile (· = .documentEnd)).isEmpty then some root else none

end Build

def ofText? (text : String) : Option Node := do
  Build.document (← tokens? text).toList

end EquationPuzzle.Yaml
