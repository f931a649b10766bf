import RailsUpgrade.Yaml.Tag
import RailsUpgrade.Yaml.Token

/-!
# `RailsUpgrade.Yaml.Node`: a document as a tree of scalars and collections

`Node.ofTokens` builds the one tree that the tokens of a document stand for. A reference stands for
the node that was given its name; inside that node itself it is a `cycle`.
-/

set_option autoImplicit false

namespace RailsUpgrade.Yaml

/-- A scalar or a collection with its tag. -/
inductive Node where
  | scalar (tag : Tag) (text : List Char) (halved : Bool)
  | list (tag : Tag) (items : List Node)
  | map (tag : Tag) (entries : List (Node × Node))
  /-- A list or a mapping inside itself. -/
  | cycle (isMap : Bool)
  deriving Repr

namespace Node

/-- A scalar that is left out. -/
def absent : Node := .scalar .null [] false

/-- The tag of a node. -/
def tag : Node → Tag
  | .scalar tag _ _ | .list tag _ | .map tag _ => tag
  | .cycle isMap => if isMap then .map else .list

/-- The handles of a document with what they stand for. -/
abbrev Handles := List (List Char × List Char)

/-- The handles that need no directive. -/
def standardHandles : Handles := [(['!'], ['!']), (['!', '!'], tagLead.toList)]

/-- What building has reached: the tokens that are left, and the nodes by their names. -/
structure Building where
  tokens : List Token
  named : List (List Char × Node) := []

/-- Steps of building, up to the first fault. -/
abbrev Build := StateT Building (Except Fault)

/-- The next token. -/
def peek : Build Token := do
  match (← get).tokens with
  | [] => return .finish
  | .fault fault :: _ => throw fault
  | token :: _ => return token

/-- Passes over the next token. -/
def drop : Build Unit := modify fun b => { b with tokens := b.tokens.drop 1 }

/-- The name at the start of a node, if there is one. -/
def anchor? : Build (Option (List Char)) := do
  match ← peek with
  | .anchor name =>
    drop
    return some name
  | _ => return none

/-- The tag at the start of a node, if there is one. -/
def tag? : Build (Option (Option (List Char) × List Char)) := do
  match ← peek with
  | .tag handle suffix =>
    drop
    return some (handle, suffix)
  | _ => return none

/-- The name and the tag of a node, in either order. -/
def properties : Build (Option (List Char) × Option (Option (List Char) × List Char)) := do
  match ← anchor? with
  | some name => return (some name, ← tag?)
  | none => match ← tag? with
    | some tag => return (← anchor?, some tag)
    | none => return (none, none)

/-- A tag spelled out. -/
def spelledTag (handles : Handles) : Option (List Char) × List Char → Except Fault (List Char)
  | (none, suffix) => .ok suffix
  | (some handle, suffix) => match handles.lookup handle with
    | some lead => .ok (lead ++ suffix)
    | none => .error .malformed

/-- Whether a tag leaves the meaning open. -/
def isOpen (tag : Option (List Char)) : Bool := tag == none || tag == some ['!']

/-- The tag of a scalar. One without quotes or with an open tag is taken by its form. -/
def scalarTag (tag : Option (List Char)) (plain : Bool) (text : List Char) : Tag :=
  match tag with
  | none => if plain then .ofForm text else .text
  | some tag => if tag == ['!'] then .ofForm text else .ofText tag

/-- The tag of a collection. -/
def collectionTag (tag : Option (List Char)) (standard : Tag) : Tag :=
  if isOpen tag then standard else (tag.map Tag.ofText).getD standard

/-- Gives a name to a node. A name is given only once. -/
def enter (name : Option (List Char)) (node : Node) : Build Unit := do
  match name with
  | none => return
  | some name =>
    let b ← get
    if (b.named.lookup name).isSome then throw .malformed
    set { b with named := (name, node) :: b.named }

/-- Lets a name stand for the whole node from now on. -/
def leave (name : Option (List Char)) (node : Node) : Build Node := do
  if let some name := name then
    modify fun b => { b with named := (name, node) :: b.named }
  return node

mutual

/-- Builds a node. Collections by indentation are left out between brackets; a list may lie at the
margin of the mapping around it if it is `loose`. -/
def node : Nat → Handles → (block loose : Bool) → Build Node
  | 0, _, _, _ => throw .malformed
  | fuel + 1, handles, block, loose => do
    if let .reference name ← peek then
      drop
      match (← get).named.lookup name with
      | some node => return node
      | none => throw .malformed
    let (name, tag) ← properties
    let tag ← (tag.mapM (spelledTag handles) : Except Fault (Option (List Char)))
    let listTag := collectionTag tag .list
    let mapTag := collectionTag tag .map
    match ← peek with
    | .scalar text plain halved =>
      drop
      let node := .scalar (scalarTag tag plain text) text halved
      enter name node
      return node
    | .flowListStart =>
      enter name (.cycle false)
      drop
      leave name (.list listTag (← flowItems fuel handles true))
    | .flowMapStart =>
      enter name (.cycle true)
      drop
      leave name (.map mapTag (← flowEntries fuel handles true))
    | token =>
      if loose && token == .entry then
        enter name (.cycle false)
        leave name (.list listTag (← looseItems fuel handles))
      else if block && token == .listStart then
        enter name (.cycle false)
        drop
        leave name (.list listTag (← blockItems fuel handles))
      else if block && token == .mapStart then
        enter name (.cycle true)
        drop
        leave name (.map mapTag (← blockEntries fuel handles))
      else if name.isSome || tag.isSome then
        let node := .scalar (collectionTag tag .null) [] false
        enter name node
        return node
      else throw .malformed

/-- Builds a node, unless one of some tokens is next, in front of which it is left out. -/
def nodeUnless : Nat → List Token → Handles → (block loose : Bool) → Build Node
  | 0, _, _, _, _ => throw .malformed
  | fuel + 1, stops, handles, block, loose => do
    if stops.contains (← peek) then return absent else node fuel handles block loose

/-- Builds a value after its sign. Without the sign it is left out. -/
def valueUnless : Nat → List Token → Handles → (block : Bool) → Build Node
  | 0, _, _, _ => throw .malformed
  | fuel + 1, stops, handles, block => do
    if (← peek) == .value then
      drop
      nodeUnless fuel stops handles block block
    else return absent

/-- Builds the items of a list between brackets. -/
def flowItems : Nat → Handles → (first : Bool) → Build (List Node)
  | 0, _, _ => throw .malformed
  | fuel + 1, handles, first => do
    if (← peek) == .flowListEnd then
      drop
      return []
    if !first then
      if (← peek) == .comma then drop else throw .malformed
    match ← peek with
    | .key =>
      drop
      let key ← nodeUnless fuel [.value, .comma, .flowListEnd] handles false false
      let value ← valueUnless fuel [.comma, .flowListEnd] handles false
      return .map .map [(key, value)] :: (← flowItems fuel handles false)
    | .flowListEnd =>
      drop
      return []
    | _ =>
      let item ← node fuel handles false false
      return item :: (← flowItems fuel handles false)

/-- Builds the entries of a mapping between brackets. -/
def flowEntries : Nat → Handles → (first : Bool) → Build (List (Node × Node))
  | 0, _, _ => throw .malformed
  | fuel + 1, handles, first => do
    if (← peek) == .flowMapEnd then
      drop
      return []
    if !first then
      if (← peek) == .comma then drop else throw .malformed
    match ← peek with
    | .key =>
      drop
      let key ← nodeUnless fuel [.value, .comma, .flowMapEnd] handles false false
      let value ← valueUnless fuel [.comma, .flowMapEnd] handles false
      return (key, value) :: (← flowEntries fuel handles false)
    | .flowMapEnd =>
      drop
      return []
    | _ =>
      let key ← node fuel handles false false
      return (key, absent) :: (← flowEntries fuel handles false)

/-- Builds the items of a list by indentation. -/
def blockItems : Nat → Handles → Build (List Node)
  | 0, _ => throw .malformed
  | fuel + 1, handles => do
    match ← peek with
    | .entry =>
      drop
      let item ← nodeUnless fuel [.entry, .blockEnd] handles true false
      return item :: (← blockItems fuel handles)
    | .blockEnd =>
      drop
      return []
    | _ => throw .malformed

/-- Builds the items of a list at the margin of the mapping around it. -/
def looseItems : Nat → Handles → Build (List Node)
  | 0, _ => throw .malformed
  | fuel + 1, handles => do
    if (← peek) == .entry then
      drop
      let item ← nodeUnless fuel [.entry, .key, .value, .blockEnd] handles true false
      return item :: (← looseItems fuel handles)
    else return []

/-- Builds the entries of a mapping by indentation. -/
def blockEntries : Nat → Handles → Build (List (Node × Node))
  | 0, _ => throw .malformed
  | fuel + 1, handles => do
    match ← peek with
    | .key =>
      drop
      let key ← nodeUnless fuel [.key, .value, .blockEnd] handles true true
      let value ← valueUnless fuel [.key, .value, .blockEnd] handles true
      return (key, value) :: (← blockEntries fuel handles)
    | .blockEnd =>
      drop
      return []
    | _ => throw .malformed

end

/-- Reads the directives in front of a document onto `handles`, and the mark that starts it.
Versions are given only once and start with one. -/
def directives : Nat → (version : Bool) → Handles → Build Handles
  | 0, _, _ => throw .malformed
  | fuel + 1, version, handles => do
    match ← peek with
    | .versionDirective major =>
      drop
      if version || major != 1 then throw .malformed
      directives fuel true handles
    | .handleDirective handle lead =>
      drop
      if (handles.lookup handle).isSome then throw .malformed
      directives fuel version ((handle, lead) :: handles)
    | .otherDirective =>
      drop
      directives fuel version handles
    | .documentStart =>
      drop
      return handles ++ standardHandles
    | _ => throw .malformed

/-- Passes over marks that end a document. -/
def skipEnds : Nat → Build Unit
  | 0 => return
  | fuel + 1 => do
    if (← peek) == .documentEnd then
      drop
      skipEnds fuel

/-- The handles of a document that starts with directives or a mark. None if no document comes. -/
def documentStart? (fuel : Nat) : Build (Option Handles) := do
  skipEnds fuel
  if (← peek) == .finish then return none
  else return some (← directives fuel false [])

/-- Whether a token starts a document that has directives or a mark, or is the end. -/
def startsOutside : Token → Bool
  | .versionDirective _ | .handleDirective _ _ | .otherDirective | .documentStart | .finish => true
  | _ => false

/-- Builds the one document that there is. -/
def document? (fuel : Nat) : Build (Option Node) := do
  let found ←
    if startsOutside (← peek) then
      match ← documentStart? fuel with
      | none => pure none
      | some handles =>
        let next ← peek
        if startsOutside next || next == .documentEnd then pure (some absent)
        else some <$> node fuel handles true false
    else some <$> node fuel standardHandles true false
  match found with
  | none => return none
  | some node =>
    if (← peek) == .documentEnd then drop
    if (← documentStart? fuel).isSome then throw .malformed
    return some node

/-- The tree that tokens stand for. None if there is no document. -/
def ofTokens (tokens : List Token) : Except Fault (Option Node) :=
  ((document? (4 * tokens.length + 4)).run ⟨tokens, []⟩).map (·.1)

end Node

end RailsUpgrade.Yaml
