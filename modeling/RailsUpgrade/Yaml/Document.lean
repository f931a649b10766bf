import RailsUpgrade.Yaml.Node
import RailsUpgrade.Yaml.Scalar

/-!
# `RailsUpgrade.Yaml.Document`: the value of a document

`Yaml.read` reads the value that a document stands for: its text is cut into tokens, the tokens make
up a tree, and the tree stands for a value. Of several faults in a tree the one with the least depth
counts, and of those the first one.
-/

set_option autoImplicit false

namespace RailsUpgrade.Yaml

/-- A character that may not stand in a document. -/
def isForbidden (c : Char) : Bool :=
  let n := c.toNat
  (n < 32 && n != 9 && n != 10 && n != 13) || n == 127 || (128 ≤ n && n < 160 && n != 133)
    || n == 0xFFFE || n == 0xFFFF

/-- A fault and how deep in the tree it is found. -/
structure Flaw where
  depth : Nat
  fault : Fault
  deriving DecidableEq, Repr

/-- The flaw of two that counts: the one that is less deep, or else the first one. -/
def Flaw.first : Option Flaw → Option Flaw → Option Flaw
  | none, b => b
  | a, none => a
  | some a, some b => if b.depth < a.depth then some b else some a

/-- A value together with the flaw that keeps it from being one. -/
structure Reading (α : Type) where
  value : α
  flaw : Option Flaw := none

namespace Node

/-- The text of a scalar. A mapping stands for the scalar of its entry `=`. -/
def scalarText? : Node → Option (List Char × Bool)
  | .scalar _ text halved => some (text, halved)
  | .map _ entries => fromEntries? entries
  | _ => none
where
  /-- The scalar of the first entry `=`. -/
  fromEntries? : List (Node × Node) → Option (List Char × Bool)
    | [] => none
    | (key, value) :: rest => if key.tag == .value then scalarText? value else fromEntries? rest

/-- A key, in which `=` is a text. -/
def asKey : Node → Node
  | .scalar .value text halved => .scalar .text text halved
  | node => node

mutual

/-- The entries of a mapping, in which those that are taken over from other mappings come first. -/
def merged : Nat → List (Node × Node) → Except Fault (List (Node × Node))
  | 0, _ => .error .malformed
  | fuel + 1, entries => do
    let taken ← (entries.filter fun e => e.1.tag == .merge).mapM fun e => takenOver fuel e.2
    let own := (entries.filter fun e => e.1.tag != .merge).map fun e => (asKey e.1, e.2)
    return taken.flatten ++ own

/-- The entries that are taken over from a mapping, or from a list of mappings, of which the last
one comes first. -/
def takenOver : Nat → Node → Except Fault (List (Node × Node))
  | 0, _ => .error .malformed
  | fuel + 1, node => match node with
    | .map _ entries => merged fuel entries
    | .list _ items => do
      let taken ← items.mapM fun
        | .map _ entries => merged fuel entries
        | .cycle true => .ok []
        | _ => .error .malformed
      return taken.reverse.flatten
    | .cycle _ => .ok []
    | .scalar _ _ _ => .error .malformed

end

/-- A reading of nothing because of a fault. -/
def failed {α : Type} (value : α) (depth : Nat) (fault : Fault) : Reading α := ⟨value, some ⟨depth, fault⟩⟩

/-- Several readings in order. -/
def together (readings : List (Reading Value)) : Reading (List Value) :=
  ⟨readings.map Reading.value, readings.foldl (fun flaw r => Flaw.first flaw r.flaw) none⟩

/-- Adds an entry to a mapping. Its key may not be a collection. -/
def addEntry (depth : Nat) (entries : Reading (List (Value × Value))) (key value : Reading Value) :
    Reading (List (Value × Value)) :=
  let unfit := if key.value.isKey then none else some ⟨depth, .malformed⟩
  ⟨Value.put key.value value.value entries.value,
    Flaw.first entries.flaw (Flaw.first key.flaw (Flaw.first unfit value.flaw))⟩

/-- The entries of a mapping at a depth, whose nodes are read by `read`. -/
def readEntries (fuel depth : Nat) (read : Node → Reading Value) (node : Node) :
    Reading (List (Value × Value)) :=
  match node with
  | .map _ entries => match merged fuel entries with
    | .error fault => failed [] depth fault
    | .ok entries =>
      entries.foldl (fun sofar e => addEntry depth sofar (read e.1) (read e.2)) ⟨[], none⟩
  | _ => failed [] depth .malformed

/-- An item of a list of pairs at a depth: a mapping with one entry. -/
def readPair (depth : Nat) (read : Node → Reading Value) (node : Node) : Reading Value :=
  match node with
  | .map _ [(key, value)] =>
    let k := read key
    let v := read value
    ⟨.pair k.value v.value, Flaw.first k.flaw v.flaw⟩
  | _ => failed .null depth .malformed

/-- The value of a node at a depth. What is inside a collection is one deeper. -/
def read : Nat → (depth : Nat) → Node → Reading Value
  | 0, depth, _ => failed .null depth .malformed
  | fuel + 1, depth, node => match node, node.tag with
    | .cycle isMap, _ => ⟨.cycle isMap, none⟩
    | .list _ items, .list =>
      let r := together (items.map (read fuel (depth + 1)))
      ⟨.list r.value, r.flaw⟩
    | .list _ items, .orderedMap | .list _ items, .pairs =>
      let r := together (items.map (readPair (depth + 1) (read fuel (depth + 1))))
      ⟨.list r.value, r.flaw⟩
    | node, .map =>
      let r := readEntries fuel (depth + 1) (read fuel (depth + 1)) node
      ⟨.map r.value, r.flaw⟩
    | node, .set =>
      let r := readEntries fuel (depth + 1) (read fuel (depth + 1)) node
      ⟨.set (r.value.map (·.1)), r.flaw⟩
    | _, .list | _, .orderedMap | _, .pairs => failed (.list []) (depth + 1) .malformed
    | node, tag => match node.scalarText? with
      | none => failed .null depth .malformed
      | some (text, halved) => match scalarValue tag text halved with
        | .ok v => ⟨v, none⟩
        | .error fault => failed .null depth fault

end Node

/-- Reads the one document that a text holds. Without a document its value is nothing. -/
def read (s : List Char) : Except Fault Value :=
  if s.any isForbidden then .error .malformed
  else
    let tokens := Token.scan s
    match Node.ofTokens tokens with
    | .error fault => .error fault
    | .ok none => .ok .null
    | .ok (some node) =>
      let r := node.read (2 * tokens.length + 2) 0
      match r.flaw with
      | some flaw => .error flaw.fault
      | none => .ok r.value

end RailsUpgrade.Yaml
