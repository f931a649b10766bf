import RailsUpgrade.Rule.Registry

/-!
# `RailsUpgrade.Rule.Shelf`: extensions by name

A `Shelf` keeps extensions under their names, in the order in which the names came up. A `Workshop`
has a shelf of its own and a common one, and extensions that are still being filled. Every
extension that is started gets a number of its own, and labels and shelves refer to it by number:
a rule that is added later is seen wherever the extension stands, and a label that is given to a new
extension leaves the old one on its shelf.
-/

set_option autoImplicit false

namespace RailsUpgrade

/-- The message about a name that no extension has. -/
def extensionNotFound (name : String) (known : List String) : String :=
  let list := String.intercalate ", " known
  "Extension '" ++ name ++ "' not found. Registered: " ++ (if list.isEmpty then "none" else list)

/-- Extensions by name. -/
abbrev Shelf := List (String × Extension)

namespace Shelf

/-- The extensions, in order. -/
def all (s : Shelf) : List Extension := s.map (·.2)

/-- Puts an extension under its name. -/
def register (s : Shelf) (e : Extension) : Shelf := Keyed.put e.name e s

/-- Takes an extension off the shelf, or gives the message that there is none. -/
def remove (s : Shelf) (name : String) : Except String (Extension × Shelf) :=
  match s.lookup name with
  | some e => .ok (e, Keyed.erase name s)
  | none => .error (extensionNotFound name (Keyed.keys s))

/-- The rules of the library and of all extensions. -/
def registry (s : Shelf) : Registry := Registry.stock.applyAll s.all

/-- The notices about the extensions. -/
def registryNotices (s : Shelf) : List Notice := Registry.stock.applyAllNotices s.all

end Shelf

/-- A registry, and extensions that are still being filled. -/
structure Workshop where
  registry : Registry := {}
  /-- All extensions that were started. An extension's number is its place. -/
  made : List Extension := []
  /-- The number that a label stands for. -/
  labels : List (String × Nat) := []
  /-- The numbers of the extensions on the own shelf, by name. -/
  own : List (String × Nat) := []
  /-- The numbers of the extensions on the common shelf, by name. -/
  common : List (String × Nat) := []
  /-- Whether the common shelf is used in place of the own one. -/
  shared : Bool := false

namespace Workshop

/-- The extension with a number. -/
def extension (w : Workshop) (number : Nat) : Extension := w.made.getD number { name := "" }

/-- The number that a label stands for. -/
def number (w : Workshop) (label : String) : Nat := (w.labels.lookup label).getD w.made.length

/-- The extension with a label. -/
def draft (w : Workshop) (label : String) : Extension := w.extension (w.number label)

/-- The numbers on the shelf in use. -/
def numbers (w : Workshop) : List (String × Nat) := if w.shared then w.common else w.own

/-- Changes the shelf in use. -/
def withNumbers (w : Workshop) (numbers : List (String × Nat)) : Workshop :=
  if w.shared then { w with common := numbers } else { w with own := numbers }

/-- The shelf that numbers stand for. -/
def shelfOf (w : Workshop) (numbers : List (String × Nat)) : Shelf :=
  numbers.map fun (name, number) => (name, w.extension number)

/-- The shelf in use. -/
def shelf (w : Workshop) : Shelf := w.shelfOf w.numbers

/-- Starts an extension and gives it a label. -/
def start (w : Workshop) (label : String) (e : Extension) : Workshop :=
  { w with made := w.made ++ [e], labels := Keyed.put label w.made.length w.labels }

/-- Puts an extension on the shelf in use. -/
def register (w : Workshop) (label : String) : Workshop :=
  w.withNumbers (Keyed.put (w.draft label).name (w.number label) w.numbers)

/-- Puts an extension on the common shelf. -/
def publish (w : Workshop) (label : String) : Workshop :=
  { w with common := Keyed.put (w.draft label).name (w.number label) w.common }

/-- Adds a rule to the registry or, given a label, to an extension. -/
def addRule (w : Workshop) (label : Option String) (q : Registration) : Workshop :=
  match label with
  | none => { w with registry := w.registry.register q }
  | some label => { w with made := w.made.modify (w.number label) (·.register q) }

/-- The notices about a rule that is added. -/
def addRuleNotices (w : Workshop) (label : Option String) (q : Registration) : List Notice :=
  match label with
  | none => w.registry.registerNotices q
  | some _ => q.notices

end Workshop

end RailsUpgrade
