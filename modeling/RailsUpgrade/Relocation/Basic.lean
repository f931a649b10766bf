import RailsUpgrade.Pattern.Template

/-!
# `RailsUpgrade.Relocation.Basic`: classes that move to another namespace

A `Relocation` names a class and its file before and after a move. The texts of a move:

* `classIn?` takes a class out of a text: its superclass and its body, without the margin;
* `Relocation.movedClass` is the class in its new namespace;
* `Relocation.stub` is what stays behind, an alias of the old name for the new one;
* `Relocation.references` finds the old name in other files.
-/

set_option autoImplicit false

namespace RailsUpgrade

open Pattern (Expr CharSet)

/-- The name of a constant for a name in lower case with underscores. -/
def camelize (name : String) : String :=
  String.ofList ((Text.splitChar '_' name.toList).flatMap Text.capitalize)

/-- A class on its way to a new constant and a new file. -/
structure Relocation where
  /-- The file that the class is in. -/
  source : String
  /-- The file that it moves to. -/
  target : String
  oldConstant : String
  newConstant : String
  /-- Whether a reference may not be qualified. -/
  bare : Bool
  deriving DecidableEq, Repr

/-- A class without its name. -/
structure ClassText where
  superclass : String
  body : String
  deriving DecidableEq, Repr

/-- A space or a tab, any number of times. -/
def margin : Expr := .rep (.one (.ofItems [.one ' ', .one '\t'])) 0 none true

/-- The line that opens a class. Group 1 is its margin and group 2 its superclass. -/
def classHeader (name : String) : Expr :=
  let gap := Expr.rep (.one (.ofItems [.one ' ', .one '\t'])) 1 none true
  let constant := Expr.rep (.one (.ofItems [.kind .word false false, .one ':'])) 1 none true
  .concat
    [.anchor .lineStart, .group 1 margin, .literal "class".toList, gap, .literal name.toList,
     .anchor (.wordEdge false),
     .rep (.group 2 (.concat [margin, .one (.single '<'), margin, constant])) 0 (some 1) true,
     .rep (.one (.butItems [.one '\n'])) 0 none true,
     .one (.single '\n')]

/-- The end of a block that was opened at a margin. -/
def blockEnd (margin : List Char) : Expr :=
  .concat [.anchor .lineStart, .literal margin, .literal "end".toList, .anchor (.wordEdge false)]

/-- Takes a class out of a text. Its end is the first one at the margin of its header. -/
def classIn? (name : String) (text : List Char) : Option ClassText := do
  let opening ← (classHeader name).search text
  let closing ← (blockEnd (opening.group 1)).searchFrom opening.last
  return ⟨String.ofList (Text.trim (opening.group 2)),
    String.ofList (Text.trimNewlines (Text.dedent (opening.last.textTo closing.first)))⟩

namespace Relocation

/-- The segments of a qualified constant. -/
def segments (constant : String) : List String :=
  (Text.splitOn "::".toList constant.toList).map String.ofList

/-- The last segment of a constant. -/
def lastName (constant : String) : String := (segments constant).getLast?.getD ""

/-- The name of the class before the move. -/
def oldName (r : Relocation) : String := lastName r.oldConstant

/-- The name of the class after the move. -/
def newName (r : Relocation) : String := lastName r.newConstant

/-- Two spaces for every level. -/
def pad (depth : Nat) : String := String.ofList (List.replicate (2 * depth) ' ')

/-- Puts lines into nested modules, from level `depth` on. Empty lines stay empty. -/
def nest (depth : Nat) (inner : List String) : (modules : List String) → List String
  | [] => inner.map fun line => if line.isEmpty then line else pad depth ++ line
  | m :: modules =>
    (pad depth ++ "module " ++ m) :: nest (depth + 1) inner modules ++ [pad depth ++ "end"]

/-- Lines as a text that ends with a line feed. -/
def ofLines (lines : List String) : String := String.intercalate "\n" lines ++ "\n"

/-- The class in its new namespace. -/
def movedClass (r : Relocation) (c : ClassText) : String :=
  let opening := "class " ++ r.newName ++ (if c.superclass.isEmpty then "" else " " ++ c.superclass)
  let body := if c.body.isEmpty then [] else
    (Text.splitChar '\n' (Text.indent "  ".toList c.body.toList)).map String.ofList
  ofLines (nest 0 (opening :: body ++ ["end"]) (segments r.newConstant).dropLast)

/-- How a file begins that a class has moved out of. -/
def stubHeader : String := "# upshift: forwarding stub"

/-- What stays behind: an alias of the old name for the new one. -/
def stub (r : Relocation) : String :=
  ofLines
    ([stubHeader ++ ". " ++ r.oldConstant ++ " moved to " ++ r.newConstant ++ ".",
      "# Remove this file once nothing references " ++ r.oldConstant ++ ".",
      ""] ++
      nest 0 [r.oldName ++ " = ::" ++ r.newConstant] (segments r.oldConstant).dropLast)

/-- The old name in other files, not as the end of a longer name. -/
def references (r : Relocation) : Pattern :=
  let word := Pattern.CharItem.kind .word false false
  let before := CharSet.ofItems (if r.bare then [word, .one ':'] else [word])
  { source := r.oldConstant
    expr := .concat [.look 1 false (.one before), .literal r.oldConstant.toList,
      .anchor (.wordEdge false)]
    groups := 0
    names := [] }

/-- Points the references in a text at the new name. -/
def redirect (r : Relocation) (text : List Char) : Except Pattern.TemplateError (List Char) :=
  r.references.replaceTemplate r.newConstant text

end Relocation

end RailsUpgrade
