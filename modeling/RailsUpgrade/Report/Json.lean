import RailsUpgrade.Report.Outcome
import RailsUpgrade.Text.CodePoints
import RailsUpgrade.Text.Quoted

/-!
# `RailsUpgrade.Report.Json`: reports for programs

`Json` holds what a report needs of the data format. `Json.toText` writes a value over several lines,
two spaces for every level, in ASCII only: every other code point is spelled by its UTF-16 units.
`Outcome.json` is the report, for texts of any kind.
-/

set_option autoImplicit false

namespace RailsUpgrade

open Text (CodePoint Coded)

/-- The part of the data format that reports use. Members of an object keep their order. -/
inductive Json where
  | bool (b : Bool)
  | text (s : List CodePoint)
  | list (items : List Json)
  | object (members : List (String × Json))
  deriving Repr

namespace Json

/-- A UTF-16 unit, spelled out. -/
def unit (n : Nat) : List Char := '\\' :: 'u' :: Text.hexDigits 4 n

/-- How a quoted text spells a code point. -/
def quotedPoint (p : CodePoint) : List Char :=
  let is (c : Char) : Bool := p.val == c.toNat
  if is '\x22' || is '\\' then ['\\', Char.ofNat p]
  else if is '\n' then ['\\', 'n']
  else if is '\r' then ['\\', 'r']
  else if is '\t' then ['\\', 't']
  else if is '\x08' then ['\\', 'b']
  else if is '\x0c' then ['\\', 'f']
  else if 32 ≤ p.val && p.val < 127 then [Char.ofNat p]
  else if p.val < 65536 then unit p
  else
    let n := p.val - 65536
    unit (55296 + n / 1024) ++ unit (56320 + n % 1024)

/-- A text in quotes. -/
def quoted {T : Type} [Coded T] (s : T) : List Char :=
  '\x22' :: (Coded.points s).flatMap quotedPoint ++ ['\x22']

/-- The start of a line at a level. -/
def newLine (level : Nat) : List Char := '\n' :: List.replicate (2 * level) ' '

mutual

/-- Writes a value that stands at a level. -/
def write (level : Nat) : Json → List Char
  | .bool b => (if b then "true" else "false").toList
  | .text s => quoted s
  | .list [] => ['[', ']']
  | .list (item :: items) =>
    '[' :: newLine (level + 1) ++ write (level + 1) item ++ writeItems (level + 1) items
      ++ newLine level ++ [']']
  | .object [] => ['\x7b', '\x7d']
  | .object ((key, value) :: members) =>
    '\x7b' :: newLine (level + 1) ++ quoted key ++ [':', ' '] ++ write (level + 1) value
      ++ writeMembers (level + 1) members ++ newLine level ++ ['\x7d']

/-- Writes the items of a list after the first. -/
def writeItems (level : Nat) : List Json → List Char
  | [] => []
  | item :: items => ',' :: newLine level ++ write level item ++ writeItems level items

/-- Writes the members of an object after the first. -/
def writeMembers (level : Nat) : List (String × Json) → List Char
  | [] => []
  | (key, value) :: members =>
    ',' :: newLine level ++ quoted key ++ [':', ' '] ++ write level value
      ++ writeMembers level members

end

/-- Writes a value. -/
def toText (j : Json) : String := String.ofList (write 0 j)

/-- A text as a value. -/
def ofText {T : Type} [Coded T] (s : T) : Json := .text (Coded.points s)

end Json

namespace Outcome

open Json (ofText)

variable {T : Type} [DecidableEq T] [Coded T]

/-- A finding, with its status unless this is an analysis. -/
def findingJson (o : Outcome T) (analysis : Bool) (f : Finding T) : Json :=
  .object
    ([("file", ofText f.file), ("message", ofText f.message), ("pattern", ofText f.source)]
      ++ if analysis then [] else [("fixed", .bool (o.isFixed f))])

/-- The outcome as a value. -/
def toJson (o : Outcome T) (analysis : Bool) : Json :=
  .object
    ([("summary", ofText (o.summary analysis)),
      ("issues", .list (o.findings.map (o.findingJson analysis)))]
      ++ if analysis then [] else [("changed_files", .list (o.changed.map ofText))])

/-- The report for programs. -/
def json (o : Outcome T) (analysis : Bool) : String := (o.toJson analysis).toText

end Outcome

end RailsUpgrade
