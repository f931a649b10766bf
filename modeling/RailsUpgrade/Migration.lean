import RailsUpgrade.Pattern.Spelling
import RailsUpgrade.Version

/-!
# `RailsUpgrade.Migration`: migrations for a release

`Migration.update` gives the superclass of a migration the release line of the target and brings
its column helpers up to date. A text without a migration stays as it is.
-/

set_option autoImplicit false

namespace RailsUpgrade.Migration

open Pattern (Match)

/-- The header of a migration without a release line. Group 1 is its name. -/
def unversioned : Pattern := .fixed {} r"class\s+(\w+)\s+<\s+ActiveRecord::Migration\b(?!\[)"

/-- The header of a migration with a release line, in group 2. Group 1 is its name. -/
def versioned : Pattern :=
  .fixed {} r"class\s+(\w+)\s+<\s+ActiveRecord::Migration\[(\d+\.\d+)\]"

/-- Timestamps without a precision. Group 1 is the rest of the line. -/
def timestamps : Pattern :=
  .fixed {} r"t\.timestamps\b(?![ \t]*\()(?![^\n]*precision:)([^\n]*)"

/-- A reference without a foreign key. Group 1 is the method and group 2 the name. -/
def references : Pattern :=
  .fixed {} r"t\.(references|belongs_to)\s+:(\w+)(?![^\n]*(?:foreign_key|polymorphic))"

/-- A column of JSON. Group 1 is its name. -/
def jsonColumn : Pattern := .fixed .byLine r"t\.json\s+:(\w+)(?=[ \t]*$|\s*,)"

/-- The header of a migration for a release line. -/
def header (line : String) (m : Match) : List Char :=
  "class ".toList ++ m.group 1 ++ " < ActiveRecord::Migration[".toList ++ line.toList ++ "]".toList

/-- Timestamps with a precision, and what followed them on the line. -/
def preciseTimestamps (m : Match) : List Char :=
  let rest := Text.trim (m.group 1)
  "t.timestamps precision: 6".toList ++ match rest with
    | [] => []
    | '#' :: _ => ' ' :: rest
    | _ => ", ".toList ++ rest

/-- Brings column helpers up to date. Timestamps get a precision unless the migration was written
for a release line from 5.2 on, where they have one already. -/
def modernize (current : Option String) (text : List Char) : List Char :=
  let text := if Version.atLeast current "5.2.0" then text
    else timestamps.expr.replaceAll preciseTimestamps text
  let text := references.expr.replaceAll
    (fun m => "t.".toList ++ m.group 1 ++ " :".toList ++ m.group 2 ++ ", foreign_key: true".toList)
    text
  jsonColumn.expr.replaceAll
    (fun m => "t.jsonb :".toList ++ m.group 1 ++ ", default: \x7b\x7d".toList) text

/-- The text of a migration for a target. -/
def updated (target : Version) (text : List Char) : List Char :=
  match versioned.expr.search text with
  | some m =>
    modernize (some (String.ofList (m.group 2)))
      (versioned.expr.replaceAll (header target.line) text)
  | none =>
    if unversioned.found text then
      modernize none (unversioned.expr.replaceAll (header target.line) text)
    else text

/-- The number that is too long in the release line of a migration. -/
def overlong? (text : List Char) : Option Text.Overlong :=
  (versioned.expr.search text).bind fun m => Version.overlong? (String.ofList (m.group 2))

/-- Brings the text of a migration up to a target. A release line with too long a number is an
error. -/
def update (target : Version) (text : List Char) : Except Text.Overlong (List Char) :=
  match overlong? text with
  | some number => .error number
  | none => .ok (updated target text)

end RailsUpgrade.Migration
