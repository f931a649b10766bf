import RailsUpgrade.Pattern.Template
import RailsUpgrade.Version

/-!
# `RailsUpgrade.Rule.Basic`: what rules look for and what they put in its place

A `Detection` reports files that its pattern matches. A `Repair` puts something in place of
every match of its pattern: a template, or a function of the matched text. A `StockRepair` is one
that comes with the library, and may look at the groups of the match and at the whole text.
-/

set_option autoImplicit false

namespace RailsUpgrade

/-- A pattern that is reported in every file that it matches. -/
structure Detection where
  pattern : Pattern
  message : String
  glob : String
  constraint : Option Constraint

/-- The spelling of a detection's pattern, under which repairs are filed. -/
def Detection.source (d : Detection) : String := d.pattern.source

/-- What a repair puts in place of a match. A function has a name to show it by. -/
inductive Replacement where
  | template (text : String)
  | function (name : String) (apply : List Char → List Char)

/-- A replacement for every match of a pattern. Repairs that are not `safe` only run on
request. -/
structure Repair where
  pattern : Pattern
  replacement : Replacement
  safe : Bool

/-- The spelling of a repair's pattern. -/
def Repair.source (r : Repair) : String := r.pattern.source

/-- Replaces every match in a text. Only a template can fail. -/
def Repair.apply (r : Repair) (text : List Char) : Except Pattern.TemplateError (List Char) :=
  match r.replacement with
  | .template t => r.pattern.replaceTemplate t text
  | .function _ f => .ok (r.pattern.expr.replaceAll (fun m => f m.text) text)

/-- A repair of the library: what is put in place of a match, given the whole text. -/
structure StockRepair where
  pattern : Pattern
  replace : (text : List Char) → Pattern.Match → List Char

/-- Replaces every match in a text. -/
def StockRepair.apply (r : StockRepair) (text : List Char) : List Char :=
  r.pattern.expr.replaceAll (r.replace text) text

/-- A detection that matched in a file. The texts are of one kind, which a report may leave open. -/
structure Finding (T : Type := String) where
  file : T
  message : T
  source : T
  deriving DecidableEq, Repr

end RailsUpgrade
