import RailsUpgrade.Text.Lines
import RailsUpgrade.Text.Number
import RailsUpgrade.Text.Quoted

/-!
# `RailsUpgrade.Version`: release numbers and what rules ask of them

A version text is a sequence of numbers with dots between them, blanks around it not counting.
Numbers that are missing are zero and those past the third are ignored, so every version text
stands for a `Version` of three numbers, ordered from the left. A number with more digits than
`Text.digitLimit` is refused.

A `Constraint` compares the target of a run with a version. `Constraint.admits` decides: what
cannot be understood, on either side, is not admitted. `Constraint.overlong?` tells when a number
with too many digits ends the comparison instead.
-/

set_option autoImplicit false

namespace RailsUpgrade

/-- A release: major, minor and patch number. -/
structure Version where
  major : Nat
  minor : Nat
  patch : Nat
  deriving DecidableEq, Repr

namespace Version

/-- `a` comes before `b`. -/
def before (a b : Version) : Bool :=
  a.major < b.major || (a.major == b.major &&
    (a.minor < b.minor || (a.minor == b.minor && a.patch < b.patch)))

/-- What stands between the dots of a version text. -/
def fields (text : String) : List (List Char) := Text.splitChar '.' (Text.trim text.toList)

/-- Why a text is no version. -/
inductive Fault where
  | notDotted
  /-- A number with too many digits. -/
  | overlong (number : Text.Overlong)
  deriving DecidableEq, Repr

/-- Reads a version text. -/
def parse (text : String) : Except Fault Version :=
  match (fields text).mapM Text.number? with
  | none => .error .notDotted
  | some parts => match (fields text).findSome? Text.overlong? with
    | some number => .error (.overlong number)
    | none => .ok ⟨parts.getD 0 0, parts.getD 1 0, parts.getD 2 0⟩

/-- The version that a text stands for. -/
def parse? (text : String) : Option Version := (parse text).toOption

/-- The number that is too long in a version text. -/
def overlong? (text : String) : Option Text.Overlong :=
  match parse text with
  | .error (.overlong number) => some number
  | _ => none

/-- The release line of a version, as text: `7.0`. -/
def line (v : Version) : String := toString v.major ++ "." ++ toString v.minor

/-- The first version of the next release line. -/
def nextLine (v : Version) : Version := ⟨v.major, v.minor + 1, 0⟩

end Version

/-- How a target is compared with a version. -/
inductive Comparison where
  | equal
  | atLeast
  | above
  | atMost
  | below
  /-- In the same release line, and not older. -/
  | sameLine
  deriving DecidableEq, Repr

/-- Reads a comparison. -/
def Comparison.parse? (text : String) : Option Comparison :=
  match text with
  | "==" => some .equal
  | ">=" => some .atLeast
  | ">" => some .above
  | "<=" => some .atMost
  | "<" => some .below
  | "~>" => some .sameLine
  | _ => none

/-- How a comparison is written. -/
def Comparison.text : Comparison → String
  | .equal => "=="
  | .atLeast => ">="
  | .above => ">"
  | .atMost => "<="
  | .below => "<"
  | .sameLine => "~>"

/-- Whether the comparison holds of a target and the version wanted. -/
def Comparison.holds (c : Comparison) (target wanted : Version) : Bool :=
  match c with
  | .equal => target == wanted
  | .atLeast => !target.before wanted
  | .above => wanted.before target
  | .atMost => !wanted.before target
  | .below => target.before wanted
  | .sameLine => !target.before wanted && target.before wanted.nextLine

/-- What a rule asks of the target, as a text such as `>= 6.0` or in parts. -/
inductive Constraint where
  | text (text : String)
  | parts (parts : List String)
  deriving DecidableEq, Repr

namespace Constraint

/-- The comparison and the text of the version: two words, or two parts. -/
def pair? : Constraint → Option (Comparison × String)
  | .parts [operator, version] => (Comparison.parse? operator).map (·, version)
  | .parts _ => none
  | .text s => match Text.words s.toList with
    | [operator, version] =>
      (Comparison.parse? (String.ofList operator)).map (·, String.ofList version)
    | _ => none

/-- Reads a constraint. -/
def parse? (c : Constraint) : Option (Comparison × Version) := do
  let (comparison, version) ← c.pair?
  return (comparison, ← Version.parse? version)

/-- The number that is too long in the version of a constraint. -/
def overlongVersion? (c : Constraint) : Option Text.Overlong := c.pair?.bind fun p => Version.overlong? p.2

/-- The number that is too long for the comparison with a target. The target counts only if the
constraint is understood. -/
def overlong? (c : Constraint) (target : Option String) : Option Text.Overlong :=
  target.bind fun t => match c.overlongVersion? with
    | some number => some number
    | none => if c.parse?.isSome then Version.overlong? t else none

/-- Whether a target meets a constraint. -/
def admits (c : Constraint) (target : Option String) : Bool :=
  match target, c.parse? with
  | some t, some (comparison, wanted) =>
    (Version.parse? t).any fun current => comparison.holds current wanted
  | _, _ => false

/-- How messages show a constraint. -/
def shown : Constraint → String
  | .text s => Text.quoted s
  | .parts [] => "()"
  | .parts [p] => "(" ++ Text.quoted p ++ ",)"
  | .parts ps => "(" ++ String.intercalate ", " (ps.map Text.quoted) ++ ")"

end Constraint

/-- Whether a rule with this constraint is active for a target. Without a constraint it is. -/
def activeFor (target : Option String) (constraint : Option Constraint) : Bool :=
  constraint.all (·.admits target)

/-- Whether a version text is understood and not older than another. -/
def Version.atLeast (version : Option String) (minimum : String) : Bool :=
  (Constraint.parts [">=", minimum]).admits version

end RailsUpgrade
