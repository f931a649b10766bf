import RailsUpgrade.Ordered
import RailsUpgrade.Text.Lines

/-!
# `RailsUpgrade.Path.Braces`: alternatives in braces

A brace group lists alternatives with commas between them. `expand` writes the alternatives out,
the first group without inner braces first, until no such group is left. The options come in the
order in which they are written, and none comes twice.
-/

set_option autoImplicit false

namespace RailsUpgrade.Braces

/-- A text around its first brace group without inner braces. -/
structure Split where
  left : List Char
  inner : List Char
  right : List Char
  deriving DecidableEq, Repr

/-- What stands before the next brace, if that is a closing one, and what follows it. -/
@[grind =] def innerOf? : List Char → Option (List Char × List Char)
  | [] => none
  | c :: rest =>
    if c == '\x7d' then some ([], rest)
    else if c == '\x7b' then none
    else (innerOf? rest).map fun (inner, right) => (c :: inner, right)

/-- Finds the first brace group without inner braces. -/
@[grind =] def split? : List Char → Option Split
  | [] => none
  | c :: rest =>
    match if c == '\x7b' then innerOf? rest else none with
    | some (inner, right) => some ⟨[], inner, right⟩
    | none => (split? rest).map fun s => { s with left := c :: s.left }

/-- Expands at most `fuel` groups, one inside the other's result. -/
@[grind =] def expandWith : Nat → List Char → List (List Char)
  | 0, s => [s]
  | fuel + 1, s => match split? s with
    | none => [s]
    | some ⟨left, inner, right⟩ =>
      (Text.splitChar ',' inner).foldl
        (fun seen option => addNew seen (expandWith fuel (left ++ option ++ right))) []

/-- All texts that a text with brace groups stands for. Every step removes an opening brace, so
their number bounds the steps. -/
def expand (s : String) : List String :=
  (expandWith (s.toList.count '\x7b') s.toList).map String.ofList

end RailsUpgrade.Braces
