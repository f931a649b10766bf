import RailsUpgrade.Pattern.CharSet
import RailsUpgrade.Text.Lines

/-!
# `RailsUpgrade.Glob.Segment`: wildcards in one name

A segment of a glob stands for names: a star for any characters, a question mark for one, and a set
in square brackets for one of its members. An exclamation mark negates a set, a hyphen between two
characters makes a range, and a closing bracket right at its start is a member. A bracket that is
not closed stands for itself.
-/

set_option autoImplicit false

namespace RailsUpgrade.Glob

open Pattern (CharSet CharItem)

/-- What one place of a segment stands for. -/
inductive Wildcard where
  | one (set : CharSet)
  | many
  deriving DecidableEq, Repr

/-- Whether a test holds of some end of a text. -/
def someEnd (p : List Char → Bool) : List Char → Bool
  | [] => p []
  | c :: rest => p (c :: rest) || someEnd p rest

/-- Whether a name has the form of a segment. -/
def fits : List Wildcard → List Char → Bool
  | [], name => name.isEmpty
  | .one set :: rest, name => match name with
    | [] => false
    | c :: name => set.mem c && fits rest name
  | .many :: rest, name => someEnd (fits rest) name

/-- Whether a character makes a segment more than a name. -/
def isMagicChar (c : Char) : Bool := c == '*' || c == '?' || c == '['

/-- Whether a segment is more than a name. -/
def isMagic (segment : List Char) : Bool := segment.any isMagicChar

/-- What stands before the first closing bracket, and what follows it. -/
def upToBracket? : List Char → Option (List Char × List Char)
  | [] => none
  | c :: rest =>
    if c == ']' then some ([], rest)
    else (upToBracket? rest).map fun (inner, rest) => (c :: inner, rest)

/-- The inside of a set, and what follows it. A closing bracket at the start, perhaps after an
exclamation mark, belongs to the inside. -/
def setInside? (s : List Char) : Option (List Char × List Char) :=
  let (mark, s) := match s with
    | '!' :: s => (['!'], s)
    | s => ([], s)
  let (first, s) := match s with
    | ']' :: s => ([']'], s)
    | s => ([], s)
  (upToBracket? s).map fun (inner, rest) => (mark ++ first ++ inner, rest)

/-- Cuts the inside of a set at the hyphens of its ranges. `wait` counts the characters that are
passed before a hyphen may make a range: one at the start, and the end and the next start after a
range. A hyphen at the very end is a member. -/
def rangeChunks (wait : Nat) (chunk : List Char) : List Char → List (List Char)
  | [] => [chunk]
  | '-' :: rest =>
    if wait == 0 then
      if rest.isEmpty then [chunk ++ ['-']] else chunk :: rangeChunks 2 [] rest
    else rangeChunks (wait - 1) (chunk ++ ['-']) rest
  | c :: rest => rangeChunks (wait - 1) (chunk ++ [c]) rest

/-- Whether the range between two chunks is empty. -/
def emptyRange (left right : List Char) : Bool :=
  match left.getLast?, right with
  | some lo, hi :: _ => hi.toNat < lo.toNat
  | _, _ => false

/-- Takes empty ranges out, the last one first. -/
def dropEmptyRanges : List (List Char) → List (List Char)
  | [] => []
  | chunk :: rest => match dropEmptyRanges rest with
    | [] => [chunk]
    | next :: more =>
      if emptyRange chunk next then (chunk.dropLast ++ next.drop 1) :: more
      else chunk :: next :: more

/-- The members of a set. Between two chunks is a range. -/
def setItems (chunk : List Char) : List (List Char) → List CharItem
  | [] => chunk.map .one
  | next :: more => match chunk.getLast?, next with
    | some lo, hi :: next =>
      chunk.dropLast.map .one ++ .range lo.toNat hi.toNat :: setItems next more
    | _, _ => chunk.map .one ++ .one '-' :: setItems next more

/-- The set with an inside. -/
def setOf (inside : List Char) : CharSet :=
  let wait := if inside.head? == some '!' then 2 else 1
  match dropEmptyRanges (rangeChunks wait [] inside) with
  | ('!' :: chunk) :: more => .butItems (setItems chunk more)
  | chunk :: more => .ofItems (setItems chunk more)
  | [] => .ofItems []

/-- Reads a segment. Every step passes at least one character. -/
def wildcardsWith : Nat → List Char → List Wildcard
  | 0, _ => []
  | _ + 1, [] => []
  | fuel + 1, '*' :: rest => .many :: wildcardsWith fuel rest
  | fuel + 1, '?' :: rest => .one (.butItems []) :: wildcardsWith fuel rest
  | fuel + 1, '[' :: rest => match setInside? rest with
    | none => .one (.single '[') :: wildcardsWith fuel rest
    | some (inside, rest) => .one (setOf inside) :: wildcardsWith fuel rest
  | fuel + 1, c :: rest => .one (.single c) :: wildcardsWith fuel rest

/-- Reads a segment. -/
def wildcards (segment : List Char) : List Wildcard := wildcardsWith segment.length segment

/-- Whether a name is hidden. -/
def isHiddenName (name : String) : Bool := name.toList.head? == some '.'

/-- Whether a segment stands for a name. Wildcards never stand for the dot of a hidden name. -/
def segmentFits (segment : List Char) (name : String) : Bool :=
  (segment.head? == some '.' || !isHiddenName name) && fits (wildcards segment) name.toList

end RailsUpgrade.Glob
