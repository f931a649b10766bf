import RailsUpgrade.Text.Classes

/-!
# `RailsUpgrade.Text.Lines`: lines, margins and newlines

* `unixNewlines` replaces every carriage return, alone or before a line feed, by a line feed.
* `splitOn` cuts at every occurrence of a separator; `join` puts the pieces together again.
* `keptLines` cuts after every line boundary, the boundaries kept.
* `words` are the runs between blanks.
* `dedent` takes the longest common margin of spaces and tabs off all lines, `indent` puts a
  margin in front of every line that is not blank.
-/

set_option autoImplicit false

namespace RailsUpgrade.Text

/-- Every carriage return, alone or with the line feed after it, becomes one line feed. -/
@[grind =] def unixNewlines : List Char → List Char
  | [] => []
  | '\r' :: '\n' :: rest => '\n' :: unixNewlines rest
  | c :: rest => (if c == '\r' then '\n' else c) :: unixNewlines rest

/-- The pieces of a text between the characters `sep`. There is always at least one piece. -/
@[grind =] def splitChar (sep : Char) : List Char → List (List Char)
  | [] => [[]]
  | c :: rest =>
    if c == sep then [] :: splitChar sep rest
    else match splitChar sep rest with
      | [] => [[c]]
      | piece :: pieces => (c :: piece) :: pieces

/-- What follows `lead` in a text that starts with it. -/
@[grind =] def stripLead? : (lead s : List Char) → Option (List Char)
  | [], s => some s
  | _ :: _, [] => none
  | x :: lead, c :: s => if x == c then stripLead? lead s else none

/-- Whether `part` stands somewhere in the text. -/
def hasPart (part : List Char) : List Char → Bool
  | [] => part.isEmpty
  | c :: rest => (stripLead? part (c :: rest)).isSome || hasPart part rest

/-- Cuts at the occurrences of a separator that is `sep` followed by `more`, from the left.
`skip` counts the characters of an occurrence that are still to be passed over. -/
@[grind =] def splitPart (sep : Char) (more : List Char) : Nat → List Char → List (List Char)
  | _, [] => [[]]
  | skip + 1, _ :: rest => splitPart sep more skip rest
  | 0, c :: rest =>
    if c == sep && (stripLead? more rest).isSome then [] :: splitPart sep more more.length rest
    else match splitPart sep more 0 rest with
      | [] => [[c]]
      | piece :: pieces => (c :: piece) :: pieces

/-- The pieces between the occurrences of a separator, from the left. An empty separator cuts
nowhere. -/
def splitOn (sep s : List Char) : List (List Char) :=
  match sep with
  | [] => [s]
  | c :: more => splitPart c more 0 s

/-- Puts pieces together with a separator between them. -/
@[grind =] def join (sep : List Char) : List (List Char) → List Char
  | [] => []
  | [piece] => piece
  | piece :: pieces => piece ++ sep ++ join sep pieces

/-- A character that ends a line: the line feed and its relatives of all scripts. -/
def isLineBreak (c : Char) : Bool :=
  let n := c.toNat
  (10 ≤ n && n ≤ 13) || (28 ≤ n && n ≤ 30) || n == 133 || n == 8232 || n == 8233

/-- The lines of a text, each with what ends it. A carriage return and a line feed after it are
one ending, and no empty line follows the last ending. -/
def keptLines : List Char → List (List Char)
  | [] => []
  | '\r' :: '\n' :: rest => ['\r', '\n'] :: keptLines rest
  | c :: rest =>
    if isLineBreak c then [c] :: keptLines rest
    else match keptLines rest with
      | [] => [[c]]
      | line :: lines => (c :: line) :: lines

/-- A space or a tab. -/
def isSpaceOrTab (c : Char) : Bool := c == ' ' || c == '\t'

/-- What two texts have in common at their start. -/
def sharedStart : List Char → List Char → List Char
  | x :: xs, y :: ys => if x == y then x :: sharedStart xs ys else []
  | _, _ => []

/-- The longest margin of spaces and tabs that all lines share. Empty lines have no say. -/
def sharedMargin (lines : List (List Char)) : List Char :=
  match (lines.filter (!·.isEmpty)).map (·.takeWhile isSpaceOrTab) with
  | [] => []
  | margin :: margins => margins.foldl sharedStart margin

/-- Empties the lines of spaces and tabs only, then takes the shared margin off every line. -/
def dedent (s : List Char) : List Char :=
  let lines := (splitChar '\n' s).map fun line => if line.all isSpaceOrTab then [] else line
  let margin := sharedMargin lines
  join ['\n'] (lines.map (·.drop margin.length))

/-- Puts `margin` in front of every line that is not blank. -/
def indent (margin s : List Char) : List Char :=
  (keptLines s).flatMap fun line => if line.all isBlank then line else margin ++ line

/-- The runs of characters between blanks. -/
@[grind =] def words : List Char → List (List Char)
  | [] => []
  | [c] => if isBlank c then [] else [[c]]
  | c :: d :: rest =>
    if isBlank c then words (d :: rest)
    else if isBlank d then [c] :: words (d :: rest)
    else match words (d :: rest) with
      | [] => [[c]]
      | word :: more => (c :: word) :: more

/-- A text without the line feeds at its ends. -/
def trimNewlines (s : List Char) : List Char :=
  ((s.dropWhile (· == '\n')).reverse.dropWhile (· == '\n')).reverse

end RailsUpgrade.Text
