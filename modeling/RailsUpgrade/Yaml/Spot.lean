import RailsUpgrade.Yaml.Fault

/-!
# `RailsUpgrade.Yaml.Spot`: places in a document

A `Spot` is what is left of a document, together with how far into it that is: in characters, in
lines, and in columns of the line. The text past the end reads as NUL, which no document holds.
-/

set_option autoImplicit false

namespace RailsUpgrade.Yaml

/-- The character that stands for the end of a document. -/
def ending : Char := Char.ofNat 0

/-- Whether a character ends a line. Carriage returns are turned into line feeds beforehand. -/
def isBreak (c : Char) : Bool :=
  c == '\n' || c.toNat == 0x85 || c.toNat == 0x2028 || c.toNat == 0x2029

/-- Whether a character is a line break or the end. -/
def endsLine (c : Char) : Bool := c == ending || isBreak c

/-- Whether a character is a space, a line break or the end. -/
def endsWord (c : Char) : Bool := c == ' ' || endsLine c

/-- Whether a character is a space, a tab, a line break or the end. -/
def isGap (c : Char) : Bool := c == '\t' || endsWord c

/-- Whether a character is a space or a tab. -/
def isIndent (c : Char) : Bool := c == ' ' || c == '\t'

/-- Whether a character may stand in the name of an anchor, a handle or a directive. -/
def isNameChar (c : Char) : Bool := c.isAlphanum || c == '-' || c == '_'

/-- The value of a hexadecimal digit. -/
def hexValue? (c : Char) : Option Nat :=
  if c.isDigit || ('a' ≤ c && c ≤ 'f') || ('A' ≤ c && c ≤ 'F') then digitIn? 16 c else none

/-- What is left of a document, and where that is. -/
structure Spot where
  rest : List Char
  index : Nat := 0
  line : Nat := 0
  column : Nat := 0
  deriving DecidableEq, Repr

namespace Spot

/-- The next character. -/
def peek (s : Spot) : Char := s.rest.headD ending

/-- The character `n` after the next one. -/
def peekAt (s : Spot) (n : Nat) : Char := (s.rest[n]?).getD ending

/-- Passes over one character. A byte order mark takes up no column. -/
def step (s : Spot) : Spot :=
  match s.rest with
  | [] => s
  | c :: rest =>
    if isBreak c then ⟨rest, s.index + 1, s.line + 1, 0⟩
    else ⟨rest, s.index + 1, s.line, if c.toNat == 0xFEFF then s.column else s.column + 1⟩

/-- Passes over `n` characters. -/
def advance : Nat → Spot → Spot
  | 0, s => s
  | n + 1, s => advance n s.step

/-- The longest run of characters of a class, and what is after it. -/
def span (p : Char → Bool) (s : Spot) : List Char × Spot :=
  let run := s.rest.takeWhile p
  (run, s.advance run.length)

/-- Passes over the longest run of characters of a class. -/
def skipWhile (p : Char → Bool) (s : Spot) : Spot := (s.span p).2

/-- Passes over spaces. -/
def skipSpaces (s : Spot) : Spot := s.skipWhile (· == ' ')

/-- The line break that is next, as it counts in a scalar, and what is after it. -/
def lineBreak? (s : Spot) : Option (Char × Spot) :=
  let c := s.peek
  if c == '\n' || c.toNat == 0x85 then some ('\n', s.step)
  else if isBreak c then some (c, s.step)
  else none

/-- Whether one of the marks between documents is next. -/
def atMark (s : Spot) : Bool :=
  (s.rest.take 3 == "---".toList || s.rest.take 3 == "...".toList) && isGap (s.peekAt 3)

/-- Passes over the comment that is next, if there is one. -/
def skipComment (s : Spot) : Spot :=
  if s.peek == '#' then s.skipWhile fun c => !endsLine c else s

/-- Passes over the rest of a line that says nothing more. -/
def skipLine (s : Spot) : Except Fault Spot :=
  let s := s.skipSpaces.skipComment
  if endsLine s.peek then .ok ((s.lineBreak?.map (·.2)).getD s) else .error .malformed

/-- The number that exactly `n` hexadecimal digits spell, onto `value`. -/
def hex : Nat → Nat → Spot → Except Fault (Nat × Spot)
  | 0, value, s => .ok (value, s)
  | n + 1, value, s => match hexValue? s.peek with
    | some d => hex n (16 * value + d) s.step
    | none => .error .malformed

end Spot

end RailsUpgrade.Yaml
