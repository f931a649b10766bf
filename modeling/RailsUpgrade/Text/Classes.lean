import RailsUpgrade.Text.HiddenTable
import RailsUpgrade.Text.NameTable
import RailsUpgrade.Text.WordTable

/-!
# `RailsUpgrade.Text.Classes`: character classes

The classes that patterns, version texts and quoted messages speak of: decimal digits of any
script with their value, blanks, word characters, the characters of names, and characters that a
quoted text spells out.
Each test asks for ASCII first and only then searches a table.
-/

set_option autoImplicit false

namespace RailsUpgrade.Text

/-- Whether `n` lies in one of the ascending `runs`. -/
def inRuns (n : Nat) : List (Nat × Nat) → Bool
  | [] => false
  | (lo, hi) :: rest => if n < lo then false else n ≤ hi || inRuns n rest

/-- The code points of the digits zero outside ASCII. Nine digits follow each of them. -/
def zeros : List Nat :=
  [1632, 1776, 1984, 2406, 2534, 2662, 2790, 2918, 3046, 3174, 3302, 3430, 3558, 3664, 3792, 3872,
   4160, 4240, 6112, 6160, 6470, 6608, 6784, 6800, 6992, 7088, 7232, 7248, 42528, 43216, 43264,
   43472, 43504, 43600, 44016, 65296, 66720, 68912, 69734, 69872, 69942, 70096, 70384, 70736,
   70864, 71248, 71360, 71472, 71904, 72016, 72784, 73040, 73120, 92768, 92864, 93008, 120782,
   120792, 120802, 120812, 120822, 123200, 123632, 125264, 130032]

/-- The value of a decimal digit of any script. -/
def digitValue? (c : Char) : Option Nat :=
  if c.isDigit then some (c.toNat - 48)
  else if c.toNat < 128 then none
  else (zeros.find? fun z => z ≤ c.toNat && c.toNat ≤ z + 9).map (c.toNat - ·)

/-- A decimal digit of any script. -/
def isDigit (c : Char) : Bool := (digitValue? c).isSome

/-- Blanks outside ASCII, as ascending runs. -/
def wideBlankRuns : List (Nat × Nat) :=
  [(133, 133), (160, 160), (5760, 5760), (8192, 8202), (8232, 8233), (8239, 8239), (8287, 8287),
   (12288, 12288)]

/-- White space: the ASCII blanks, the ASCII separators 28 to 31, and the spaces of other
scripts. -/
def isBlank (c : Char) : Bool :=
  let n := c.toNat
  (9 ≤ n && n ≤ 13) || (28 ≤ n && n ≤ 32) || (128 ≤ n && inRuns n wideBlankRuns)

/-- A blank of ASCII in the narrow sense: space, tab, line feed, carriage return, form feed and
vertical tab. -/
def isNarrowBlank (c : Char) : Bool :=
  c == ' ' || (9 ≤ c.toNat && c.toNat ≤ 13)

/-- A letter, digit or underscore of ASCII. -/
def isNarrowWord (c : Char) : Bool := c.isAlphanum || c == '_'

/-- A letter or numeral of any script, or an underscore. -/
def isWord (c : Char) : Bool :=
  if c.toNat < 128 then isNarrowWord c else inRuns c.toNat wordRuns

/-- A character that may start a name: a letter of any script or an underscore. -/
def startsName (c : Char) : Bool :=
  if c.toNat < 128 then c.isAlpha || c == '_'
  else (isWord c && !inRuns c.toNat unnamedRuns) || inRuns c.toNat namingRuns

/-- A character that may stand in a name after the first one: digits and marks too. -/
def continuesName (c : Char) : Bool :=
  if c.toNat < 128 then isNarrowWord c else startsName c || inRuns c.toNat joiningRuns

/-- A name: a letter or underscore, then letters, digits, marks and underscores. -/
def isName : List Char → Bool
  | [] => false
  | c :: rest => startsName c && rest.all continuesName

/-- A character that a quoted text shows as an escape. -/
def isHidden (c : Char) : Bool :=
  let n := c.toNat
  if n < 128 then n < 32 || n == 127 else inRuns n hiddenRuns

/-- A text without the blanks at its ends. -/
def trim (s : List Char) : List Char :=
  ((s.dropWhile isBlank).reverse.dropWhile isBlank).reverse

end RailsUpgrade.Text
