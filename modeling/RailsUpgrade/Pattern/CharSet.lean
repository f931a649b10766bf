import RailsUpgrade.Text.Case

/-!
# `RailsUpgrade.Pattern.CharSet`: sets of characters

What one place of a pattern accepts: a list of characters, ranges and classes, possibly negated,
compared exactly or without regard to case. Without regard to case a character is lower-cased
first, and a member stands for every character of the same letter. Past the basic plane, which
ends with code point 65535, case is compared less well: a member among others stands for itself
alone, and a range for what lies in it or has its upper case in it.
-/

set_option autoImplicit false

namespace RailsUpgrade.Pattern

/-- The classes with an escape of their own. -/
inductive CharKind where
  | digit
  | blank
  | word
  deriving DecidableEq, Repr

/-- Whether a character belongs to a class, taken over all scripts or, if `narrow`, in ASCII. -/
def CharKind.mem (kind : CharKind) (narrow : Bool) (x : Char) : Bool :=
  match kind, narrow with
  | .digit, false => Text.isDigit x
  | .digit, true => x.isDigit
  | .blank, false => Text.isBlank x
  | .blank, true => Text.isNarrowBlank x
  | .word, false => Text.isWord x
  | .word, true => Text.isNarrowWord x

/-- How letters are compared: exactly, without regard to case in ASCII, or without regard to
case in all scripts. -/
inductive Letters where
  | exact
  | narrow
  | wide
  deriving DecidableEq, Repr

/-- The character that stands for `x` under a comparison of letters. -/
def Letters.key (letters : Letters) (x : Char) : Char :=
  match letters with
  | .exact => x
  | .narrow => x.toLower
  | .wide => Text.lower x

/-- One member of a set: a character, a range of code points, or a class or its complement. -/
inductive CharItem where
  | one (c : Char)
  | range (lo hi : Nat)
  | kind (kind : CharKind) (narrow negated : Bool)
  deriving DecidableEq, Repr

/-- Whether a code point lies in a range. -/
def inRange (lo hi n : Nat) : Bool := lo ≤ n && n ≤ hi

/-- The last code point of the basic plane. -/
def lastBasic : Nat := 0xFFFF

/-- Whether a range that leaves the basic plane accepts the key `x` of a character. -/
def pastBasic (lo hi : Nat) (x : Char) : Bool :=
  lastBasic < hi && (inRange lo hi x.toNat || inRange lo hi (Text.upper x).toNat)

/-- Whether a member accepts the key `x` of a character. `alone` tells whether it is the only
member of its set. -/
def CharItem.mem (letters : Letters) (alone : Bool) (item : CharItem) (x : Char) : Bool :=
  match item, letters with
  | .one c, .exact => x == c
  | .one c, .narrow => x == c.toLower
  | .one c, .wide =>
    if alone || c.toNat ≤ lastBasic then Text.sameLetter c x else x == c
  | .range lo hi, .exact => inRange lo hi x.toNat
  | .range lo hi, .narrow =>
    inRange lo hi x.toNat || inRange lo hi x.toUpper.toNat || pastBasic lo hi x
  | .range lo hi, .wide =>
    ((x :: Text.twins x).any fun y => (Text.lowerSources y).any (inRange lo (min hi lastBasic)))
      || pastBasic lo hi x
  | .kind k narrow negated, _ => k.mem narrow x != negated

/-- A set of characters. -/
structure CharSet where
  items : List CharItem
  negated : Bool
  letters : Letters
  deriving DecidableEq, Repr

/-- Whether a set accepts a character. -/
def CharSet.mem (s : CharSet) (x : Char) : Bool :=
  s.items.any (·.mem s.letters (s.items.length == 1) (s.letters.key x)) != s.negated

/-- The set of one character. -/
def CharSet.single (c : Char) : CharSet := ⟨[.one c], false, .exact⟩

/-- Exactly the members of a list, and nothing else. -/
def CharSet.ofItems (items : List CharItem) : CharSet := ⟨items, false, .exact⟩

/-- Everything but the members of a list. -/
def CharSet.butItems (items : List CharItem) : CharSet := ⟨items, true, .exact⟩

end RailsUpgrade.Pattern
