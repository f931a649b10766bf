import RailsUpgrade.Calendar
import RailsUpgrade.Decimal.Literal
import RailsUpgrade.Text.Lines

/-!
# `RailsUpgrade.Yaml.Tag`: what a scalar or a collection is meant to be

A tag is given in front of a node, or else it follows from the node's form. A plain scalar has the
form of nothing, a truth value, a number, a time, or else of a text:

* nothing is the empty scalar, `~` or `null`;
* truth values are `yes`, `no`, `on`, `off`, `true` and `false`;
* such words are in lower case, capitalized or in upper case;
* integers are decimal, binary after `0b`, octal after `0`, hexadecimal after `0x`, or in base 60
  with colons, and underscores in them do not count;
* numbers with a point may have an exponent, which needs a sign, or be infinite or no number;
* times are a day, or a day with a time of day.

`<<` stands for entries of other mappings and `=` for the value of a mapping.
-/

set_option autoImplicit false

namespace RailsUpgrade.Yaml

/-- What a node is meant to be. -/
inductive Tag where
  | null
  | bool
  | int
  | float
  | binary
  | time
  | orderedMap
  | pairs
  | set
  | text
  | list
  | map
  | merge
  | value
  | unknown
  deriving DecidableEq, Repr

/-- The start of the tags that have a meaning. -/
def tagLead : String := "tag:yaml.org,2002:"

/-- The tags that may be given, by what follows the start. -/
def tagNames : List (String × Tag) :=
  [("null", .null), ("bool", .bool), ("int", .int), ("float", .float), ("binary", .binary),
   ("timestamp", .time), ("omap", .orderedMap), ("pairs", .pairs), ("set", .set), ("str", .text),
   ("seq", .list), ("map", .map), ("merge", .merge), ("value", .value)]

/-- The tag that is spelled out. -/
def Tag.ofText (s : List Char) : Tag :=
  ((tagNames.find? fun e => s == tagLead.toList ++ e.1.toList).map (·.2)).getD .unknown

/-! ## The forms of plain scalars -/

/-- The three ways in which a word may be written: lower case, capitalized, upper case. -/
def spellings (word : String) : List (List Char) :=
  [word.toList, Text.capitalize word.toList, word.toList.map Char.toUpper]

/-- Whether a scalar is one of several words. -/
def isWordOf (words : List String) (s : List Char) : Bool :=
  words.any fun w => (spellings w).contains s

/-- Whether a character is a digit or an underscore. -/
def isDigitOrLine (c : Char) : Bool := c.isDigit || c == '_'

/-- Whether a text is a place of a number in base 60: below sixty, in one digit or two. -/
def isSixtieth : List Char → Bool
  | [d] => d.isDigit
  | [t, d] => '0' ≤ t && t ≤ '5' && d.isDigit
  | _ => false

/-- Whether a text is empty or an exponent with a sign. -/
def isExponent : List Char → Bool
  | [] => true
  | e :: sign :: digits =>
    (e == 'e' || e == 'E') && (sign == '-' || sign == '+') && !digits.isEmpty
      && digits.all Char.isDigit
  | _ => false

/-- Whether a text starts with a digit and goes on with digits and underscores. -/
def isWhole : List Char → Bool
  | [] => false
  | d :: rest => d.isDigit && rest.all isDigitOrLine

/-- Whether a text is a whole number in base 60 with several places. -/
def isBase60 (s : List Char) : Bool :=
  match Text.splitChar ':' s with
  | first :: place :: more => isWhole first && (place :: more).all isSixtieth
  | _ => false

/-- Whether a scalar without its sign has the form of a number with a point. -/
def isUnsignedFloat (s : List Char) : Bool :=
  let whole := s.takeWhile (· != '.')
  match s.drop whole.length with
  | [] => false
  | _ :: rest =>
    let part := rest.takeWhile isDigitOrLine
    (isWhole whole && isExponent (rest.drop part.length)) || (isBase60 whole && rest.all isDigitOrLine)

/-- Whether a scalar is a point with digits after it. -/
def isFraction : List Char → Bool
  | '.' :: d :: rest => d.isDigit && isExponent (rest.dropWhile isDigitOrLine)
  | _ => false

/-- Whether a scalar has the form of a number with a point. -/
def isFloat (s : List Char) : Bool :=
  let unsigned := (splitSign s).2
  isUnsignedFloat unsigned || isFraction s
    || [".inf", ".Inf", ".INF"].any (·.toList == unsigned)
    || [".nan", ".NaN", ".NAN"].any (·.toList == s)

/-- Whether a scalar has the form of an integer. -/
def isInt (s : List Char) : Bool :=
  let isHex (c : Char) : Bool := c == '_' || (digitIn? 16 c).isSome && c.toNat < 128
  match (splitSign s).2 with
  | ['0'] => true
  | '0' :: 'b' :: digits => !digits.isEmpty && digits.all fun c => c == '0' || c == '1' || c == '_'
  | '0' :: 'x' :: digits => !digits.isEmpty && digits.all isHex
  | '0' :: digits => digits.all fun c => ('0' ≤ c && c ≤ '7') || c == '_'
  | unsigned => isWhole unsigned || isBase60 unsigned

/-! ## Times -/

/-- A time of day as it is spelled: hour, minute, second, the digits after the point, and the offset
from universal time as whether it is negative, its hours and its minutes. -/
structure ClockText where
  hour : List Char
  minute : List Char
  second : List Char
  part : List Char
  offset : Option (Bool × List Char × List Char)
  deriving DecidableEq, Repr

/-- A time as it is spelled. -/
structure TimeText where
  year : List Char
  month : List Char
  day : List Char
  clock : Option ClockText
  deriving DecidableEq, Repr

/-- Digits at the start of a text, between `low` and `high` of them, and what follows. -/
def digitRun? (low high : Nat) (s : List Char) : Option (List Char × List Char) :=
  let run := (s.take high).takeWhile Char.isDigit
  if low ≤ run.length then some (run, s.drop run.length) else none

/-- What follows a character at the start of a text. -/
def after? (c : Char) : List Char → Option (List Char)
  | d :: rest => if d == c then some rest else none
  | [] => none

/-- Reads the offset from universal time at the end of a time. -/
def offset? (s : List Char) : Option (Option (Bool × List Char × List Char)) :=
  if s.isEmpty then some none
  else match s.dropWhile fun c => c == ' ' || c == '\t' with
    | ['Z'] => some (some (false, [], []))
    | sign :: rest => do
      if sign != '-' && sign != '+' then failure
      let (hours, rest) ← digitRun? 1 2 rest
      if rest.isEmpty then return some (sign == '-', hours, [])
      let (minutes, rest) ← digitRun? 2 2 (← after? ':' rest)
      if rest.isEmpty then return some (sign == '-', hours, minutes) else failure
    | [] => none

/-- Reads a time of day. -/
def clock? (s : List Char) : Option ClockText := do
  let (hour, rest) ← digitRun? 1 2 s
  let (minute, rest) ← digitRun? 2 2 (← after? ':' rest)
  let (second, rest) ← digitRun? 2 2 (← after? ':' rest)
  let (part, rest) := match rest with
    | '.' :: rest => (rest.takeWhile Char.isDigit, rest.dropWhile Char.isDigit)
    | rest => ([], rest)
  return ⟨hour, minute, second, part, ← offset? rest⟩

/-- Reads a time: a day, and after a `T` or blanks a time of day. -/
def time? (s : List Char) : Option TimeText := do
  let (year, rest) ← digitRun? 4 4 s
  let (month, rest) ← digitRun? 1 2 (← after? '-' rest)
  let (day, rest) ← digitRun? 1 2 (← after? '-' rest)
  match rest with
  | [] => return ⟨year, month, day, none⟩
  | c :: rest =>
    if c == 'T' || c == 't' then return ⟨year, month, day, some (← clock? rest)⟩
    else if c == ' ' || c == '\t' then
      return ⟨year, month, day, some (← clock? (rest.dropWhile fun c => c == ' ' || c == '\t'))⟩
    else failure

/-- Whether a scalar has the form of a time. A day alone has two digits for month and day. -/
def isTime (s : List Char) : Bool :=
  match time? s with
  | none => false
  | some t => t.clock.isSome || (t.month.length == 2 && t.day.length == 2)

/-! ## Resolution -/

/-- A text without a line feed at its end. -/
def dropLineEnd (s : List Char) : List Char := if s.getLast? == some '\n' then s.dropLast else s

/-- What a plain scalar is meant to be. A line feed at its end does not count. -/
def Tag.ofForm (s : List Char) : Tag :=
  if s.isEmpty then .null
  else
    let s := dropLineEnd s
    if isWordOf ["yes", "no", "true", "false", "on", "off"] s then .bool
    else if isFloat s then .float
    else if isInt s then .int
    else if s == "<<".toList then .merge
    else if s == ['~'] || isWordOf ["null"] s then .null
    else if isTime s then .time
    else if s == ['='] then .value
    else if ["!", "&", "*"].any (·.toList == s) then .unknown
    else .text

end RailsUpgrade.Yaml
