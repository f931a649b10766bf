import RailsUpgrade.Settings.Value
import RailsUpgrade.Text.Base64
import RailsUpgrade.Yaml.Fault
import RailsUpgrade.Yaml.Tag

/-!
# `RailsUpgrade.Yaml.Scalar`: the values of scalars

`scalarValue` reads the value that a scalar stands for by its tag. The tag may have been given, so
the scalar need not have the form of it.
-/

set_option autoImplicit false

namespace RailsUpgrade.Yaml

/-- A number without its underscores and its sign, and whether it is negative. It has to have a
first character. -/
def unsigned (s : List Char) : Except Fault (Bool × List Char) :=
  match s.filter (· != '_') with
  | [] => .error .emptyNumber
  | digits => .ok (splitSign digits)

/-- Reads an integer in a base. -/
def integer (base : Nat) (s : List Char) : Except Fault Int :=
  (intLiteral base s).mapError .number

/-- Reads an integer: binary, hexadecimal, octal, in base 60, or decimal. -/
def intValue (s : List Char) : Except Fault Int := do
  let (negative, digits) ← unsigned s
  let n ← match digits with
    | [] => throw .emptyNumber
    | ['0'] => pure 0
    | '0' :: 'b' :: digits => integer 2 digits
    | '0' :: 'x' :: digits => integer 16 digits
    | '0' :: digits => integer 8 ('0' :: digits)
    | digits => do
      let places ← (Text.splitChar ':' digits).mapM (integer 10)
      pure (places.foldl (fun n place => 60 * n + place) 0)
  return if negative then -n else n

/-- Reads a float in decimal. -/
def float (s : List Char) : Except Fault Binary64 :=
  match floatLiteral? s with
  | some x => .ok x
  | none => .error (.notAFloat s)

/-- The sum of places in base 60, last place first. `weight` is the weight of the next place. -/
def sumPlaces (weight : Nat) (sum : Binary64) : List Binary64 → Except Fault Binary64
  | [] => .ok sum
  | place :: rest => match Binary64.ofRatio false weight 1 with
    | .finite negative m q =>
      sumPlaces (60 * weight) (sum.add (place.times (.finite negative m q))) rest
    | _ => .error .tooManyPlaces

/-- Reads a float: infinite, no number, in base 60, or in decimal. -/
def floatValue (s : List Char) : Except Fault Binary64 := do
  let (negative, digits) ← unsigned (Text.lowerAfter [] s)
  let x ←
    if digits == ".inf".toList then pure (.infinite false)
    else if digits == ".nan".toList then pure .notANumber
    else if digits.contains ':' then do
      let places ← (Text.splitChar ':' digits).mapM float
      sumPlaces 1 (.finite false 0 (-1074)) places.reverse
    else float digits
  return if negative then x.negate else x

/-- Reads a truth value. -/
def boolValue (s : List Char) : Except Fault Bool :=
  let word := Text.lowerAfter [] s
  if ["yes", "true", "on"].any (·.toList == word) then .ok true
  else if ["no", "false", "off"].any (·.toList == word) then .ok false
  else .error (.notABool word)

/-- The millionths of a second that digits after the point spell. -/
def micros (part : List Char) : Nat :=
  Text.decimal ((part ++ List.replicate 6 '0').take 6)

/-- The offset in minutes of an offset that is spelled out. -/
def offsetMinutes : Bool × List Char × List Char → Int
  | (negative, hours, minutes) =>
    let n : Int := 60 * Text.decimal hours + Text.decimal minutes
    if negative then -n else n

/-- A time that is in the calendar. -/
def timeOf (t : TimeText) : Except CalendarFault Value :=
  let day : Day := ⟨Text.decimal t.year, Text.decimal t.month, Text.decimal t.day⟩
  match t.clock with
  | none => match day.fault? with
    | some fault => .error fault
    | none => .ok (.day day)
  | some c =>
    let moment : Moment :=
      ⟨day, Text.decimal c.hour, Text.decimal c.minute, Text.decimal c.second, micros c.part,
        c.offset.map offsetMinutes⟩
    match moment.fault? with
    | some fault => .error fault
    | none => .ok (.moment moment)

/-- Reads a time. A line feed at its end does not count. -/
def timeValue (s : List Char) : Except Fault Value :=
  match time? (dropLineEnd s) with
  | some t => (timeOf t).mapError .calendar
  | none => .error .notATime

/-- The value of a scalar with a tag. -/
def scalarValue (tag : Tag) (text : List Char) (halved : Bool) : Except Fault Value :=
  match tag with
  | .null => .ok .null
  | .bool => (boolValue text).map .bool
  | .int => (intValue text).map .int
  | .float => (floatValue text).map .float
  | .text =>
    let s := String.ofList text
    .ok (if halved then .halved s else .text s)
  | .time => timeValue text
  | .binary =>
    match if text.all fun c => c.toNat < 128 then Text.ofBase64? text else none with
    | some bytes => .ok (.bytes bytes)
    | none => .error .malformed
  | _ => .error .malformed

end RailsUpgrade.Yaml
