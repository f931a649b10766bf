import RailsUpgrade.Calendar
import RailsUpgrade.Decimal.Literal
import RailsUpgrade.Text.Quoted

/-!
# `RailsUpgrade.Yaml.Fault`: why a document cannot be read

Most faults lie in the form of a document. The others lie in a scalar that has the form of a number,
a truth value or a time, and is none.
-/

set_option autoImplicit false

namespace RailsUpgrade.Yaml

/-- Why a document cannot be read. -/
inductive Fault where
  | malformed
  /-- An escape that stands for no code point. -/
  | codePoint (n : Nat)
  | number (fault : IntFault)
  | notAFloat (text : List Char)
  /-- A number without anything but a sign. -/
  | emptyNumber
  | notABool (word : List Char)
  | notATime
  | calendar (fault : CalendarFault)
  /-- A number in base 60 with more places than a float can hold. -/
  | tooManyPlaces
  deriving DecidableEq, Repr

/-- The least number that is too large even to ask whether it is a code point. -/
def codeLimit : Nat := 2147483648

/-- What is wrong with a document. -/
def Fault.message : Fault → String
  | .malformed => "The config file is not valid YAML"
  | .codePoint n =>
    if n < codeLimit then "chr() arg not in range(0x110000)"
    else "Python int too large to convert to C int"
  | .number (.notAnInteger base text) =>
    "invalid literal for int() with base " ++ toString base ++ ": "
      ++ Text.quoted (String.ofList text)
  | .number (.overlong n) => n.message
  | .notAFloat text => "could not convert string to float: " ++ Text.quoted (String.ofList text)
  | .emptyNumber => "string index out of range"
  | .notABool word => Text.quoted (String.ofList word)
  | .notATime => "'NoneType' object has no attribute 'groupdict'"
  | .calendar fault => fault.message
  | .tooManyPlaces => "int too large to convert to float"

end RailsUpgrade.Yaml
