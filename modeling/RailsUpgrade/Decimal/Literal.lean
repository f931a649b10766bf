import RailsUpgrade.Decimal.Binary64
import RailsUpgrade.Text.Case
import RailsUpgrade.Text.Number

/-!
# `RailsUpgrade.Decimal.Literal`: integers and floats from texts

`intLiteral` reads an integer in a base and `floatLiteral?` a float in decimal, both with blanks
around them and a sign in front if need be. Digits may be those of any script.
-/

set_option autoImplicit false

namespace RailsUpgrade

/-- Why a text is no integer. -/
inductive IntFault where
  | notAnInteger (base : Nat) (text : List Char)
  | overlong (number : Text.Overlong)
  deriving DecidableEq, Repr

/-- A sign, as whether the number is negative, and what follows it. -/
def splitSign : List Char → Bool × List Char
  | '-' :: rest => (true, rest)
  | '+' :: rest => (false, rest)
  | rest => (false, rest)

/-- The value of a digit in a base up to sixteen. -/
def digitIn? (base : Nat) (c : Char) : Option Nat :=
  let value := match Text.digitValue? c with
    | some d => some d
    | none =>
      if 'a' ≤ c && c ≤ 'f' then some (c.toNat - 87)
      else if 'A' ≤ c && c ≤ 'F' then some (c.toNat - 55)
      else none
  value.filter (· < base)

/-- The letter that may stand after a zero in front of the digits of a base. -/
def baseLetter? (base : Nat) : Option Char :=
  match base with
  | 2 => some 'b'
  | 8 => some 'o'
  | 16 => some 'x'
  | _ => none

/-- Digits without the zero and the letter that tell their base. -/
def dropBase (base : Nat) : List Char → List Char
  | '0' :: c :: rest => if some c.toLower == baseLetter? base then rest else '0' :: c :: rest
  | digits => digits

/-- Reads an integer in a base. Only decimal integers are bounded in length. -/
def intLiteral (base : Nat) (text : List Char) : Except IntFault Int :=
  let (negative, digits) := splitSign (Text.trim text)
  let digits := dropBase base digits
  let bound := if base == 10 then Text.overlong? (digits.takeWhile Text.isDigit) else none
  match bound with
  | some number => .error (.overlong number)
  | none => match digits.mapM (digitIn? base) with
    | some (d :: ds) =>
      let n := (d :: ds).foldl (fun n d => base * n + d) 0
      .ok (if negative then -(n : Int) else n)
    | _ => .error (.notAnInteger base text)

/-- The value of a sequence of digits. -/
def digitsValue? (digits : List Char) : Option Nat :=
  digits.foldlM (fun n c => (Text.digitValue? c).map (10 * n + ·)) 0

/-- Reads a decimal: digits with perhaps a point among them, and perhaps an exponent. -/
def decimalLiteral? (negative : Bool) (s : List Char) : Option Binary64 := do
  let mantissa := s.takeWhile fun c => c != 'e' && c != 'E'
  let whole := mantissa.takeWhile (· != '.')
  let part := mantissa.drop (whole.length + 1)
  if whole.isEmpty && part.isEmpty then failure
  let digits ← digitsValue? (whole ++ part)
  let exponent : Int ← match s.drop mantissa.length with
    | [] => pure 0
    | _ :: exponent =>
      let (negative, digits) := splitSign exponent
      if digits.isEmpty then failure
      let e ← digitsValue? digits
      pure (if negative then -(e : Int) else e)
  return Binary64.ofDecimal negative digits (exponent - part.length)

/-- Reads a float: a decimal, or a word for infinity or for no number. -/
def floatLiteral? (text : List Char) : Option Binary64 :=
  let (negative, body) := splitSign (Text.trim text)
  let word := String.ofList (body.map Char.toLower)
  if word == "inf" || word == "infinity" then some (.infinite negative)
  else if word == "nan" then some .notANumber
  else decimalLiteral? negative body

end RailsUpgrade
