import RailsUpgrade.Text.Classes

/-!
# `RailsUpgrade.Text.Number`: numbers spelled in digits

* `number?` reads decimal digits of any script.
* `looseNumber?` also takes blanks around them, a sign in front and single underscores between
  them.
* `digitLimit` bounds the length of a number. Every reader of numbers refuses a longer one, so
  reading takes a bounded time.
-/

set_option autoImplicit false

namespace RailsUpgrade.Text

/-- The most digits that a number may have. -/
def digitLimit : Nat := 4300

/-- A number that is refused, because it is spelled with too many digits. -/
structure Overlong where
  digits : Nat
  deriving DecidableEq, Repr

/-- What is said of a number with too many digits. -/
def Overlong.message (n : Overlong) : String :=
  "Exceeds the limit (" ++ toString digitLimit
    ++ " digits) for integer string conversion: value has " ++ toString n.digits
    ++ " digits; use sys.set_int_max_str_digits() to increase the limit"

/-- Digits that are too many for a number. -/
def overlong? (digits : List Char) : Option Overlong :=
  if digitLimit < digits.length then some ⟨digits.length⟩ else none

/-- What is said of a number that cannot be shown, because it would have too many digits. -/
def tooManyShown : String :=
  "Exceeds the limit (" ++ toString digitLimit
    ++ " digits) for integer string conversion; use sys.set_int_max_str_digits() to increase the limit"

/-- The number that decimal digits of any script spell. There has to be one. -/
def number? (digits : List Char) : Option Nat :=
  if digits.isEmpty then none
  else digits.foldlM (fun n c => (digitValue? c).map (10 * n + ·)) 0

/-- The number that decimal digits of ASCII spell. -/
def decimal (digits : List Char) : Nat := digits.foldl (fun n c => 10 * n + (c.toNat - 48)) 0

/-- Digits of any script with single underscores between them, onto `value`. `joined` tells
whether a digit has just been read. -/
def looseDigits? (value : Nat) (joined : Bool) : List Char → Option Nat
  | [] => if joined then some value else none
  | c :: rest =>
    if c == '_' && joined && !rest.isEmpty then looseDigits? value false rest
    else (digitValue? c).bind fun d => looseDigits? (10 * value + d) true rest

/-- A number that is not negative, with blanks around it and a sign if need be, within the limit. -/
def looseNumber? (s : List Char) : Option Nat :=
  if digitLimit < (s.filter isDigit).length then none
  else match trim s with
    | '+' :: digits => looseDigits? 0 false digits
    | '-' :: digits => (looseDigits? 0 false digits).filter (· == 0)
    | digits => looseDigits? 0 false digits

end RailsUpgrade.Text
