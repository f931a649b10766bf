/-!
# `RailsUpgrade.Decimal.Binary64`: decimals as binary floating-point numbers

A number with a point in a settings file is a binary number of double precision: `m · 2 ^ q` with
`m < 2 ^ 53` and `-1074 ≤ q ≤ 971`, or an infinity, or no number. `Binary64.ofDecimal` rounds a
decimal to the nearest such number, to the even one of two that are equally near. All arithmetic
is exact arithmetic on natural numbers.
-/

set_option autoImplicit false

namespace RailsUpgrade

/-- A binary number of double precision. -/
inductive Binary64 where
  /-- The number `m · 2 ^ q`, or its negative. -/
  | finite (negative : Bool) (m : Nat) (q : Int)
  | infinite (negative : Bool)
  | notANumber
  deriving DecidableEq, Repr

namespace Binary64

/-- `num / den`, rounded to the nearest natural number, to the even one of two. -/
def roundDiv (num den : Nat) : Nat :=
  let q := num / den
  let r := num % den
  if 2 * r < den then q else if 2 * r == den then q + q % 2 else q + 1

/-- `num / den` over `2 ^ q`, as a numerator and a denominator. -/
def scaled (num den : Nat) (q : Int) : Nat × Nat :=
  if q < 0 then (num * Nat.pow 2 (-q).toNat, den) else (num, den * Nat.pow 2 q.toNat)

/-- The exponent that gives `num / den` a significand of 53 bits, or the least one. -/
def exponentOf (num den : Nat) : Int :=
  let guess : Int := (num.log2 : Int) - den.log2 - 53
  let (a, b) := scaled num den guess
  max (-1074) (if a / b ≥ Nat.pow 2 53 then guess + 1 else guess)

/-- The nearest number to `num / den`, where `den` is not zero. -/
def ofRatio (negative : Bool) (num den : Nat) : Binary64 :=
  if num == 0 then .finite negative 0 (-1074)
  else
    let q := exponentOf num den
    let (a, b) := scaled num den q
    let m := roundDiv a b
    let (m, q) := if m == Nat.pow 2 53 then (Nat.pow 2 52, q + 1) else (m, q)
    if q > 971 then .infinite negative else .finite negative m q

/-- How many decimal digits a number has. -/
def digitCount (n : Nat) : Nat := (Nat.toDigits 10 n).length

/-- The nearest number to `digits · 10 ^ exponent`. Numbers far beyond either end of the range are
settled by their size. -/
def ofDecimal (negative : Bool) (digits : Nat) (exponent : Int) : Binary64 :=
  let size := exponent + digitCount digits
  if digits == 0 || size < -400 then .finite negative 0 (-1074)
  else if size > 400 then .infinite negative
  else if exponent < 0 then ofRatio negative digits (Nat.pow 10 (-exponent).toNat)
  else ofRatio negative (digits * Nat.pow 10 exponent.toNat) 1

/-- The nearest number to `n · 2 ^ q`. -/
def ofScaled (n : Int) (q : Int) : Binary64 :=
  if q < 0 then ofRatio (n < 0) n.natAbs (Nat.pow 2 (-q).toNat)
  else ofRatio (n < 0) (n.natAbs * Nat.pow 2 q.toNat) 1

/-- A significand with its sign. -/
def signed (negative : Bool) (m : Nat) : Int := if negative then -(m : Int) else m

/-- The sum of two numbers, rounded. -/
def add : Binary64 → Binary64 → Binary64
  | .finite a m q, .finite b n r =>
    let low := min q r
    ofScaled (signed a m * Nat.pow 2 (q - low).toNat + signed b n * Nat.pow 2 (r - low).toNat) low
  | .infinite a, .infinite b => if a == b then .infinite a else .notANumber
  | .infinite a, .finite _ _ _ | .finite _ _ _, .infinite a => .infinite a
  | _, _ => .notANumber

/-- The product of a number and a positive one, rounded. -/
def times : Binary64 → Binary64 → Binary64
  | .finite a m q, .finite _ n r =>
    if m * n == 0 then .finite a 0 (-1074) else ofScaled (signed a (m * n)) (q + r)
  | .infinite a, .finite _ _ _ | .finite a _ _, .infinite _ | .infinite a, .infinite _ => .infinite a
  | _, _ => .notANumber

/-- The number with the other sign. -/
def negate : Binary64 → Binary64
  | .finite negative m q => .finite (!negative) m q
  | .infinite negative => .infinite (!negative)
  | .notANumber => .notANumber

/-- Whether a number is the integer `n`. -/
def isInt (n : Int) : Binary64 → Bool
  | .finite negative m q =>
    if q < 0 then signed negative m == n * (Nat.pow 2 (-q).toNat : Nat)
    else signed negative m * (Nat.pow 2 q.toNat : Nat) == n
  | _ => false

/-- Whether the number is zero, of either sign. -/
def isZero : Binary64 → Bool
  | .finite _ m _ => m == 0
  | _ => false

/-- Whether two numbers are equal. Zero has no sign here, and what is no number equals itself. -/
def equals (x y : Binary64) : Bool := x == y || (x.isZero && y.isZero)

/-- Whether the number is whole and less than `2 ^ 63` in size. -/
def isWord : Binary64 → Bool
  | .finite _ m q =>
    if q < 0 then m % Nat.pow 2 (-q).toNat == 0 else m * Nat.pow 2 q.toNat < Nat.pow 2 63
  | _ => false

/-- Whether the number is one. -/
def isOne (x : Binary64) : Bool := x == ofRatio false 1 1

end Binary64

end RailsUpgrade
