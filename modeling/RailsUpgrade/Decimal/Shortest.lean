import RailsUpgrade.Decimal.Binary64

/-!
# `RailsUpgrade.Decimal.Shortest`: the fewest digits that read back

`Binary64.shortest?` finds the shortest decimal that rounds to a binary number, and of those the
nearest. For one digit, two digits and so on it looks at the two neighbours of the number with that
many digits; the first count with a neighbour that reads back wins. `Binary64.text` writes the
digits without an exponent if the number lies between `10 ^ -4` and `10 ^ 16`.
-/

set_option autoImplicit false

namespace RailsUpgrade.Binary64

/-- A positive number as a ratio. -/
def ratio (m : Nat) (q : Int) : Nat × Nat :=
  if q < 0 then (m, Nat.pow 2 (-q).toNat) else (m * Nat.pow 2 q.toNat, 1)

/-- The least `j` below a bound such that `num · 10 ^ (j + 1)` is at least `den`. -/
def leadingZeros (num den : Nat) : Nat :=
  ((List.range 400).find? fun j => num * Nat.pow 10 (j + 1) ≥ den).getD 0

/-- The place of the decimal point: the number lies between `10 ^ (point - 1)` and `10 ^ point`. -/
def pointOf (num den : Nat) : Int :=
  if num ≥ den then digitCount (num / den) else -(leadingZeros num den : Int)

/-- Whether `n · 10 ^ e` rounds to `m · 2 ^ q`. -/
def readsBack (m : Nat) (q : Int) (n : Nat) (e : Int) : Bool :=
  ofDecimal false n e == .finite false m q

/-- The neighbours of `num / den` on the grid of multiples of `10 ^ e`, and twice the distance from
the lower one as a share of the grid. -/
def neighbours (num den : Nat) (e : Int) : Nat × Ordering :=
  let (a, b) := if e < 0 then (num * Nat.pow 10 (-e).toNat, den) else (num, den * Nat.pow 10 e.toNat)
  (a / b, compare (2 * (a % b)) b)

/-- The preferred neighbour on a grid among those that read back: the nearer one, and of two that
are equally near the even one. -/
def onGrid? (m : Nat) (q : Int) (num den : Nat) (e : Int) : Option Nat :=
  let (n, half) := neighbours num den e
  let low := readsBack m q n e
  let high := readsBack m q (n + 1) e
  match low, high with
  | true, true => match half with
    | .lt => some n
    | .gt => some (n + 1)
    | .eq => some (n + n % 2)
  | true, false => some n
  | false, true => some (n + 1)
  | false, false => none

/-- The shortest decimal that reads back: its digits and the exponent of the last one. -/
def shortest? (m : Nat) (q : Int) : Option (Nat × Int) :=
  let (num, den) := ratio m q
  let point := pointOf num den
  (List.range 17).findSome? fun i =>
    let e := point - (i + 1 : Nat)
    (onGrid? m q num den e).map (·, e)

/-- A decimal with its point. `point` is where it stands, counted from the first digit. -/
def placed (digits : List Char) (point : Int) : List Char :=
  if point ≤ 0 then "0.".toList ++ List.replicate (-point).toNat '0' ++ digits
  else if digits.length ≤ point.toNat then
    digits ++ List.replicate (point.toNat - digits.length) '0' ++ ".0".toList
  else digits.take point.toNat ++ '.' :: digits.drop point.toNat

/-- A decimal with an exponent of at least two digits. -/
def withExponent (digits : List Char) (point : Int) : List Char :=
  let e := point - 1
  let mantissa := match digits with
    | d :: (r :: more) => d :: '.' :: r :: more
    | short => short
  let size := Nat.toDigits 10 e.natAbs
  mantissa ++ 'e' :: (if e < 0 then '-' else '+')
    :: (if size.length < 2 then '0' :: size else size)

/-- How a number is written: the fewest digits that read back, with an exponent outside of
`10 ^ -4` to `10 ^ 16`. -/
def text : Binary64 → String
  | .notANumber => "nan"
  | .infinite negative => if negative then "-inf" else "inf"
  | .finite negative m q =>
    let body := if m == 0 then "0.0".toList else match shortest? m q with
      | none => []
      | some (n, e) =>
        let all := Nat.toDigits 10 n
        let digits := (all.reverse.dropWhile (· == '0')).reverse
        let point := e + all.length
        if point ≤ -4 || point > 16 then withExponent digits point else placed digits point
    String.ofList (if negative then '-' :: body else body)

end RailsUpgrade.Binary64
