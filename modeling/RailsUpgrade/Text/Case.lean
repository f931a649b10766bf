import RailsUpgrade.Text.CaseTable
import RailsUpgrade.Text.Classes

/-!
# `RailsUpgrade.Text.Case`: lower case, title case and matching without regard to case

* `lower` is the lower-case character that stands for a character when case does not matter.
* `lowered` lists the characters that a character becomes in a lower-cased text.
* `upper` is the upper-case character of a character, the first one if there are several.
* `capitalize` puts the first character in title case and lower-cases the rest. A capital sigma
  at the end of a word becomes a final sigma.
* `sameLetter` and `lowerSources` serve patterns that ignore case.
-/

set_option autoImplicit false

namespace RailsUpgrade.Text

/-- The code point that a run maps `n` to, if the run lists `n`. -/
def CaseRun.image? (r : CaseRun) (n : Nat) : Option Nat :=
  if r.first ≤ n && n ≤ r.last && (n - r.first) % r.step == 0 then some (n + r.shift).toNat
  else none

/-- The code point that a list of runs maps to `n`, for each run that has one. -/
def CaseRun.source? (r : CaseRun) (n : Nat) : Option Nat :=
  let m := ((n : Int) - r.shift).toNat
  if r.image? m == some n then some m else none

/-- The lower-case character that stands for `c` where case does not matter. -/
def lower (c : Char) : Char :=
  if c.toNat < 128 then c.toLower
  else if c.toNat == 304 then 'i'
  else ((lowerRuns.findSome? (·.image? c.toNat)).map Char.ofNat).getD c

/-- The characters of a lower-cased `c`. Only the capital I with a dot becomes two. -/
def lowered (c : Char) : List Char :=
  if c.toNat == 304 then ['i', Char.ofNat 775] else [lower c]

/-- The characters of `c` in title case. -/
def titled (c : Char) : List Char :=
  if c.toNat < 128 then [c.toUpper]
  else match titleExpansions.lookup c.toNat with
    | some codes => codes.map Char.ofNat
    | none => [((titleRuns.findSome? (·.image? c.toNat)).map Char.ofNat).getD c]

/-- The upper-case character of `c`, the first one if there are several. -/
def upper (c : Char) : Char :=
  match upperRuns.findSome? (·.image? c.toNat) with
  | some n => Char.ofNat n
  | none => (titled c).headD c

/-- Whether a capital sigma with `before` (nearest first) and `after` around it ends a word: a
letter precedes it and none follows, marks without case not counting. -/
def endsWord (before after : List Char) : Bool :=
  let nearest (side : List Char) : Option Char :=
    (side.dropWhile fun c => inRuns c.toNat caselessMarkRuns).head?
  let cased (c : Option Char) : Bool := c.any fun c => inRuns c.toNat casedRuns
  cased (nearest before) && !cased (nearest after)

/-- The lower-cased `s`, where `before` is what precedes it, nearest first. -/
def lowerAfter (before : List Char) : List Char → List Char
  | [] => []
  | c :: rest =>
    (if c.toNat == 931 then [Char.ofNat (if endsWord before rest then 962 else 963)]
      else lowered c) ++ lowerAfter (c :: before) rest

/-- The first character in title case and the rest in lower case. -/
def capitalize : List Char → List Char
  | [] => []
  | c :: rest => titled c ++ lowerAfter [c] rest

/-- The other lower-case characters that share the upper case of the lower-case `c`. -/
def twins (c : Char) : List Char :=
  ((lowerTwins.lookup c.toNat).getD []).map Char.ofNat

/-- Whether `x`, already lower-cased, is `c` where case does not matter. -/
def sameLetter (c x : Char) : Bool :=
  lower c == x || (twins (lower c)).contains x

/-- The characters that become `x` in lower case. -/
def lowerSources (x : Char) : List Nat :=
  (if lower x == x then [x.toNat] else [])
    ++ (if x.toNat < 128 && x.isLower then [x.toNat - 32] else [])
    ++ (if x == 'i' then [304] else [])
    ++ lowerRuns.filterMap (·.source? x.toNat)

end RailsUpgrade.Text
