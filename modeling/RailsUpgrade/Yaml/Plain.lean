import RailsUpgrade.Yaml.Spot

/-!
# `RailsUpgrade.Yaml.Plain`: scalars without quotes

A plain scalar ends at a colon in front of a gap, at a comment, and between brackets also at the
signs that brackets give a meaning. It goes on in the next line as long as that line lies further in
than the collection around it.
-/

set_option autoImplicit false

namespace RailsUpgrade.Yaml

/-- Whether a character has a meaning of its own between brackets. -/
def isFlowSign (c : Char) : Bool :=
  c == ',' || c == '[' || c == ']' || c == '\x7b' || c == '\x7d'

namespace Spot

/-- Whether a plain scalar ends here, between brackets or not. -/
def endsPlain (flow : Bool) (s : Spot) : Bool :=
  let c := s.peek
  isGap c || (c == ':' && (isGap (s.peekAt 1) || (flow && isFlowSign (s.peekAt 1))))
    || (flow && (isFlowSign c || c == '?'))

/-- The part of a plain scalar up to a gap or its end. -/
def plainWord (flow : Bool) : Nat → Spot → List Char × Spot
  | 0, s => ([], s)
  | fuel + 1, s =>
    if s.endsPlain flow then ([], s)
    else
      let (more, s') := plainWord flow fuel s.step
      (s.peek :: more, s')

/-- The line breaks that are next, with the spaces among them. None if one of the marks between
documents comes after a break. -/
def plainBreaks : Nat → Spot → Option (List Char) × Spot
  | 0, s => (some [], s)
  | fuel + 1, s =>
    if s.atMark && s.column == 0 then (none, s)
    else
      let s := s.skipSpaces
      match s.lineBreak? with
      | none => (some [], s)
      | some (c, s) =>
        let (more, s) := plainBreaks fuel s
        (more.map (c :: ·), s)

/-- The gap after a part of a plain scalar, whether it has a line break, and what is after it.
An empty gap ends the scalar. -/
def plainGap (s : Spot) : List Char × Bool × Spot :=
  let (blanks, s) := s.span (· == ' ')
  match s.lineBreak? with
  | none => (blanks, false, s)
  | some (c, s) =>
    let (breaks, s) := s.plainBreaks (s.rest.length + 1)
    let gap := match breaks with
      | none => []
      | some breaks =>
        if c != '\n' then c :: breaks else if breaks.isEmpty then [' '] else breaks
    (gap, true, s)

/-- The parts of a plain scalar and the gaps between them. Lines have to lie at `least` or further
in. Also tells whether the scalar ends after a line break. -/
def plainParts (flow : Bool) (least : Nat) : Nat → Bool → List Char → Spot →
    List Char × Bool × Spot
  | 0, broken, _, s => ([], broken, s)
  | fuel + 1, broken, gap, s =>
    let (word, s') := if s.peek == '#' then ([], s) else s.plainWord flow s.rest.length
    if word.isEmpty then ([], broken, s)
    else
      let (gap', broken, s'') := s'.plainGap
      if gap'.isEmpty || s''.peek == '#' || (!flow && s''.column < least) then
        (gap ++ word, broken, s'')
      else
        let (more, broken, s) := plainParts flow least fuel broken gap' s''
        (gap ++ word ++ more, broken, s)

/-- A plain scalar, whether it ends after a line break, and what is after it. -/
def plain (flow : Bool) (least : Nat) (s : Spot) : List Char × Bool × Spot :=
  plainParts flow least (s.rest.length + 1) false [] s

end Spot

end RailsUpgrade.Yaml
