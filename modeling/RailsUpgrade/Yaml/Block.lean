import RailsUpgrade.Yaml.Spot

/-!
# `RailsUpgrade.Yaml.Block`: scalars in lines of their own

A block scalar starts with a bar, which keeps its line breaks, or an angle bracket, which folds them
into spaces. A header may say how far in the lines lie and what becomes of the last line breaks.
-/

set_option autoImplicit false

namespace RailsUpgrade.Yaml

/-- What becomes of the line breaks at the end of a block scalar. -/
inductive Chomping where
  /-- One of them stays. -/
  | clip
  | strip
  | keep
  deriving DecidableEq, Repr

/-- The header of a block scalar. -/
structure BlockHeader where
  chomping : Chomping := .clip
  /-- How far in the lines lie, beyond the collection around them. -/
  increment : Option Nat := none
  deriving DecidableEq, Repr

namespace Spot

/-- The sign for the last line breaks, if it is next. -/
def chomping? (s : Spot) : Option (Chomping × Spot) :=
  if s.peek == '+' then some (.keep, s.step)
  else if s.peek == '-' then some (.strip, s.step)
  else none

/-- The digit for the margin, if it is next. It may not be zero. -/
def increment? (s : Spot) : Except Fault (Option Nat × Spot) :=
  if s.peek == '0' then .error .malformed
  else if s.peek.isDigit then .ok (some (s.peek.toNat - 48), s.step)
  else .ok (none, s)

/-- The header of a block scalar, with the rest of its line. -/
def blockHeader (s : Spot) : Except Fault (BlockHeader × Spot) := do
  let (header, s) ← match s.chomping? with
    | some (chomping, s) => do
      let (increment, s) ← s.increment?
      pure (BlockHeader.mk chomping increment, s)
    | none => do
      let (increment, s) ← s.increment?
      match increment, s.chomping? with
      | some n, some (chomping, s) => pure (BlockHeader.mk chomping (some n), s)
      | _, _ => pure (BlockHeader.mk .clip increment, s)
  if endsWord s.peek then return (header, ← s.skipLine) else throw .malformed

/-- Passes over spaces up to a column. -/
def indentTo (column : Nat) (s : Spot) : Spot :=
  s.advance ((s.rest.take (column - s.column)).takeWhile (· == ' ')).length

/-- Line breaks, with the spaces up to a margin after each of them. -/
def blockBreaks (margin : Nat) : Nat → Spot → List Char × Spot
  | 0, s => ([], s)
  | fuel + 1, s =>
    let s := s.indentTo margin
    match s.lineBreak? with
    | none => ([], s)
    | some (c, s) =>
      let (more, s) := blockBreaks margin fuel s
      (c :: more, s)

/-- Line breaks and spaces up to the first line that says something, and the greatest column that a
space in them ends at. -/
def blockMargin : Nat → Nat → Spot → List Char × Nat × Spot
  | 0, most, s => ([], most, s)
  | fuel + 1, most, s =>
    let s := s.skipSpaces
    let most := max most s.column
    match s.lineBreak? with
    | none => ([], most, s)
    | some (c, s) =>
      let (more, most, s) := blockMargin fuel most s
      (c :: more, most, s)

/-- The lines of a block scalar at a margin, after the line breaks `breaks`. Gives the text, and the
line breaks that the chomping decides on: the one after the last line and those after it. -/
def blockLines (folded : Bool) (margin : Nat) : Nat → List Char → Spot →
    List Char × List Char × List Char × Spot
  | 0, breaks, s => ([], [], breaks, s)
  | fuel + 1, breaks, s =>
    if s.column != margin || s.peek == ending then ([], [], breaks, s)
    else
      let flush := !isIndent s.peek
      let (line, s) := s.span fun c => !endsLine c
      let (last, s) := match s.lineBreak? with
        | some (c, s) => ([c], s)
        | none => ([], s)
      let (more, s) := s.blockBreaks margin (s.rest.length + 1)
      if s.column == margin && s.peek != ending then
        let join :=
          if folded && last == ['\n'] && flush && !isIndent s.peek then
            if more.isEmpty then [' '] else []
          else last
        let (text, rest) := blockLines folded margin fuel more s
        (breaks ++ line ++ join ++ text, rest)
      else (breaks ++ line, last, more, s)

/-- A block scalar, whose first sign is next, inside a collection whose entries lie at `least` or
further in. -/
def block (least : Nat) (s : Spot) : Except Fault (List Char × Spot) := do
  let folded := s.peek == '>'
  let (header, s) ← s.step.blockHeader
  let least := max least 1
  let fuel := s.rest.length + 1
  let (breaks, margin, s) := match header.increment with
    | some n =>
      let margin := least + n - 1
      let (breaks, s) := s.blockBreaks margin fuel
      (breaks, margin, s)
    | none =>
      let (breaks, most, s) := s.blockMargin fuel 0
      (breaks, max least most, s)
  let (text, last, after, s) := s.blockLines folded margin fuel breaks
  return (match header.chomping with
    | .clip => text ++ last
    | .strip => text
    | .keep => text ++ last ++ after, s)

end Spot

end RailsUpgrade.Yaml
