import RailsUpgrade.Yaml.Spot

/-!
# `RailsUpgrade.Yaml.Quoted`: scalars between quotes

Between single quotes only a doubled quote is special. Between double quotes a backslash starts an
escape. Blanks around a line break do not count: one break is a space, and of several breaks the
first one does not count. A scalar is read as code points, because an escape may spell a half of a
surrogate pair, which is no character.
-/

set_option autoImplicit false

namespace RailsUpgrade.Yaml

/-- The code point of an escape of one letter. -/
def escapeOf? (c : Char) : Option Nat :=
  match c with
  | '0' => some 0
  | 'a' => some 7
  | 'b' => some 8
  | 't' => some 9
  | '\t' => some 9
  | 'n' => some 10
  | 'v' => some 11
  | 'f' => some 12
  | 'r' => some 13
  | 'e' => some 27
  | ' ' => some 32
  | '\x22' => some 34
  | '/' => some 47
  | '\\' => some 92
  | 'N' => some 133
  | '_' => some 160
  | 'L' => some 8232
  | 'P' => some 8233
  | _ => none

/-- How many digits follow the letter of an escape by number. -/
def escapeWidth? (c : Char) : Option Nat :=
  match c with
  | 'x' => some 2
  | 'u' => some 4
  | 'U' => some 8
  | _ => none

namespace Spot

/-- The line breaks that are next, with the blanks in front of them and after them. The marks
between documents may not stand there. -/
def quotedBreaks : Nat → Spot → Except Fault (List Nat × Spot)
  | 0, s => .ok ([], s)
  | fuel + 1, s =>
    if s.atMark then .error .malformed
    else
      let s := s.skipWhile isIndent
      match s.lineBreak? with
      | none => .ok ([], s)
      | some (c, s) => do
        let (more, s) ← quotedBreaks fuel s
        return (c.toNat :: more, s)

/-- What an escape stands for, after its backslash. An escaped line break is nothing. -/
def escape (s : Spot) : Except Fault (List Nat × Spot) :=
  match escapeOf? s.peek with
  | some n => .ok ([n], s.step)
  | none => match escapeWidth? s.peek with
    | some width => do
      let (n, s) ← s.step.hex width 0
      if n < 0x110000 then return ([n], s) else throw (.codePoint n)
    | none => match s.lineBreak? with
      | some (_, s) => s.quotedBreaks s.rest.length
      | none => .error .malformed

/-- The part of a quoted scalar up to a gap or the closing quote. -/
def quotedWord (double : Bool) : Nat → Spot → Except Fault (List Nat × Spot)
  | 0, s => .ok ([], s)
  | fuel + 1, s =>
    let c := s.peek
    if isGap c || (double && c == '\x22') then .ok ([], s)
    else if double && c == '\\' then do
      let (codes, s) ← s.step.escape
      let (more, s) ← quotedWord double fuel s
      return (codes ++ more, s)
    else if !double && c == '\x27' then
      if s.peekAt 1 == '\x27' then do
        let (more, s) ← quotedWord double fuel (s.advance 2)
        return (c.toNat :: more, s)
      else .ok ([], s)
    else do
      let (more, s) ← quotedWord double fuel s.step
      return (c.toNat :: more, s)

/-- The gap between two parts of a quoted scalar. -/
def quotedGap (s : Spot) : Except Fault (List Nat × Spot) :=
  let (blanks, s) := s.span isIndent
  match s.lineBreak? with
  | some (c, s) => do
    let (breaks, s) ← s.quotedBreaks (s.rest.length + 1)
    if c != '\n' then return (c.toNat :: breaks, s)
    else if breaks.isEmpty then return ([32], s)
    else return (breaks, s)
  | none => if s.peek == ending then .error .malformed else .ok (blanks.map Char.toNat, s)

/-- The parts of a quoted scalar and the gaps between them, with the closing quote. -/
def quotedParts (double : Bool) : Nat → Spot → Except Fault (List Nat × Spot)
  | 0, _ => .error .malformed
  | fuel + 1, s => do
    let (word, s) ← s.quotedWord double s.rest.length
    if s.peek == (if double then '\x22' else '\x27') then return (word, s.step)
    else
      let (gap, s) ← s.quotedGap
      let (more, s) ← quotedParts double fuel s
      return (word ++ gap ++ more, s)

/-- A quoted scalar, whose opening quote is next. -/
def quoted (s : Spot) : Except Fault (List Nat × Spot) :=
  quotedParts (s.peek == '\x22') (s.rest.length + 1) s.step

end Spot

end RailsUpgrade.Yaml
