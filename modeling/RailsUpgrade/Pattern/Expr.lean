import RailsUpgrade.Pattern.CharSet

/-!
# `RailsUpgrade.Pattern.Expr`: patterns and how they match

An `Expr` is a pattern without its spelling. `Expr.run` matches it at a `Cursor` and hands every
end that it finds to a continuation, the preferred end first, until the continuation accepts one.
So alternatives are tried from left to right, a greedy repetition takes as many rounds as it can
and gives them back one by one, and a lazy one takes as few as it can.

A repetition that has done its least number of rounds stops after a round that took nothing. The
text that is left therefore bounds the rounds, and matching always ends.
-/

set_option autoImplicit false

namespace RailsUpgrade.Pattern

/-- What a group has matched, and the place after it. -/
structure Capture where
  text : List Char
  stop : Nat
  deriving Repr

/-- A place in a text, with the groups matched so far and where groups were entered, newest
first. `before` lists the characters on the left, nearest first, and `pos` counts them. -/
structure Cursor where
  before : List Char
  after : List Char
  pos : Nat
  groups : List (Nat × Capture) := []
  entered : List (Nat × Nat) := []
  deriving Repr

/-- The start of a text. -/
def Cursor.start (text : List Char) : Cursor := { before := [], after := text, pos := 0 }

/-- One character further to the right. -/
def Cursor.advance (c : Cursor) (x : Char) (rest : List Char) : Cursor :=
  { c with before := x :: c.before, after := rest, pos := c.pos + 1 }

/-- `n` characters back to the left, if there are so many. -/
def Cursor.back? (c : Cursor) : Nat → Option Cursor
  | 0 => some c
  | n + 1 => match c.before with
    | [] => none
    | x :: left => Cursor.back? { c with before := left, after := x :: c.after, pos := c.pos - 1 } n

/-- The text between a cursor and a later one. -/
def Cursor.textTo (first last : Cursor) : List Char := first.after.take (last.pos - first.pos)

/-- The text that a group matched last. -/
def Cursor.group? (c : Cursor) (i : Nat) : Option (List Char) := (c.groups.lookup i).map (·.text)

/-- Whether a group has matched. While it is being matched again it has only if its new start
does not lie past its old end. -/
def Cursor.hasGroup (c : Cursor) (i : Nat) : Bool :=
  (c.groups.lookup i).any fun g => (c.entered.lookup i).all (· ≤ g.stop)

/-- Begins group `i`. -/
def Cursor.enter (c : Cursor) (i : Nat) : Cursor := { c with entered := (i, c.pos) :: c.entered }

/-- Ends group `i`, which began at `first`. -/
def Cursor.capture (c : Cursor) (i : Nat) (first : Cursor) : Cursor :=
  { c with groups := (i, ⟨first.textTo c, c.pos⟩) :: c.groups }

/-- Passes over `text`, compared under `letters`. -/
def Cursor.skip? (letters : Letters) : (text : List Char) → Cursor → Option Cursor
  | [], c => some c
  | t :: text, c => match c.after with
    | [] => none
    | x :: rest =>
      if letters.key t == letters.key x then Cursor.skip? letters text (c.advance x rest) else none

/-- Places that take no text. -/
inductive Anchor where
  /-- The start of the text. -/
  | textStart
  /-- The start of the text or a place after a line feed. -/
  | lineStart
  /-- The end of the text. -/
  | textEnd
  /-- The end of the text or a place before a line feed. -/
  | lineEnd
  /-- The end of the text or the place before a line feed that ends it. -/
  | lastLineEnd
  /-- A place with a word character on exactly one side. -/
  | wordEdge (narrow : Bool)
  /-- A place with a word character on both sides or on none. -/
  | notWordEdge (narrow : Bool)
  deriving DecidableEq, Repr

/-- Whether the next character belongs to the word characters. -/
def startsWithWord (narrow : Bool) (side : List Char) : Bool :=
  side.head?.any (CharKind.word.mem narrow)

/-- Whether an anchor holds at a cursor. An empty text has no word edges of either kind. -/
def Anchor.holds (a : Anchor) (c : Cursor) : Bool :=
  match a with
  | .textStart => c.before.isEmpty
  | .lineStart => c.before.isEmpty || c.before.head? == some '\n'
  | .textEnd => c.after.isEmpty
  | .lineEnd => c.after.isEmpty || c.after.head? == some '\n'
  | .lastLineEnd => c.after.isEmpty || c.after == ['\n']
  | .wordEdge narrow => startsWithWord narrow c.before != startsWithWord narrow c.after
  | .notWordEdge narrow =>
    !(c.before.isEmpty && c.after.isEmpty)
      && startsWithWord narrow c.before == startsWithWord narrow c.after

/-- A pattern without its spelling. -/
inductive Expr where
  /-- Takes nothing. -/
  | empty
  /-- Takes one character of a set. -/
  | one (set : CharSet)
  /-- Takes nothing, at some places only. -/
  | anchor (a : Anchor)
  /-- One pattern, then another. -/
  | seq (p q : Expr)
  /-- One pattern or, failing that, another. -/
  | alt (p q : Expr)
  /-- A pattern whose text is kept under a number. -/
  | group (i : Nat) (p : Expr)
  /-- The text that a group has kept. -/
  | again (i : Nat) (letters : Letters)
  /-- At least `least` rounds of a pattern and at most `most`. -/
  | rep (p : Expr) (least : Nat) (most : Option Nat) (greedy : Bool)
  /-- Whether a pattern matches here, or that it does not, without taking its text. With
  `back` the pattern is matched that many characters further left. -/
  | look (back : Nat) (positive : Bool) (p : Expr)
  /-- A pattern whose first end is final. -/
  | atomic (p : Expr)
  /-- One pattern if a group has matched, and another if it has not. -/
  | ifGroup (i : Nat) (p q : Expr)
  deriving DecidableEq, Repr

/-- Matching in the style of `Expr.run`: from a cursor, with what is to follow. -/
abbrev Step := Cursor → (Cursor → Option Cursor) → Option Cursor

/-- Exactly `n` rounds of `body`. -/
def times (body : Step) : Nat → Step
  | 0, c, k => k c
  | n + 1, c, k => body c fun c' => times body n c' k

/-- Up to `most` further rounds of `body`. The list `fuel` has one character for each round that
is possible, and `last` is where the round before this one began. -/
def rounds (body : Step) (greedy : Bool) : (fuel : List Char) → (most last : Option Nat) → Step
  | [], _, _, c, k => k c
  | _ :: fuel, most, last, c, k =>
    if most == some 0 || last == some c.pos then k c
    else
      let again := fun (_ : Unit) =>
        body c fun c' => rounds body greedy fuel (most.map (· - 1)) (some c.pos) c' k
      if greedy then
        match again () with
        | some r => some r
        | none => k c
      else
        match k c with
        | some r => some r
        | none => again ()

/-- Matches a pattern at a cursor and hands its ends to `k`, in order of preference, until `k`
accepts one. -/
def Expr.run : Expr → Step
  | .empty, c, k => k c
  | .one set, c, k => match c.after with
    | [] => none
    | x :: rest => if set.mem x then k (c.advance x rest) else none
  | .anchor a, c, k => if a.holds c then k c else none
  | .seq p q, c, k => p.run c fun c' => q.run c' k
  | .alt p q, c, k => match p.run c k with
    | some r => some r
    | none => q.run c k
  | .group i p, c, k => p.run (c.enter i) fun c' => k (c'.capture i c)
  | .again i letters, c, k => match c.group? i with
    | none => none
    | some text => match Cursor.skip? letters text c with
      | none => none
      | some c' => k c'
  | .rep p least most greedy, c, k =>
    times p.run least c fun c' =>
      rounds p.run greedy ('.' :: c'.after) (most.map (· - least)) none c' k
  | .look back positive p, c, k =>
    match (c.back? back).bind fun c' => p.run c' some with
    | some r =>
      if positive then k { c with groups := r.groups, entered := r.entered } else none
    | none => if positive then none else k c
  | .atomic p, c, k => match p.run c some with
    | none => none
    | some c' => k c'
  | .ifGroup i p q, c, k => if c.hasGroup i then p.run c k else q.run c k

/-- The characters of a text, one after the other. -/
def Expr.literal : List Char → Expr
  | [] => .empty
  | [c] => .one (.single c)
  | c :: rest => .seq (.one (.single c)) (.literal rest)

/-- Patterns one after the other. -/
def Expr.concat : List Expr → Expr
  | [] => .empty
  | [p] => p
  | p :: rest => .seq p (.concat rest)

/-- The first of several patterns that matches. -/
def Expr.choice : Expr → List Expr → Expr
  | p, [] => p
  | p, q :: rest => .alt p (.choice q rest)

end RailsUpgrade.Pattern
