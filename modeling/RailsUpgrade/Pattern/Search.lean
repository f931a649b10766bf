import RailsUpgrade.Pattern.Expr

/-!
# `RailsUpgrade.Pattern.Search`: the first match and all matches

* `Expr.search` finds the leftmost match from a cursor on.
* `Expr.pieces` cuts a text into the characters that no match takes and the matches, from left
  to right. After an empty match a match at the same place has to take something, and an empty
  match may follow a match that took something.
* `Expr.replaceAll` puts a text in place of every match, `Expr.replaceFirst` in place of the
  first.
-/

set_option autoImplicit false

namespace RailsUpgrade.Pattern

/-- A match, from its first place to the place after it. -/
structure Match where
  first : Cursor
  last : Cursor
  deriving Repr

/-- The matched text. -/
def Match.text (m : Match) : List Char := m.first.textTo m.last

/-- The text of a group of the match, empty if the group took no part. -/
def Match.group (m : Match) (i : Nat) : List Char := (m.last.group? i).getD []

/-- The text before the match. -/
def Match.left (m : Match) : List Char := m.first.before.reverse

/-- The text after the match. -/
def Match.right (m : Match) : List Char := m.last.after

/-- How many characters the match takes. -/
def Match.width (m : Match) : Nat := m.last.pos - m.first.pos

/-- The preferred match at a cursor. -/
def Expr.matchAt (e : Expr) (c : Cursor) : Option Match := (e.run c some).map (⟨c, ·⟩)

/-- The leftmost match from a place on, where `before` and `pos` describe what precedes it. -/
@[grind =] def Expr.searchIn (e : Expr) (before : List Char) (pos : Nat) : List Char → Option Match
  | [] => e.matchAt { before, after := [], pos }
  | c :: rest => match e.matchAt { before, after := c :: rest, pos } with
    | some m => some m
    | none => e.searchIn (c :: before) (pos + 1) rest

/-- The leftmost match in a text. -/
def Expr.search (e : Expr) (text : List Char) : Option Match := e.searchIn [] 0 text

/-- The leftmost match at or after a cursor. -/
def Expr.searchFrom (e : Expr) (c : Cursor) : Option Match := e.searchIn c.before c.pos c.after

/-- Whether a pattern matches somewhere in a text. -/
def Expr.found (e : Expr) (text : List Char) : Bool := (e.search text).isSome

/-- The matches that begin at a cursor: none, one, or an empty one and then the preferred one
that takes something. -/
def Expr.matchesAt (e : Expr) (c : Cursor) : List Match :=
  match e.run c some with
  | none => []
  | some r =>
    if r.pos == c.pos then
      ⟨c, r⟩ :: ((e.run c fun r' => if r'.pos == c.pos then none else some r').map (⟨c, ·⟩)).toList
    else [⟨c, r⟩]

/-- A part of a text that was searched: a character that no match takes, or a match. -/
inductive Piece where
  | kept (c : Char)
  | hit (m : Match)
  deriving Repr

/-- The pieces of a text from a place on. `skip` counts the characters of the match before it
that are still to be passed over. -/
@[grind =] def Expr.piecesIn (e : Expr) (before : List Char) (pos skip : Nat) : List Char → List Piece
  | [] => if skip == 0 then (e.matchesAt { before, after := [], pos }).map .hit else []
  | c :: rest => match skip with
    | skip + 1 => e.piecesIn (c :: before) (pos + 1) skip rest
    | 0 =>
      let hits := e.matchesAt { before, after := c :: rest, pos }
      hits.map .hit ++ match (hits.getLast?.map Match.width).getD 0 with
        | 0 => .kept c :: e.piecesIn (c :: before) (pos + 1) 0 rest
        | width + 1 => e.piecesIn (c :: before) (pos + 1) width rest

/-- A text cut into the characters that no match takes and the matches. -/
def Expr.pieces (e : Expr) (text : List Char) : List Piece := e.piecesIn [] 0 0 text

/-- What replacing the matches by `f` makes of a piece. -/
def Piece.replaced (f : Match → List Char) : Piece → List Char
  | .kept c => [c]
  | .hit m => f m

/-- A text with `f m` in place of every match `m`. -/
def Expr.replaceAll (e : Expr) (f : Match → List Char) (text : List Char) : List Char :=
  (e.pieces text).flatMap (Piece.replaced f)

/-- A text with `f m` in place of the first match `m`. -/
def Expr.replaceFirst (e : Expr) (f : Match → List Char) (text : List Char) : List Char :=
  match e.search text with
  | none => text
  | some m => m.left ++ f m ++ m.right

end RailsUpgrade.Pattern
