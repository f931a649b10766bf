import RailsUpgrade.Report.Emoji
import RailsUpgrade.Report.Style
import RailsUpgrade.Text.Lines

/-!
# `RailsUpgrade.Report.Markup`: tags in messages

Messages to a terminal may hold tags in square brackets. A tag starts with a lower-case letter or
one of `#`, `/` and `@`, holds no opening bracket, and ends with the first closing one. A backslash
in front of a tag keeps it, and two stand for one.

`pieces` cuts a message into texts and tags. `plain` is a message without its tags and with the
pictures that it calls for. A tag that starts with a slash closes a style, and closing what was not
opened is a `MarkupFault`.
-/

set_option autoImplicit false

namespace RailsUpgrade.Report

/-- What a tag starts with. -/
def startsTag (c : Char) : Bool :=
  c.isLower || c == '#' || c == '/' || c == '@'

/-- What is left of a tag up to its closing bracket, and what follows the bracket. -/
@[grind =] def tagEnd? : List Char → Option (List Char × List Char)
  | [] => none
  | c :: rest =>
    if c == ']' then some ([], rest)
    else if c == '[' then none
    else (tagEnd? rest).map fun (tag, rest) => (c :: tag, rest)

/-- The tag at the start of a text without its brackets, and what follows it. -/
def tag? : List Char → Option (List Char × List Char)
  | '[' :: c :: rest =>
    if startsTag c then (tagEnd? rest).map fun (tag, rest) => (c :: tag, rest) else none
  | _ => none

/-- A piece of a message. -/
inductive Piece where
  | text (s : List Char)
  /-- A tag, and where its bracket stands in the message. -/
  | tag (place : Nat) (body : List Char)
  deriving DecidableEq, Repr

/-- A text as the first piece, unless it is empty. -/
def Piece.before (s : List Char) (pieces : List Piece) : List Piece :=
  if s.isEmpty then pieces else .text s :: pieces

/-- Cuts a message into pieces. `place` counts the characters before it, `sofar` holds those that
belong to the next piece, last one first, and `slashes` counts the backslashes after them. -/
@[grind =] def piecesWith : (fuel place slashes : Nat) → (sofar : List Char) → List Char → List Piece
  | 0, _, _, _, _ => []
  | _ + 1, _, slashes, sofar, [] => Piece.before (sofar.reverse ++ List.replicate slashes '\\') []
  | fuel + 1, place, slashes, sofar, c :: rest =>
    if c == '\\' then piecesWith fuel (place + 1) (slashes + 1) sofar rest
    else match tag? (c :: rest) with
      | none =>
        piecesWith fuel (place + 1) 0 (c :: List.replicate slashes '\\' ++ sofar) rest
      | some (body, rest) =>
        let next := piecesWith fuel (place + body.length + 2) 0 [] rest
        Piece.before sofar.reverse (Piece.before (List.replicate (slashes / 2) '\\')
          ((if slashes % 2 == 1 then .text ('[' :: body ++ [']']) else .tag place body) :: next))

/-- The pieces of a message. Every step passes at least one character. -/
def pieces (s : List Char) : List Piece := piecesWith (s.length + 1) 0 0 [] s

/-- A closing tag that closes nothing. -/
structure MarkupFault where
  place : Nat
  /-- The tag, unless it closes whatever is open. -/
  body : Option (List Char)
  deriving DecidableEq, Repr

/-- What is wrong with a message. -/
def MarkupFault.message (f : MarkupFault) : String :=
  let spot := " at position " ++ toString f.place
  match f.body with
  | some body =>
    "closing tag '[" ++ String.ofList body ++ "]'" ++ spot ++ " doesn't match any open tag"
  | none => "closing tag '[/]'" ++ spot ++ " has nothing to close"

/-- A text in which a backslash in front of a bracket does not count. -/
@[grind =] def unescaped : List Char → List Char
  | [] => []
  | '\\' :: '[' :: rest => '[' :: unescaped rest
  | c :: rest => c :: unescaped rest

/-- The name of a tag: what stands in front of an equals sign. -/
def tagName (body : List Char) : List Char := body.takeWhile (· != '=')

/-- The text of pieces. `opened` are the names of the styles that are open, last one first. -/
def plainPieces (opened : List (List Char)) : List Piece → Except MarkupFault (List Char)
  | [] => .ok []
  | .text s :: rest => (plainPieces opened rest).map (pictured (unescaped s) ++ ·)
  | .tag place body :: rest => match tagName body with
    | '/' :: name =>
      let name := Text.trim name
      if name.isEmpty then match opened with
        | [] => .error ⟨place, none⟩
        | _ :: outer => plainPieces outer rest
      else if opened.contains (styleName name) then plainPieces (opened.erase (styleName name)) rest
      else .error ⟨place, some body⟩
    | name => plainPieces (styleName name :: opened) rest

/-- A message without its tags. -/
def plain (s : List Char) : Except MarkupFault (List Char) :=
  if s.contains '[' then plainPieces [] (pieces s) else .ok (pictured s)

end RailsUpgrade.Report
