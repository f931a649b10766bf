import RailsUpgrade.Report.EmojiTable
import RailsUpgrade.Text.Case
import RailsUpgrade.Text.Lines

/-!
# `RailsUpgrade.Report.Emoji`: pictures called for by name

A name between two colons stands for a picture. The name may end in `-text` or `-emoji`, which says
how the picture is to be shown. A name that no picture has is left as it is.
-/

set_option autoImplicit false

namespace RailsUpgrade.Report

/-- The picture with a name in a list of names and pictures in turn. -/
def pictureIn? (name : List Char) : List (List Char) → Option (List Char)
  | key :: picture :: rest => if key == name then some picture else pictureIn? name rest
  | _ => none

/-- The picture with a name, case not counting. -/
def picture? (name : List Char) : Option (List Char) :=
  pictureIn? (Text.lowerAfter [] name) (Text.words emojiText.toList)

/-- A text without `tail` at its end. -/
def stripTail? (tail s : List Char) : Option (List Char) :=
  (Text.stripLead? tail.reverse s.reverse).map List.reverse

/-- The picture for what stands between two colons. -/
def pictureFor? (s : List Char) : Option (List Char) :=
  match stripTail? "-emoji".toList s with
  | some name => (picture? name).map (· ++ [Char.ofNat 0xFE0F])
  | none => match stripTail? "-text".toList s with
    | some name => (picture? name).map (· ++ [Char.ofNat 0xFE0E])
    | none => picture? s

/-- What stands between a colon at the start of a text and the next one, without blanks, and what
follows. -/
def betweenColons? : List Char → Option (List Char × List Char)
  | ':' :: rest =>
    let name := rest.takeWhile fun c => c != ':' && !Text.isBlank c
    match rest.drop name.length with
    | ':' :: rest => some (name, rest)
    | _ => none
  | _ => none

/-- Puts in the pictures that a text calls for. Every step passes at least one character. -/
def picturedWith : Nat → List Char → List Char
  | 0, s => s
  | _ + 1, [] => []
  | fuel + 1, c :: rest => match betweenColons? (c :: rest) with
    | none => c :: picturedWith fuel rest
    | some (name, rest) => (pictureFor? name).getD (':' :: name ++ [':']) ++ picturedWith fuel rest

/-- A text with the pictures that it calls for. -/
def pictured (s : List Char) : List Char := picturedWith s.length s

end RailsUpgrade.Report
