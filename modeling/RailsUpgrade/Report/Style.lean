import RailsUpgrade.Report.ColorTable
import RailsUpgrade.Text.Case
import RailsUpgrade.Text.Lines
import RailsUpgrade.Text.Number

/-!
# `RailsUpgrade.Report.Style`: the names of styles

The tags of a message name styles, and a closing tag closes the last open one with the same style.
Styles may be spelled in several ways, so `styleName` gives them one name: the attributes in a fixed
order, then the colour, the background and the link. What is no style has its own text in lower case
as its name.
-/

set_option autoImplicit false

namespace RailsUpgrade.Report

/-- The attributes of a style, in the order in which names list them, with their short forms. -/
def attributeNames : List (String × List String) :=
  [("bold", ["b"]), ("dim", ["d"]), ("italic", ["i"]), ("underline", ["u"]), ("blink", []),
   ("blink2", []), ("reverse", ["r"]), ("conceal", ["c"]), ("strike", ["s"]),
   ("underline2", ["uu"]), ("frame", []), ("encircle", []), ("overline", ["o"])]

/-- The attribute that a word stands for. -/
def attribute? (word : List Char) : Option String :=
  (attributeNames.find? fun a => (a.1 :: a.2).any (·.toList == word)).map (·.1)

/-- Whether a text is a number of a colour or of a part of one. -/
def isColorNumber (s : List Char) : Bool := (Text.number? s).any (· ≤ 255)

/-- What stands between a word with an opening bracket and a closing one. -/
def inBrackets? (word : String) (s : List Char) : Option (List Char) := do
  let rest ← Text.stripLead? (word ++ "(").toList s
  if rest.getLast? == some ')' then return rest.dropLast else failure

/-- Whether a word in lower case is a colour: a name, six hexadecimal digits, a number, or three
parts. -/
def isColor (word : List Char) : Bool :=
  let isHex (c : Char) : Bool := c.isDigit || ('a' ≤ c && c ≤ 'f')
  colorNames.any (·.toList == word)
    || (match word with
      | '#' :: digits => digits.length == 6 && digits.all isHex
      | _ => false)
    || (match inBrackets? "color" word with
      | some digits => digits.length ≤ 3 && digits.all Char.isDigit && isColorNumber digits
      | none => false)
    || (match inBrackets? "rgb" word with
      | some parts =>
        let parts := Text.splitChar ',' parts
        parts.length == 3 && parts.all isColorNumber
      | none => false)

/-- What a style says. -/
structure Style where
  /-- Attributes that are turned on or off. -/
  attributes : List (String × Bool) := []
  color : Option (List Char) := none
  background : Option (List Char) := none
  link : Option (List Char) := none

/-- Reads the words of a style onto `style`. -/
def Style.read? (style : Style) : List (List Char) → Option Style
  | [] => some style
  | word :: rest =>
    let lower := Text.lowerAfter [] word
    if lower == "on".toList then match rest with
      | color :: rest =>
        let color := Text.lowerAfter [] color
        if isColor color then Style.read? { style with background := some color } rest else none
      | [] => none
    else if lower == "not".toList then match rest with
      | word :: rest => match attribute? word with
        | some a => Style.read? { style with attributes := (a, false) :: style.attributes } rest
        | none => none
      | [] => none
    else if lower == "link".toList then match rest with
      | link :: rest => Style.read? { style with link := some link } rest
      | [] => none
    else match attribute? lower with
      | some a => Style.read? { style with attributes := (a, true) :: style.attributes } rest
      | none =>
        if isColor lower then Style.read? { style with color := some lower } rest else none

/-- The words of the name of a style. -/
def Style.words (style : Style) : List (List Char) :=
  let set := attributeNames.filterMap fun a => (style.attributes.lookup a.1).map fun on =>
    ((if on then "" else "not ") ++ a.1).toList
  set ++ style.color.toList ++ (style.background.map ("on ".toList ++ ·)).toList
    ++ (style.link.map ("link ".toList ++ ·)).toList

/-- The one name of a style. -/
def styleName (s : List Char) : List Char :=
  if Text.trim s == "none".toList then "none".toList
  else match Style.read? {} (Text.words s) with
    | none => Text.lowerAfter [] (Text.trim s)
    | some style => match style.words with
      | [] => "none".toList
      | words => Text.join [' '] words

end RailsUpgrade.Report
