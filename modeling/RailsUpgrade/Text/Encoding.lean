import RailsUpgrade.Text.Lines

/-!
# `RailsUpgrade.Text.Encoding`: texts and the bytes of files

Files hold UTF-8. What is not valid UTF-8, such as overlong forms, surrogates and sequences that
break off, is no text. Reading turns every kind of line ending into a line feed, writing changes
nothing.
-/

set_option autoImplicit false

namespace RailsUpgrade.Text

/-- The text that bytes stand for, with line feeds only. -/
def decode? (bytes : ByteArray) : Option (List Char) :=
  (String.fromUTF8? bytes).map fun s => unixNewlines s.toList

/-- The bytes of a text. -/
def encode (s : List Char) : ByteArray := (String.ofList s).toUTF8

end RailsUpgrade.Text
