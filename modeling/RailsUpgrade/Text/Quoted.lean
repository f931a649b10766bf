import RailsUpgrade.Text.Classes

/-!
# `RailsUpgrade.Text.Quoted`: texts as messages quote them

A quoted text stands between single quotes, or between double quotes when it holds a single
quote and no double quote. The enclosing quote and the backslash are escaped, line feed,
carriage return and tab have their short escapes, and every other hidden character is spelled
by its code point in two, four or eight hexadecimal digits.
-/

set_option autoImplicit false

namespace RailsUpgrade.Text

/-- The hexadecimal digit of a number below sixteen, in lower case. -/
def hexDigit (n : Nat) : Char :=
  if n < 10 then Char.ofNat (48 + n) else Char.ofNat (87 + n)

/-- The lowest `width` hexadecimal digits of `n`. -/
def hexDigits : Nat → Nat → List Char
  | 0, _ => []
  | width + 1, n => hexDigits width (n / 16) ++ [hexDigit (n % 16)]

/-- How a quoted text between two `quote`s shows one character. -/
def quotedChar (quote c : Char) : List Char :=
  if c == quote || c == '\\' then ['\\', c]
  else if c == '\n' then ['\\', 'n']
  else if c == '\r' then ['\\', 'r']
  else if c == '\t' then ['\\', 't']
  else if isHidden c then
    if c.toNat < 256 then '\\' :: 'x' :: hexDigits 2 c.toNat
    else if c.toNat < 65536 then '\\' :: 'u' :: hexDigits 4 c.toNat
    else '\\' :: 'U' :: hexDigits 8 c.toNat
  else [c]

/-- The quote that encloses a text. -/
def quoteOf (s : List Char) : Char :=
  if s.contains '\x27' && !s.contains '\x22' then '\x22' else '\x27'

/-- A text between quotes. -/
def quoted (s : String) : String :=
  let q := quoteOf s.toList
  String.ofList (q :: s.toList.flatMap (quotedChar q) ++ [q])

/-- A byte between quotes. What is no printable character of ASCII is spelled in two digits. -/
def quotedByte (quote : Char) (b : UInt8) : List Char :=
  if b.toNat < 127 then quotedChar quote (Char.ofNat b.toNat) else "\\x".toList ++ hexDigits 2 b.toNat

/-- Bytes between quotes, after the letter that marks them. -/
def quotedBytes (bytes : List UInt8) : String :=
  let quote := quoteOf (bytes.map fun b => Char.ofNat b.toNat)
  String.ofList ('b' :: quote :: bytes.flatMap (quotedByte quote) ++ [quote])

end RailsUpgrade.Text
