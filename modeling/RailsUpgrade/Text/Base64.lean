/-!
# `RailsUpgrade.Text.Base64`: bytes spelled in letters

Four letters of six bits each spell three bytes, and equals signs fill up the last four. Characters
outside the alphabet do not count.
-/

set_option autoImplicit false

namespace RailsUpgrade.Text

/-- The six bits that a letter stands for. -/
def sixBits? (c : Char) : Option Nat :=
  if 'A' ≤ c && c ≤ 'Z' then some (c.toNat - 65)
  else if 'a' ≤ c && c ≤ 'z' then some (c.toNat - 71)
  else if c.isDigit then some (c.toNat + 4)
  else if c == '+' then some 62
  else if c == '/' then some 63
  else none

/-- Reads bytes. `place` counts the letters of the current four, `left` holds the bits that are left
over and `pads` counts the equals signs since the last letter. None if the last four are not
complete. -/
def base64From (place left pads : Nat) : List Char → Option (List UInt8)
  | [] => if place == 0 then some [] else none
  | c :: rest =>
    if c == '=' then
      if place < 2 then base64From place left pads rest
      else if 4 ≤ place + pads + 1 then some []
      else base64From place left (pads + 1) rest
    else match sixBits? c with
      | none => base64From place left pads rest
      | some bits => match place with
        | 0 => base64From 1 bits 0 rest
        | 1 => (base64From 2 (bits % 16) 0 rest).map (UInt8.ofNat (4 * left + bits / 16) :: ·)
        | 2 => (base64From 3 (bits % 4) 0 rest).map (UInt8.ofNat (16 * left + bits / 4) :: ·)
        | _ => (base64From 0 0 0 rest).map (UInt8.ofNat (64 * left + bits) :: ·)

/-- The bytes that a text spells. -/
def ofBase64? (s : List Char) : Option (List UInt8) := base64From 0 0 0 s

end RailsUpgrade.Text
