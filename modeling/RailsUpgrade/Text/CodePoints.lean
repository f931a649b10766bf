/-!
# `RailsUpgrade.Text.CodePoints`: texts as code points

A character is a code point, and not half of a pair of UTF-16 units. A text may hold such halves as code
points of their own, so what only looks at code points is said for every kind of text.
-/

set_option autoImplicit false

namespace RailsUpgrade.Text

/-- A code point, which may be half of a pair of UTF-16 units. -/
abbrev CodePoint : Type := Fin 0x110000

/-- The code point of a character. -/
def CodePoint.ofChar (c : Char) : CodePoint :=
  ⟨c.toNat, by have hvalid : c.toNat < 55296 ∨ 57343 < c.toNat ∧ c.toNat < 1114112 := c.valid; omega⟩

theorem CodePoint.ofChar_inj {c d : Char} (h : ofChar c = ofChar d) : c = d := by
  rw [← Char.ofNat_toNat c, ← Char.ofNat_toNat d]
  exact congrArg Char.ofNat (Fin.mk.inj h)

/-- A kind of text, which is told by its code points. -/
class Coded (T : Type) where
  points : T → List CodePoint
  points_inj : ∀ {s t : T}, points s = points t → s = t

instance : Coded (List CodePoint) := ⟨id, id⟩

instance : Coded String where
  points s := s.toList.map CodePoint.ofChar
  points_inj h := String.toList_inj.mp ((List.map_inj_right fun _ _ => CodePoint.ofChar_inj).mp h)

/-- The characters that code points are, if none of them is half of a pair. -/
def chars? (s : List CodePoint) : Option (List Char) :=
  s.mapM fun p => if p.val.isValidChar then some (Char.ofNat p) else none

theorem chars?_map_ofChar (chars : List Char) : chars? (chars.map CodePoint.ofChar) = some chars := by
  induction chars with
  | nil => rfl
  | cons c chars ih =>
    have hvalid : c.toNat.isValidChar := c.valid
    rw [chars?] at ih ⊢
    rw [List.map_cons, List.mapM_cons, ih, CodePoint.ofChar, if_pos hvalid, Char.ofNat_toNat]
    rfl

end RailsUpgrade.Text
