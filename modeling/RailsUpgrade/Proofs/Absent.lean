import RailsUpgrade.Proofs.Framed

/-!
# `RailsUpgrade.Proofs.Absent`: patterns that ask for what is not there

A pattern may look ahead from the start of a text, over any run of characters, for something that must
not come. The run is greedy and gives back one character after the other, so it stops at every place of
the text.

* `Expr.absent`: such patterns;
* `found_iff_ends`: a pattern is found where it has an end behind such a run;
* `found_absent`: they are found in the texts in which the other pattern is not;
* `found_literal_iff`: a fixed text is found where it is a part.
-/

set_option autoImplicit false

namespace RailsUpgrade.Pattern

/-- All characters: those that are blank and those that are not. -/
def anySet : CharSet := .ofItems [.kind .blank false false, .kind .blank false true]

@[simp] theorem mem_anySet (x : Char) : anySet.mem x = true := by
  cases hblank : CharKind.blank.mem false x <;>
    simp [anySet, CharItem.mem, hblank]

/-- Found at the start of a text in which `p` is not found. -/
def Expr.absent (p : Expr) : Expr :=
  .seq (.anchor .textStart) (.look 0 false (.seq (.star anySet) p))

variable {p : Expr} {text : List Char}

/-- A run over any characters, from the start of a text, may stop at each of its places. -/
theorem mem_ends_any {c : Cursor} :
    c ∈ (Expr.star anySet).ends { before := [], after := text, pos := 0 } ↔
      ∃ lead rest, text = lead ++ rest ∧
        c = { before := lead.reverse, after := rest, pos := lead.length } := by
  have hrun : anySet.run { before := [], after := text, pos := 0 } = text.length := by
    rw [CharSet.run, List.takeWhile_eq_self_iff.mpr fun x _ => mem_anySet x]
  rw [ends_star, hrun]
  simp only [List.mem_map, List.mem_reverse, List.mem_range, Nat.lt_add_one_iff]
  constructor
  · rintro ⟨n, hn, rfl⟩
    exact ⟨text.take n, text.drop n, (List.take_append_drop n text).symm, by
      simp [Cursor.shift, Nat.min_eq_left hn]⟩
  · rintro ⟨lead, rest, rfl, rfl⟩
    exact ⟨lead.length, by simp, by simp [Cursor.shift]⟩

/-- A pattern is found in a text exactly if it has an end behind some run from the start. -/
theorem found_iff_ends : p.found text = true ↔
    (Expr.seq (.star anySet) p).ends { before := [], after := text, pos := 0 } ≠ [] := by
  constructor
  · intro hfound
    obtain ⟨lead, rest, c, htext, hc⟩ := exists_ends_of_found hfound
    exact List.ne_nil_of_mem (mem_ends_seq.mpr ⟨_, mem_ends_any.mpr ⟨lead, rest, htext, rfl⟩, hc⟩)
  · intro hends
    obtain ⟨c, hc⟩ := List.exists_mem_of_ne_nil _ hends
    obtain ⟨_, hmid, hc⟩ := mem_ends_seq.mp hc
    obtain ⟨lead, rest, rfl, rfl⟩ := mem_ends_any.mp hmid
    exact found_of_ends (List.ne_nil_of_mem hc)

/-- A pattern that asks for the absence of another one is found where the other one is not. -/
theorem found_absent (p : Expr) (text : List Char) : (Expr.absent p).found text = !p.found text := by
  let start : Cursor := { before := [], after := text, pos := 0 }
  have hahead : p.found text = true ↔ (Expr.seq (.star anySet) p).ends start ≠ [] := found_iff_ends
  -- Both anchors are asked at the start only, so there is at most one end of a match.
  have hends : ∀ c : Cursor, (Expr.absent p).ends c =
      if c.before.isEmpty ∧ (Expr.seq (.star anySet) p).ends c = [] then [c] else [] := by
    intro c
    rw [Expr.absent, Expr.ends, Expr.ends]
    by_cases hstart : c.before.isEmpty = true
    · simp [Anchor.holds, hstart, ends_notAhead]
    · simp [Anchor.holds, hstart]
  cases hp : p.found text with
  | true =>
    rw [Bool.not_true, ← Bool.not_eq_true]
    intro hfound
    obtain ⟨lead, rest, c, rfl, hc⟩ := exists_ends_of_found hfound
    rw [hends] at hc
    split at hc
    · rename_i hplace
      obtain rfl : lead = [] := by simpa using hplace.1
      exact hahead.mp hp hplace.2
    · cases hc
  | false =>
    have hnil : (Expr.seq (.star anySet) p).ends start = [] := by simpa [hp] using hahead
    have hfound : (Expr.absent p).found ([] ++ text) = true :=
      found_of_ends fun hnone => by simp [hends, start, hnil] at hnone
    exact hfound

/-- A fixed text is found where it is a part. -/
theorem found_literal_iff {part : List Char} :
    (Expr.literal part).found text = true ↔ part <:+: text := by
  constructor
  · intro hfound
    obtain ⟨lead, rest, c, rfl, hc⟩ := exists_ends_of_found hfound
    obtain ⟨htakes, -⟩ := mem_ends_literal hc
    have hrest : rest = part ++ c.after := htakes.after
    exact ⟨lead, c.after, by rw [hrest, List.append_assoc]⟩
  · rintro ⟨lead, rest, rfl⟩
    rw [List.append_assoc]
    exact found_of_canTake canTake_literal

end RailsUpgrade.Pattern
