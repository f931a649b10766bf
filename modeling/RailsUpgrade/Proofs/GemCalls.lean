import RailsUpgrade.Proofs.Gemfile
import RailsUpgrade.Proofs.LineStarts

/-!
# `RailsUpgrade.Proofs.GemCalls`: where a Gemfile asks for a gem

A call that asks for a gem may open a line, behind nothing but its margin, or stray behind something
else on its line. It may be broken over several lines.

* `GemCall`: calls that ask for a gem. `GemCall.unique` and `GemCall.not_begins` tell that no two of
  them begin at one place or inside each other;
* `Opens`, `Strays`: texts with such calls;
* `found_callExpr_iff`: a pattern for calls finds both kinds;
* `found_gemLine_iff`: the pattern of an edit finds only those that open their lines.
-/

set_option autoImplicit false

namespace RailsUpgrade.Gemfile

open Pattern (Expr AtMargin BeginsLine Meets atMargin_reverse_iff found_of_canTake found_iff
  exists_ends_of_found reads_of_mem_ends reads_chars reads_run canTake_chars canTake_seq canTake_plus
  canTake_one)
open Text (StartsBreak)

theorem all_isBlank_of_margin {margin : List Char} (h : margin.all Text.isSpaceOrTab = true) :
    margin.all Text.isBlank = true :=
  List.all_eq_true.mpr fun c hc => (Text.isBlank_of_isSpaceOrTab (List.all_eq_true.mp h c hc)).1

/-! ### Calls -/

/-- A call that asks for a gem. -/
structure GemCall (gem : List Char) where
  gap : List Char
  opening : Char
  closing : Char
  gap_blank : gap.all Text.isBlank = true
  gap_ne : gap ≠ []
  isQuote_opening : isQuote opening = true
  isQuote_closing : isQuote closing = true

/-- A name without blanks and quotes. -/
def isName (gem : List Char) : Bool := gem.all fun c => !Text.isBlank c && !isQuote c

theorem solid_of_isName {gem : List Char} (h : isName gem = true) : '\n' ∉ gem := fun hmem => by
  have hbreak := List.all_eq_true.mp h _ hmem
  revert hbreak
  decide

namespace GemCall

variable {gem gem' : List Char} (call : GemCall gem)

/-- A call behind its first letter. -/
def tail : List Char := "em".toList ++ (call.gap ++ (call.opening :: (gem ++ [call.closing])))

def text : List Char := 'g' :: call.tail

theorem text_eq : call.text = "gem".toList ++ (call.gap ++ (call.opening :: (gem ++ [call.closing]))) :=
  rfl

theorem infix_text : gem <:+: call.text :=
  ⟨"gem".toList ++ (call.gap ++ [call.opening]), [call.closing], by simp [text_eq]⟩

theorem text_ne_nil : call.text ≠ [] := by simp [text]

/-- Where one call begins no other one does. -/
theorem unique {call : GemCall gem} {call' : GemCall gem'} (hgem : isName gem = true)
    (hgem' : isName gem' = true) {rest rest' : List Char}
    (h : call.text ++ rest = call'.text ++ rest') : gem = gem' := by
  have hplain : ∀ {gem : List Char}, isName gem = true → gem.all (!isQuote ·) = true := fun h =>
    List.all_eq_true.mpr fun c hc => (Bool.and_eq_true _ _ ▸ List.all_eq_true.mp h c hc).2
  have hgap : call.gap ++ call.opening :: (gem ++ call.closing :: rest) =
      call'.gap ++ call'.opening :: (gem' ++ call'.closing :: rest') := by
    simpa [text_eq] using h
  obtain ⟨-, -, hname⟩ := run_unique call.gap_blank call'.gap_blank
    (isBlank_eq_false_of_isQuote call.isQuote_opening)
    (isBlank_eq_false_of_isQuote call'.isQuote_opening) hgap
  exact (run_unique (hplain hgem) (hplain hgem') (by simp [call.isQuote_closing])
    (by simp [call'.isQuote_closing]) hname).1

/-- What follows a call is determined by the text. -/
theorem rest_unique {call call' : GemCall gem} {rest rest' : List Char}
    (h : call.text ++ rest = call'.text ++ rest') : rest = rest' := by
  have hgap : call.gap ++ call.opening :: (gem ++ call.closing :: rest) =
      call'.gap ++ call'.opening :: (gem ++ call'.closing :: rest') := by
    simpa [text_eq] using h
  obtain ⟨-, -, hname⟩ := run_unique call.gap_blank call'.gap_blank
    (isBlank_eq_false_of_isQuote call.isQuote_opening)
    (isBlank_eq_false_of_isQuote call'.isQuote_opening) hgap
  exact (List.cons_eq_cons.mp (List.append_cancel_left hname)).2

theorem breaksQuoted (hgem : isName gem = true) : BreaksQuoted call.text := by
  rw [text_eq]
  refine breaksQuoted_append (by decide) (breaksQuoted_gap call.gap_blank call.isQuote_opening
    (breaksQuoted_of_notMem ?_))
  simp [solid_of_isName hgem, ne_of_holds call.isQuote_closing (x := '\n') (by decide)]

/-- No call begins behind the first letter of another one. -/
theorem not_begins (hgem : isName gem = true) {front tail : List Char}
    (hsplit : call.text = front ++ tail) (hfront : front ≠ []) (htail : tail ≠ []) {x : Char}
    (hx : Text.isBlank x = true) (t : List Char) : ¬ Meets tail ("gem".toList ++ x :: t) := by
  intro hmeets
  have hclosing : call.closing ≠ 'g' ∧ call.closing ≠ 'e' ∧ call.closing ≠ 'm' :=
    ⟨(ne_of_holds call.isQuote_closing (by decide)).symm,
      (ne_of_holds call.isQuote_closing (by decide)).symm,
      (ne_of_holds call.isQuote_closing (by decide)).symm⟩
  have hgap : 'g' ∉ "em".toList ++ (call.gap ++ [call.opening]) := by
    have hno : 'g' ∉ call.gap := fun h =>
      ne_of_holds (List.all_eq_true.mp call.gap_blank _ h) (by decide) rfl
    simp [hno, ne_of_holds call.isQuote_opening (x := 'g') (by decide)]
  -- It would have to begin in the name, which a quote ends before any blank.
  obtain ⟨y, tail, rfl⟩ := List.exists_cons_of_ne_nil htail
  obtain rfl : y = 'g' := by
    rcases hmeets with h | h
    · exact (List.cons_prefix_cons.mp h).1
    · exact (List.cons_prefix_cons.mp h).1.symm
  obtain ⟨z, front, rfl⟩ := List.exists_cons_of_ne_nil hfront
  have hrest : call.tail = front ++ 'g' :: tail := (List.cons_eq_cons.mp hsplit).2
  obtain ⟨inner, -, hname⟩ := exists_of_notMem hgap
    (show ("em".toList ++ (call.gap ++ [call.opening])) ++ (gem ++ [call.closing]) =
      front ++ 'g' :: tail by simpa [GemCall.tail] using hrest)
  have hsub : ∀ c ∈ 'g' :: tail, c ∈ gem ∨ c = call.closing := by
    intro c hc
    have hmem : c ∈ gem ++ [call.closing] := by
      rw [hname]
      exact List.mem_append_right _ hc
    simpa using hmem
  have hlast : call.closing ∈ 'g' :: tail := by
    have hlast := congrArg List.getLast? hname
    rw [List.getLast?_concat, List.getLast?_append_of_ne_nil _ (by simp)] at hlast
    exact List.mem_of_getLast? hlast.symm
  have hshort : Meets ('g' :: tail) ("gem".toList ++ [x]) := by
    have hlong : Meets ('g' :: tail ++ []) (("gem".toList ++ [x]) ++ t) := by simpa using hmeets
    exact hlong.of_append
  rcases hshort with h | h
  · have hmem : call.closing ∈ "gem".toList ++ [x] := h.subset hlast
    have hne : call.closing ≠ x := (ne_of_holds hx (isBlank_eq_false_of_isQuote call.isQuote_closing))
    simp [hclosing, hne] at hmem
  · rcases hsub x (h.subset (by simp)) with hname | rfl
    · have hno := List.all_eq_true.mp hgem x hname
      simp [hx] at hno
    · simp [isBlank_eq_false_of_isQuote call.isQuote_closing] at hx

end GemCall

/-- The call of a line that asks for a gem. -/
def GemLine.call {gem : List Char} (line : GemLine gem) : GemCall gem where
  gap := line.gap
  opening := line.opening
  closing := line.closing
  gap_blank := line.gap_blank
  gap_ne := line.gap_ne
  isQuote_opening := line.isQuote_opening
  isQuote_closing := line.isQuote_closing

theorem GemLine.text_eq {gem : List Char} (line : GemLine gem) :
    line.text = line.margin ++ (line.call.text ++ line.rest) := by
  simp [GemLine.text, GemCall.text_eq, GemLine.call]

/-- A call that opens a line, with the rest of the line. -/
theorem exists_gemLine_of_call {gem margin : List Char} (hmargin : margin.all Text.isSpaceOrTab = true)
    (call : GemCall gem) (rest : List Char) : ∃ (line : GemLine gem) (after : List Char),
      line.margin = margin ∧ line.call = call ∧ StartsBreak after ∧
        margin ++ (call.text ++ rest) = line.text ++ after := by
  refine ⟨⟨margin, call.gap, call.opening, call.closing, rest.takeWhile (· != '\n'), hmargin,
    call.gap_blank, call.gap_ne, call.isQuote_opening, call.isQuote_closing, fun hmem => ?_⟩,
    rest.dropWhile (· != '\n'), rfl, rfl, Text.startsBreak_dropWhile rest, ?_⟩
  · simpa using List.mem_takeWhile_imp hmem
  · rw [GemLine.text_eq, List.append_assoc, List.append_assoc, List.takeWhile_append_dropWhile]
    rfl

/-! ### Texts with calls -/

/-- A line of a text opens with a call that asks for a gem. -/
def Opens (gem text : List Char) : Prop :=
  ∃ margin, ∃ call : GemCall gem, margin.all Text.isSpaceOrTab = true ∧
    BeginsLine (margin ++ call.text) text

/-- In a text a call that asks for a gem stands behind something else on its line. -/
def Strays (gem text : List Char) : Prop :=
  ∃ lead, ∃ call : GemCall gem, ∃ rest, text = lead ++ (call.text ++ rest) ∧ ¬ AtMargin lead.reverse

variable {gem text : List Char}

theorem opens_iff : Opens gem text ↔ ∃ lead, ∃ call : GemCall gem, ∃ rest,
    text = lead ++ (call.text ++ rest) ∧ AtMargin lead.reverse := by
  simp only [atMargin_reverse_iff]
  constructor
  · rintro ⟨margin, call, hmargin, lead, rest, rfl, hlead⟩
    exact ⟨lead ++ margin, call, rest, by simp, lead, margin, rfl, hmargin, hlead⟩
  · rintro ⟨_, call, rest, rfl, lead, margin, rfl, hmargin, hlead⟩
    exact ⟨margin, call, hmargin, lead, rest, by simp, hlead⟩

/-- Every call opens its line or strays. -/
theorem opens_or_strays_iff : Opens gem text ∨ Strays gem text ↔
    ∃ lead, ∃ call : GemCall gem, ∃ rest, text = lead ++ (call.text ++ rest) := by
  rw [opens_iff]
  constructor
  · rintro (⟨lead, call, rest, htext, -⟩ | ⟨lead, call, rest, htext, -⟩)
    · exact ⟨lead, call, rest, htext⟩
    · exact ⟨lead, call, rest, htext⟩
  · rintro ⟨lead, call, rest, htext⟩
    by_cases hmargin : AtMargin lead.reverse
    · exact .inl ⟨lead, call, rest, htext, hmargin⟩
    · exact .inr ⟨lead, call, rest, htext, hmargin⟩

/-- A pattern for calls that ask for a gem, wherever they stand. -/
def callExpr (gem : String) : Expr :=
  .chars "gem" (.seq (.plus gapSet) (.seq (.one quoteSet) (.chars gem (.one quoteSet))))

theorem exists_gemCall_of_reads {gem : String} {s : List Char} {g g' : Pattern.Groups}
    (h : (callExpr gem).Reads g s g') : ∃ call : GemCall gem.toList, s = call.text := by
  rw [callExpr, reads_chars] at h
  obtain ⟨_, rfl, gap, _, _, hgap, ⟨_, _, _, ⟨⟨opening, hopening, rfl⟩, -⟩, hname, rfl⟩, rfl⟩ := h
  rw [reads_chars] at hname
  obtain ⟨_, rfl, ⟨closing, hclosing, rfl⟩, -⟩ := hname
  obtain ⟨hlength, hgap, -⟩ := reads_run.mp hgap
  refine ⟨⟨gap, opening, closing, by rwa [all_gapSet] at hgap, ?_, by simpa using hopening,
    by simpa using hclosing⟩, rfl⟩
  rintro rfl
  simp at hlength

theorem canTake_callExpr {gem : String} (call : GemCall gem.toList) (before after : List Char) :
    (callExpr gem).CanTake before call.text after := by
  have htext : call.text = "gem".toList ++ (call.gap ++ ([call.opening] ++ (gem.toList ++
      [call.closing]))) := rfl
  rw [htext]
  refine canTake_chars (canTake_seq (canTake_plus ?_ call.gap_ne) (canTake_seq (canTake_one ?_)
    (canTake_chars (canTake_one ?_))))
  · rw [all_gapSet, call.gap_blank]
  · rw [mem_quoteSet, call.isQuote_opening]
  · rw [mem_quoteSet, call.isQuote_closing]

theorem found_callExpr_iff {gem : String} {text : List Char} : (callExpr gem).found text = true ↔
    Opens gem.toList text ∨ Strays gem.toList text := by
  rw [opens_or_strays_iff]
  constructor
  · intro hfound
    obtain ⟨lead, rest, c, rfl, hc⟩ := exists_ends_of_found hfound
    obtain ⟨s, htakes, hreads⟩ := reads_of_mem_ends _ hc
    obtain ⟨call, rfl⟩ := exists_gemCall_of_reads hreads
    have hrest : rest = call.text ++ c.after := htakes.after
    exact ⟨lead, call, c.after, by rw [hrest]⟩
  · rintro ⟨lead, call, rest, rfl⟩
    exact found_of_canTake (canTake_callExpr call _ _)

theorem found_gemLine_iff {gem : String} {text : List Char} :
    (gemLine gem).found text = true ↔ Opens gem.toList text := by
  rw [found_iff (swaps_gemLine ⟨gem, "", ""⟩)]
  constructor
  · rintro ⟨lead, taken, after, new, rfl, hlead, -, line, rfl, -⟩
    exact ⟨line.margin, line.call, line.margin_blank, lead, line.rest ++ after,
      by rw [line.text_eq]; simp, hlead⟩
  · rintro ⟨margin, call, hmargin, lead, rest, rfl, hlead⟩
    obtain ⟨line, after, -, -, hafter, heq⟩ := exists_gemLine_of_call hmargin call rest
    exact ⟨lead, line.text, after, _, by rw [List.append_assoc, heq], hlead, hafter, line, rfl, rfl⟩

end RailsUpgrade.Gemfile
