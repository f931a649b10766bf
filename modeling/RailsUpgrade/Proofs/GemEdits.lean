import RailsUpgrade.Proofs.GemCalls

/-!
# `RailsUpgrade.Proofs.GemEdits`: calls under the pin and the edits

The pin of Rails and the edits of lines are passes that keep lines apart, so the calls that they do not
take stay what they are, at the start of a line or not.

* `closed_pinned`, `closed_lineSwap`: neither ends in the margin of a line;
* `opens_pinned_iff`, `strays_of_pinned`: the pin leaves the calls for other gems alone;
* `opens_of_rewrite`, `strays_of_rewrite`: an edit leaves no line of its own gem, and makes no calls but
  those in its replacement;
* `opens_rewrite`, `commented_rewrite`: it keeps the lines of other gems, and lines that comment a call
  out;
* `Tracked`, `opens_of_foldl`, `strays_of_foldl`, `strays_foldl`: the same for edits one after the other.
-/

set_option autoImplicit false

namespace RailsUpgrade.Gemfile

open Pattern (Pass Alike BeginsLine pass_replaceAll found_iff found_of_replaceAll_ne
  exists_concat_of_startsBreak eq_nil_of_startsBreak not_atMargin meets_of_append_eq)
open Text (StartsBreak)

variable {gem part text : List Char} {e : Edit} {pin : Pin}

/-! ### Passes that keep lines apart -/

theorem isSpaceOrTab_eq_false_of_isQuote {c : Char} (h : isQuote c = true) :
    Text.isSpaceOrTab c = false := by
  obtain rfl | rfl : c = '\'' ∨ c = '"' := by simpa [isQuote] using h
  · decide
  · decide

theorem closed_pinned (pin : Pin) : (pinned pin).Closed := by
  rintro before taken after new ⟨⟨call, rfl⟩, rfl⟩ out
  have htext : call.text = 'g' :: (call.front ++ call.version) ++ [call.closing'] := by
    simp [RailsCall.text]
  have hpin : pin.text = ("gem 'rails', '".toList ++ pin.version) ++ ['\''] :=
    (List.append_assoc _ _ _).symm
  rw [htext, hpin]
  refine ⟨not_atMargin ?_ ?_ (by simp) out, not_atMargin (by decide) (by decide) (by simp) out⟩
  · exact isSpaceOrTab_eq_false_of_isQuote call.isQuote_closing'
  · exact (ne_of_holds call.isQuote_closing' (by decide)).symm

theorem closed_lineSwap (he : e.isPlain = true) : (lineSwap e).Closed := by
  rintro before taken after new ⟨-, -, line, rfl, rfl⟩ out
  constructor
  · have htext : line.text = (line.margin ++ ("gem".toList ++ (line.gap ++ (line.opening ::
        e.gem.toList)))) ++ line.closing :: line.rest := by
      simp [GemLine.text]
    rw [htext]
    exact not_atMargin (isSpaceOrTab_eq_false_of_isQuote line.isQuote_closing)
      (ne_of_holds line.isQuote_closing (by decide)).symm line.rest_solid out
  · obtain ⟨c, rest, hreplacement, hc⟩ := Edit.isPlain.exists_cons he
    have hrest : '\n' ∉ rest := fun hmem =>
      Edit.isPlain.solid he (hreplacement ▸ List.mem_cons_of_mem c hmem)
    rw [hreplacement]
    rcases hc with rfl | rfl
    · exact not_atMargin (by decide) (by decide) hrest out
    · exact not_atMargin (by decide) (by decide) hrest out

theorem notMem_margin {margin : List Char} (h : margin.all Text.isSpaceOrTab = true) {x : Char}
    (hx : Text.isSpaceOrTab x = false) : x ∉ margin := fun hmem => by
  have hmargin := List.all_eq_true.mp h x hmem
  rw [hx] at hmargin
  cases hmargin

theorem GemLine.breaksQuoted (line : GemLine gem) (hgem : '\n' ∉ gem) : BreaksQuoted line.text := by
  have hmargin : '\n' ∉ line.margin := notMem_margin line.margin_blank (by decide)
  have htext : line.text = (line.margin ++ "gem".toList) ++ (line.gap ++ line.opening ::
      (gem ++ (line.closing :: line.rest))) := by
    simp [GemLine.text]
  rw [htext]
  refine breaksQuoted_append (by simp [hmargin]) (breaksQuoted_gap line.gap_blank line.isQuote_opening
    (breaksQuoted_of_notMem ?_))
  simp [hgem, line.rest_solid, ne_of_holds line.isQuote_closing (x := '\n') (by decide)]

/-- What an edit puts in is on one line. -/
theorem GemLine.solid_replacement (line : GemLine gem) (he : e.isPlain = true) :
    '\n' ∉ line.margin ++ e.replacement.toList := by
  simp [notMem_margin line.margin_blank (show Text.isSpaceOrTab '\n' = false by decide),
    Edit.isPlain.solid he]

/-- The first character that is no blank is no quote either. -/
def StartsUnquoted (part : List Char) : Prop :=
  ∃ gap x rest, part = gap ++ x :: rest ∧ gap.all Text.isBlank = true ∧ Text.isBlank x = false ∧
    isQuote x = false

theorem StartsUnquoted.ne_nil (h : StartsUnquoted part) : part ≠ [] := by
  obtain ⟨gap, x, rest, rfl, -⟩ := h
  simp

/-- What goes on behind a line break with a quote is not such a part. -/
theorem StartsUnquoted.not_across (h : StartsUnquoted part) {taken after lead more rest : List Char}
    (htaken : BreaksQuoted taken) (heq : taken = lead ++ '\n' :: more) : more ++ after ≠ part ++ rest := by
  obtain ⟨gap, x, inner, rfl, hgap, hx, hquote⟩ := h
  obtain ⟨gap', quote, behind, rfl, hgap', hquote'⟩ := htaken lead more heq
  intro hsame
  rw [List.append_assoc, List.append_assoc, List.cons_append, List.cons_append] at hsame
  obtain ⟨-, rfl, -⟩ := run_unique hgap' hgap (isBlank_eq_false_of_isQuote hquote') hx hsame
  rw [hquote] at hquote'
  cases hquote'

theorem find?_blanks {gap rest : List Char} {x : Char} (hgap : gap.all Text.isBlank = true)
    (hx : Text.isBlank x = false) : (gap ++ x :: rest).find? (!Text.isBlank ·) = some x := by
  have hnone : gap.find? (!Text.isBlank ·) = none :=
    List.find?_eq_none.mpr fun c hc => by simp [List.all_eq_true.mp hgap c hc]
  simp [List.find?_append, hnone, hx]

/-- No replacement begins behind a line break that a quote follows. -/
theorem apart_lineSwap (he : e.isPlain = true) (hpart : BreaksQuoted part) : (lineSwap e).Apart part := by
  rintro front tail before taken after new rfl hfront - ⟨hstart, -, line, rfl, rfl⟩ hmeets
  obtain ⟨lead, rfl⟩ := exists_concat_of_startsBreak hfront hstart
  obtain ⟨gap, quote, more, rfl, hgap, hquote⟩ := hpart lead tail (by simp)
  obtain ⟨c, rest, hreplacement, hc⟩ := Edit.isPlain.exists_cons he
  rw [hreplacement] at hmeets
  have hsolid : Text.isBlank c = false := by rcases hc with rfl | rfl <;> decide
  obtain rfl := hmeets.find?_eq (find?_blanks hgap (isBlank_eq_false_of_isQuote hquote))
    (find?_blanks (all_isBlank_of_margin line.margin_blank) hsolid)
  rcases hc with rfl | rfl <;> simp [isQuote] at hquote

/-- An edit leaves a part alone if no line of its gem begins with it. -/
theorem leaves_lineSwap (he : e.isPlain = true) (hpart : BreaksQuoted part) (hstarts : StartsUnquoted part)
    (hfirst : ∀ (line : GemLine e.gem.toList) (rest after : List Char),
      part ++ rest ≠ line.text ++ after) : (lineSwap e).Leaves part where
  inside := by
    rintro front tail rest before taken after new rfl - hbefore heq ⟨hstart, -, line, rfl, -⟩
    by_cases hfront : front = []
    · subst hfront
      exact hfirst line rest after heq
    · -- A line would begin behind a line break in the part, where a quote is.
      obtain ⟨lead, rfl⟩ := exists_concat_of_startsBreak hfront hstart
      obtain ⟨gap, quote, more, rfl, hgap, hquote⟩ := hpart lead tail (by simp)
      rw [line.text_eq, List.append_assoc, List.append_assoc, List.append_assoc] at heq
      obtain ⟨-, rfl, -⟩ := run_unique hgap (all_isBlank_of_margin line.margin_blank)
        (isBlank_eq_false_of_isQuote hquote) (show Text.isBlank 'g' = false by decide) heq
      simp [isQuote] at hquote
  across := by
    rintro before taken after new lead more rest ⟨-, -, line, rfl, -⟩ heq -
    exact hstarts.not_across (line.breaksQuoted (Edit.isPlain.gem_solid he)) heq

/-- The pin leaves a part alone in which no call that asks for Rails begins. -/
theorem leaves_pinned (hstarts : StartsUnquoted part)
    (hinside : ∀ (call : RailsCall) (front tail rest after : List Char), part = front ++ tail →
      tail ≠ [] → tail ++ rest ≠ call.text ++ after) : (pinned pin).Leaves part where
  inside := by
    rintro front tail rest before taken after new hpart htail - heq ⟨⟨call, rfl⟩, -⟩
    exact hinside call front tail rest after hpart htail heq
  across := by
    rintro before taken after new lead more rest ⟨⟨call, rfl⟩, -⟩ heq -
    exact hstarts.not_across (IsCall.breaksQuoted (.inl ⟨call, rfl⟩)) heq

/-- What a call begins in the middle of begins with a `g`. -/
theorem exists_g_cons {tail rest s : List Char} (htail : tail ≠ []) (h : tail ++ rest = 'g' :: s) :
    ∃ tail', tail = 'g' :: tail' := by
  obtain ⟨x, tail, rfl⟩ := List.exists_cons_of_ne_nil htail
  obtain ⟨rfl, -⟩ := List.cons_eq_cons.mp h
  exact ⟨tail, rfl⟩

/-! ### The pin and calls for other gems -/

theorem isName_rails : isName "rails".toList = true := by decide

/-- A call that asks for Rails, up to its version. -/
def RailsCall.call (call : RailsCall) : GemCall "rails".toList where
  gap := call.gap
  opening := call.opening
  closing := call.closing
  gap_blank := call.gap_blank
  gap_ne := call.gap_ne
  isQuote_opening := call.isQuote_opening
  isQuote_closing := call.isQuote_closing

theorem RailsCall.text_eq (call : RailsCall) : call.text = call.call.text ++
    (',' :: (call.space ++ (call.opening' :: (call.version ++ [call.closing'])))) := by
  simp [RailsCall.text, RailsCall.front, GemCall.text_eq, RailsCall.call]

/-- No call that asks for Rails begins where another call does. -/
theorem GemCall.ne_rails (call : GemCall gem) (hgem : isName gem = true) (hne : gem ≠ "rails".toList)
    (call' : RailsCall) (rest after : List Char) : call.text ++ rest ≠ call'.text ++ after := by
  rw [call'.text_eq, List.append_assoc]
  exact fun heq => hne (GemCall.unique hgem isName_rails heq)

/-- A call for another gem stood in the text before the pin, at a place that lies alike. -/
theorem exists_call_of_pinned {result : List Char} (h : Pass (pinned pin) [] text result)
    (hgem : isName gem = true) (hne : gem ≠ "rails".toList) {call : GemCall gem}
    {lead rest : List Char} (heq : result = lead ++ (call.text ++ rest)) :
    ∃ lead' rest', text = lead' ++ (call.text ++ rest') ∧ Alike lead'.reverse lead.reverse := by
  have hapart : (pinned pin).Apart call.text := by
    rintro front tail before taken after new hcall hfront htail ⟨-, rfl⟩
    exact call.not_begins hgem hcall hfront htail (show Text.isBlank ' ' = true by decide) _
  rcases h.origin (closed_pinned pin) (.refl []) call.text_ne_nil hapart heq with hkept | hput
  · obtain ⟨lead', rest', htext, halike, -⟩ := hkept
    exact ⟨lead', rest', htext, by simpa using halike⟩
  · -- The pin is a call for Rails, and the only letter `g` in it is the first one.
    obtain ⟨front, inner, tail, before', taken, after, new, more, -, hnew, htail, -, ⟨-, rfl⟩, -, -,
      hmore⟩ := hput
    obtain ⟨tail, rfl⟩ := exists_g_cons htail hmore
    cases inner with
    | nil =>
      rw [List.nil_append] at hnew
      rw [← hnew, ← Pin.text_call] at hmore
      exact absurd hmore.symm (call.ne_rails hgem hne pin.call rest more)
    | cons y inner =>
      have hrest : pin.call.front ++ (pin.version ++ ['\'']) = inner ++ 'g' :: tail :=
        (List.cons_eq_cons.mp hnew).2
      exact absurd (hrest ▸ by simp) pin.g_notMem

theorem startsUnquoted_margin {margin rest : List Char} {x : Char}
    (hmargin : margin.all Text.isSpaceOrTab = true) (hx : Text.isBlank x = false)
    (hquote : isQuote x = false) : StartsUnquoted (margin ++ x :: rest) :=
  ⟨margin, x, rest, rfl, all_isBlank_of_margin hmargin, hx, hquote⟩

/-- The pin leaves the lines of other gems where they are. -/
theorem opens_pinned_iff {result : List Char} (h : Pass (pinned pin) [] text result)
    (hgem : isName gem = true) (hne : gem ≠ "rails".toList) : Opens gem result ↔ Opens gem text := by
  constructor
  · intro hopens
    obtain ⟨lead, call, rest, heq, hlead⟩ := opens_iff.mp hopens
    obtain ⟨lead', rest', htext, halike⟩ := exists_call_of_pinned h hgem hne heq
    exact opens_iff.mpr ⟨lead', call, rest', htext, halike.margin.mpr hlead⟩
  · rintro ⟨margin, call, hmargin, hline⟩
    have hstarts : StartsUnquoted (margin ++ call.text) :=
      startsUnquoted_margin hmargin (by decide) (by decide)
    refine ⟨margin, call, hmargin, h.keeps_beginning (closed_pinned pin) hstarts.ne_nil
      (leaves_pinned hstarts fun call' front tail rest after hpart htail heq => ?_) hline⟩
    have hg : 'g' ∉ margin := notMem_margin hmargin (by decide)
    obtain ⟨tail, rfl⟩ := exists_g_cons htail heq
    -- A call for Rails is none for the gem, and begins nowhere else in a call for it.
    obtain ⟨inner, -, hcall⟩ := exists_of_notMem hg hpart
    by_cases hinner : inner = []
    · rw [hinner, List.nil_append] at hcall
      rw [← hcall] at heq
      exact call.ne_rails hgem hne call' rest after heq
    · obtain ⟨y, gap, hgap⟩ := List.exists_cons_of_ne_nil call'.gap_ne
      have hy : Text.isBlank y = true := List.all_eq_true.mp call'.gap_blank y (by simp [hgap])
      have hrails : call'.text = "gem".toList ++ y :: (gap ++ (call'.opening :: ("rails".toList ++
          [call'.closing])) ++ (',' :: (call'.space ++ (call'.opening' ::
            (call'.version ++ [call'.closing']))))) := by
        simp [RailsCall.text, RailsCall.front, hgap]
      exact call.not_begins hgem hcall hinner htail hy _ (hrails ▸ meets_of_append_eq heq)

/-- The pin makes no stray calls for other gems. -/
theorem strays_of_pinned {result : List Char} (h : Pass (pinned pin) [] text result)
    (hgem : isName gem = true) (hne : gem ≠ "rails".toList) (hstrays : Strays gem result) :
    Strays gem text := by
  obtain ⟨lead, call, rest, heq, hlead⟩ := hstrays
  obtain ⟨lead', rest', htext, halike⟩ := exists_call_of_pinned h hgem hne heq
  exact ⟨lead', call, rest', htext, mt halike.margin.mp hlead⟩

/-! ### Edits and calls -/

theorem asksFor_call (call : GemCall gem) {rest : List Char} (hrest : '\n' ∉ rest) :
    asksFor gem (call.text ++ rest) = true := by
  let line : GemLine gem := ⟨[], call.gap, call.opening, call.closing, rest, rfl, call.gap_blank,
    call.gap_ne, call.isQuote_opening, call.isQuote_closing, hrest⟩
  have htext : line.text = call.text ++ rest := line.text_eq
  exact htext ▸ line.asksFor_text

/-- A call that begins in a harmless block, right in front of the end of a line, is all in it. -/
theorem Harmless.call_inside {block tail more rest : List Char} (h : Harmless block)
    (htail : tail <:+ block) (hmore : StartsBreak more) (hgem : isName gem = true) {call : GemCall gem}
    (heq : tail ++ more = call.text ++ rest) : call.text <+: tail := by
  obtain ⟨inner, rfl⟩ : "gem".toList <+: tail := by
    rw [call.text_eq, List.append_assoc] at heq
    exact prefix_of_startsBreak (by decide) hmore heq.symm
  obtain ⟨name, rfl⟩ := h.gems inner htail
  have hgap : call.gap ++ call.opening :: (gem ++ call.closing :: rest) =
      ' ' :: '\'' :: (name ++ more) := by
    simpa [call.text_eq] using heq.symm
  obtain ⟨hsolid, -⟩ := gap_of_space call.gap_blank call.isQuote_opening hgap
  refine prefix_of_startsBreak ?_ hmore heq.symm
  rw [call.text_eq]
  simp [hsolid, solid_of_isName hgem, ne_of_holds call.isQuote_opening (x := '\n') (by decide),
    ne_of_holds call.isQuote_closing (x := '\n') (by decide)]

/-- An edit keeps the end of a line. -/
theorem startsBreak_of_pass {before after more : List Char} (h : Pass (lineSwap e) before after more)
    (hafter : StartsBreak after) : StartsBreak more := by
  rcases hafter with rfl | ⟨rest, rfl⟩
  · exact .inl h.eq_nil
  · obtain ⟨more, rfl, -⟩ := h.keeps fun taken after' new htext ⟨_, _, line, hline, _⟩ => by
      subst hline
      have hhead := congrArg List.head? htext
      rw [line.text_eq] at hhead
      cases hmargin : line.margin with
      | nil => simp [hmargin, GemCall.text] at hhead
      | cons x margin =>
        obtain rfl : '\n' = x := by simpa [hmargin] using hhead
        have hall := line.margin_blank
        simp [hmargin, Text.isSpaceOrTab] at hall
    exact .inr ⟨more, rfl⟩

theorem pass_rewrite (e : Edit) (text : List Char) : Pass (lineSwap e) [] text (e.rewrite text) :=
  pass_replaceAll (swaps_gemLine e) text

/-- An edit of a text in which no line asks for its gem changes nothing. -/
theorem rewrite_eq_self (h : ¬ Opens e.gem.toList text) : e.rewrite text = text := by
  by_contra hne
  exact h (found_gemLine_iff.mp (found_of_replaceAll_ne hne))

/-- Lines that ask for a gem were there before an edit, and the edit is about another gem. -/
theorem opens_of_rewrite (he : e.isPlain = true) (hgem : isName gem = true)
    (hunasked : asksFor gem e.replacement.toList = false) (h : Opens gem (e.rewrite text)) :
    Opens gem text ∧ e.gem.toList ≠ gem := by
  obtain ⟨margin, call, hmargin, lead, rest, heq, hlead⟩ := h
  have hmarginSolid : '\n' ∉ margin := notMem_margin hmargin (by decide)
  have hpart : BreaksQuoted (margin ++ call.text) :=
    breaksQuoted_append hmarginSolid (call.breaksQuoted hgem)
  rcases (pass_rewrite e text).origin (closed_lineSwap he) (.refl [])
    (by simp [GemCall.text]) (apart_lineSwap he hpart) heq with hkept | hput
  · obtain ⟨lead', rest', htext, halike, hidle, -⟩ := hkept
    have hstart : StartsBreak lead'.reverse := by simpa using halike.start.mpr (by simpa using hlead)
    refine ⟨⟨margin, call, hmargin, lead', rest', htext, hstart⟩, ?_⟩
    rintro rfl
    obtain ⟨line, after, -, -, hafter, hline⟩ := exists_gemLine_of_call hmargin call rest'
    exact hidle line.text after _ (by rw [List.append_assoc, hline])
      ⟨by simpa using hstart, hafter, line, rfl, rfl⟩
  · -- A line that the edit has put in does not ask for the gem.
    obtain ⟨front, inner, tail, before', taken, after, new, more, rfl, hnew, -, -,
      ⟨-, hafter, line, -, rfl⟩, -, hpass, hmore⟩ := hput
    obtain rfl := eq_nil_of_startsBreak hnew (line.solid_replacement he) hlead
    rw [List.nil_append] at hnew
    obtain ⟨c, behind, hreplacement, hc⟩ := Edit.isPlain.exists_cons he
    have hc' : Text.isSpaceOrTab c = false := by rcases hc with rfl | rfl <;> decide
    rw [← hnew, hreplacement, List.append_assoc, List.append_assoc, List.cons_append] at hmore
    obtain ⟨-, rfl, hbehind⟩ := run_unique line.margin_blank hmargin hc'
      (show Text.isSpaceOrTab 'g' = false by decide) hmore
    have hall : e.replacement.toList ++ more = call.text ++ rest := by
      rw [hreplacement, List.cons_append, hbehind]
      rfl
    obtain ⟨inner, hinner⟩ := (Edit.isPlain.harmless he).call_inside (List.suffix_refl _)
      (startsBreak_of_pass hpass hafter) hgem hall
    have hinnerSolid : '\n' ∉ inner := fun hmem =>
      Edit.isPlain.solid he (hinner ▸ List.mem_append_right _ hmem)
    have hasks := asksFor_call call hinnerSolid
    rw [hinner, hunasked] at hasks
    cases hasks

/-- Stray calls were there before an edit, or its replacement mentions the gem. -/
theorem strays_of_rewrite (he : e.isPlain = true) (hgem : isName gem = true)
    (h : Strays gem (e.rewrite text)) : Strays gem text ∨
      gem <:+: e.replacement.toList ∧ Opens e.gem.toList text := by
  by_cases hopens : Opens e.gem.toList text
  · obtain ⟨lead, call, rest, heq, hlead⟩ := h
    rcases (pass_rewrite e text).origin (closed_lineSwap he) (.refl []) call.text_ne_nil
      (apart_lineSwap he (call.breaksQuoted hgem)) heq with hkept | hput
    · obtain ⟨lead', rest', htext, halike, -⟩ := hkept
      exact .inl ⟨lead', call, rest', htext, by simpa using mt halike.margin.mp (by simpa using hlead)⟩
    · obtain ⟨front, inner, tail, before', taken, after, new, more, -, hnew, htail, -,
        ⟨-, hafter, line, -, rfl⟩, -, hpass, hmore⟩ := hput
      have hg : 'g' ∉ line.margin := notMem_margin line.margin_blank (by decide)
      obtain ⟨tail, rfl⟩ := exists_g_cons htail hmore
      obtain ⟨behind, -, hreplacement⟩ := exists_of_notMem hg hnew
      have hsuffix : 'g' :: tail <:+ e.replacement.toList := ⟨behind, hreplacement.symm⟩
      have hcall := (Edit.isPlain.harmless he).call_inside hsuffix (startsBreak_of_pass hpass hafter)
        hgem hmore
      exact .inr ⟨(call.infix_text.trans hcall.isInfix).trans hsuffix.isInfix, hopens⟩
  · exact .inl (rewrite_eq_self hopens ▸ h)

/-- An edit keeps how a line begins, if no call for its gem begins behind the margin. -/
theorem beginsLine_rewrite (he : e.isPlain = true) {margin tail : List Char} {x : Char}
    (hmargin : margin.all Text.isSpaceOrTab = true) (hx : Text.isBlank x = false)
    (hquote : isQuote x = false) (hpart : BreaksQuoted (margin ++ x :: tail))
    (hfirst : ∀ (call : GemCall e.gem.toList) (rest after : List Char),
      x :: (tail ++ rest) ≠ call.text ++ after)
    (h : BeginsLine (margin ++ x :: tail) text) :
    BeginsLine (margin ++ x :: tail) (e.rewrite text) := by
  have hstarts : StartsUnquoted (margin ++ x :: tail) := startsUnquoted_margin hmargin hx hquote
  have hsolid : Text.isSpaceOrTab x = false := Bool.eq_false_iff.mpr fun hspace => by
    rw [(Text.isBlank_of_isSpaceOrTab hspace).1] at hx
    cases hx
  refine (pass_rewrite e text).keeps_beginning (closed_lineSwap he) hstarts.ne_nil
    (leaves_lineSwap he hpart hstarts fun line rest after heq => ?_) h
  rw [line.text_eq, List.append_assoc, List.append_assoc, List.append_assoc] at heq
  obtain ⟨-, rfl, hbehind⟩ := run_unique hmargin line.margin_blank hsolid
    (show Text.isSpaceOrTab 'g' = false by decide) heq
  exact hfirst line.call rest (line.rest ++ after) (congrArg ('g' :: ·) hbehind)

/-- An edit leaves the lines of other gems where they are. -/
theorem opens_rewrite (he : e.isPlain = true) (hgem : isName gem = true)
    (hname : isName e.gem.toList = true) (hne : e.gem.toList ≠ gem) (h : Opens gem text) :
    Opens gem (e.rewrite text) := by
  obtain ⟨margin, call, hmargin, hline⟩ := h
  have hpart : BreaksQuoted (margin ++ call.text) :=
    breaksQuoted_append (notMem_margin hmargin (by decide)) (call.breaksQuoted hgem)
  refine ⟨margin, call, hmargin, beginsLine_rewrite he hmargin (by decide) (by decide) hpart
    (fun call' rest after heq => ?_) hline⟩
  exact hne (GemCall.unique hgem hname heq).symm

/-! ### Calls that are commented out -/

/-- A call with one space and straight quotes. -/
def plainCall (gem : List Char) : GemCall gem :=
  ⟨[' '], '\'', '\'', isBlank_space, space_ne_nil, isQuote_straight, isQuote_straight⟩

/-- A call behind a comment sign. -/
def commentOf (gem : List Char) : List Char := '#' :: ' ' :: (plainCall gem).text

/-- An edit that puts the call for its gem behind a comment sign. -/
def Edit.commentsOut (e : Edit) : Bool := (commentOf e.gem.toList).isPrefixOf e.replacement.toList

/-- A line of a text begins with a call that is commented out. -/
def Commented (gem text : List Char) : Prop :=
  ∃ margin, margin.all Text.isSpaceOrTab = true ∧ BeginsLine (margin ++ commentOf gem) text

/-- A call that is commented out strays behind the comment sign. -/
theorem Commented.strays (h : Commented gem text) : Strays gem text := by
  obtain ⟨margin, -, lead, rest, rfl, -⟩ := h
  refine ⟨(lead ++ margin) ++ '#' :: [' '], plainCall gem, rest, by simp [commentOf], ?_⟩
  have hsign : Text.isSpaceOrTab '#' = false := by decide
  simpa using not_atMargin (s := lead ++ margin) (t := [' ']) hsign (by decide) (by decide) []

/-- An edit keeps lines that are commented out. -/
theorem commented_rewrite (he : e.isPlain = true) (hgem : isName gem = true) (h : Commented gem text) :
    Commented gem (e.rewrite text) := by
  obtain ⟨margin, hmargin, hline⟩ := h
  have hmarginSolid : '\n' ∉ margin := notMem_margin hmargin (by decide)
  have hsolid : '\n' ∉ margin ++ commentOf gem := by
    simp [commentOf, GemCall.text_eq, plainCall, hmarginSolid, solid_of_isName hgem]
  refine ⟨margin, hmargin, beginsLine_rewrite he hmargin (by decide) (by decide)
    (breaksQuoted_of_notMem hsolid) (fun call rest after heq => ?_) hline⟩
  exact absurd (List.cons_eq_cons.mp heq).1 (by decide)

/-- An edit that comments its gem out does so where a line asks for it. -/
theorem commented_of_opens (hcomments : e.commentsOut = true) (h : Opens e.gem.toList text) :
    Commented e.gem.toList (e.rewrite text) := by
  obtain ⟨lead, taken, after, new, htext, hswap⟩ :=
    (found_iff (swaps_gemLine e) text).mp (found_gemLine_iff.mpr h)
  obtain ⟨rest, hreplacement⟩ := List.isPrefixOf_iff_prefix.mp hcomments
  rcases (pass_rewrite e text).first with ⟨hnone, -⟩ | ⟨lead, _, after, _, more, -, hswap, hresult⟩
  · obtain ⟨-, -, line, rfl, -⟩ := id hswap
    exact absurd hswap (by simpa using hnone lead line.text after new htext line.text_ne_nil)
  · obtain ⟨hlead, -, line, rfl, rfl⟩ := hswap
    refine ⟨line.margin, line.margin_blank, lead, rest ++ more, ?_, by simpa using hlead⟩
    rw [hresult, ← hreplacement]
    simp

/-! ### Several edits -/

/-- Edits of which none asks for a gem in what it puts in, and none mentions it but to comment it
out. -/
structure Tracked (gem : List Char) (edits : List Edit) : Prop where
  isName : isName gem = true
  plain : ∀ e ∈ edits, e.isPlain = true
  names : ∀ e ∈ edits, Gemfile.isName e.gem.toList = true
  unasked : ∀ e ∈ edits, asksFor gem e.replacement.toList = false
  mentioned : ∀ e ∈ edits, gem <:+: e.replacement.toList →
    e.gem.toList = gem ∧ e.commentsOut = true

theorem Tracked.of_cons {edits : List Edit} (h : Tracked gem (e :: edits)) : Tracked gem edits where
  isName := h.isName
  plain e' he' := h.plain e' (List.mem_cons_of_mem e he')
  names e' he' := h.names e' (List.mem_cons_of_mem e he')
  unasked e' he' := h.unasked e' (List.mem_cons_of_mem e he')
  mentioned e' he' := h.mentioned e' (List.mem_cons_of_mem e he')

section

variable {edits : List Edit}

/-- Lines that ask for a gem after several edits were there before, and no edit is about the gem. -/
theorem opens_of_foldl (h : Tracked gem edits)
    (hopens : Opens gem (edits.foldl (fun text e => e.rewrite text) text)) :
    Opens gem text ∧ ∀ e ∈ edits, e.gem.toList ≠ gem := by
  induction edits generalizing text with
  | nil => exact ⟨hopens, by simp⟩
  | cons e edits ih =>
    obtain ⟨hfirst, hrest⟩ := ih h.of_cons hopens
    obtain ⟨hbefore, hne⟩ := opens_of_rewrite (h.plain e List.mem_cons_self) h.isName
      (h.unasked e List.mem_cons_self) hfirst
    exact ⟨hbefore, List.forall_mem_cons.mpr ⟨hne, hrest⟩⟩

/-- Stray calls after several edits were there before, or an edit has commented a line out. -/
theorem strays_of_foldl (h : Tracked gem edits)
    (hstrays : Strays gem (edits.foldl (fun text e => e.rewrite text) text)) : Strays gem text ∨
      Opens gem text ∧ ∃ e ∈ edits, e.gem.toList = gem ∧ e.commentsOut = true := by
  induction edits generalizing text with
  | nil => exact .inl hstrays
  | cons e edits ih =>
    have hplain := h.plain e List.mem_cons_self
    rcases ih h.of_cons hstrays with hfirst | ⟨hopens, e', he', hout⟩
    · rcases strays_of_rewrite hplain h.isName hfirst with hbefore | ⟨hmentions, hopens⟩
      · exact .inl hbefore
      · obtain ⟨rfl, hout⟩ := h.mentioned e List.mem_cons_self hmentions
        exact .inr ⟨hopens, e, List.mem_cons_self, rfl, hout⟩
    · have hbefore :=
        (opens_of_rewrite hplain h.isName (h.unasked e List.mem_cons_self) hopens).1
      exact .inr ⟨hbefore, e', List.mem_cons_of_mem e he', hout⟩

/-- Edits that comment a gem out keep its lines, as they are or commented out. -/
theorem opens_or_commented_foldl (h : Tracked gem edits)
    (hout : ∀ e ∈ edits, e.gem.toList = gem → e.commentsOut = true)
    (htext : Opens gem text ∨ Commented gem text) :
    Opens gem (edits.foldl (fun text e => e.rewrite text) text) ∨
      Commented gem (edits.foldl (fun text e => e.rewrite text) text) := by
  induction edits generalizing text with
  | nil => exact htext
  | cons e edits ih =>
    have hplain := h.plain e List.mem_cons_self
    refine ih h.of_cons (fun e' he' => hout e' (List.mem_cons_of_mem e he')) ?_
    rcases htext with hopens | hcommented
    · by_cases hgem : e.gem.toList = gem
      · subst hgem
        exact .inr (commented_of_opens (hout e List.mem_cons_self rfl) hopens)
      · exact .inl (opens_rewrite hplain h.isName (h.names e List.mem_cons_self) hgem hopens)
    · exact .inr (commented_rewrite hplain h.isName hcommented)

/-- Where a line asks for a gem that edits comment out, a call strays behind a comment sign. -/
theorem strays_foldl (h : Tracked gem edits)
    (hout : ∀ e ∈ edits, e.gem.toList = gem → e.commentsOut = true)
    (hedit : ∃ e ∈ edits, e.gem.toList = gem) (hopens : Opens gem text) :
    Strays gem (edits.foldl (fun text e => e.rewrite text) text) := by
  obtain ⟨e, he, hgem⟩ := hedit
  rcases opens_or_commented_foldl h hout (.inl hopens) with hopens | hcommented
  · exact absurd hgem ((opens_of_foldl h hopens).2 e he)
  · exact hcommented.strays

end

end RailsUpgrade.Gemfile
