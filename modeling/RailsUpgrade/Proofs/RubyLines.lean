import RailsUpgrade.Proofs.Absent
import RailsUpgrade.Proofs.GemEdits

/-!
# `RailsUpgrade.Proofs.RubyLines`: lines about Ruby under the pin and the edits

A Gemfile may say which Ruby to use in several forms. Its update looks for any line that begins with
`ruby`, while the detection asks for a quote and a digit behind it. The pin of Rails and the edits keep
both as they are.

* `NamesRuby`, `found_rubyDirective_iff`: lines that begin with `ruby`;
* `NumbersRuby`, `found_rubyDirectiveMissing_iff`: lines that go on with a quote and a digit;
* `RubyPart`: how such lines begin. `begins_pinned_iff`, `begins_foldl_iff`: the pin and the edits leave
  these beginnings where they are, and put in none.
-/

set_option autoImplicit false

namespace RailsUpgrade.Gemfile

open Pattern (Expr CharSet Pass noChar any_noChar startsWithWord mem_ends_seq mem_ends_anchor
  reads_of_mem_ends reads_seq_anchor reads_chars reads_run exists_ends_of_found found_of_canTake
  found_absent canTake_seq canTake_star canTake_plus canTake_one canTake_chars canTake_anchor
  not_meets_cons)
open Text (StartsBreak)

/-- How a line begins that asks for a version of Ruby by its number. -/
structure RubyLine where
  margin : List Char
  gap : List Char
  opening : Char
  digit : Char
  margin_blank : margin.all Text.isBlank = true
  margin_solid : '\n' ∉ margin
  gap_blank : gap.all Text.isBlank = true
  gap_ne : gap ≠ []
  isQuote_opening : isQuote opening = true
  isDigit_digit : Text.isDigit digit = true

def RubyLine.text (line : RubyLine) : List Char :=
  line.margin ++ ("ruby".toList ++ (line.gap ++ [line.opening, line.digit]))

variable {part text : List Char} {e : Edit} {pin : Pin} {q : Char → Bool}

/-- A line of a text begins with a part, right behind which no `q` stands. -/
def Begins (part : List Char) (q : Char → Bool) (text : List Char) : Prop :=
  ∃ lead rest, text = lead ++ (part ++ rest) ∧ StartsBreak lead.reverse ∧ rest.head?.any q = false

/-! ### Lines that begin with `ruby` -/

/-- A line of a text begins with the word `ruby`. -/
def NamesRuby (text : List Char) : Prop :=
  ∃ margin, margin.all Text.isSpaceOrTab = true ∧
    Begins (margin ++ "ruby".toList) (Pattern.CharKind.word.mem false) text

theorem found_rubyDirective_iff : rubyDirective.found text = true ↔ NamesRuby text := by
  rw [Pattern.found, rubyPatterns.1]
  -- Behind the word the edge only depends on what follows.
  have hedge : ∀ (lead margin : List Char) (c : Pattern.Cursor),
      c.before = "ruby".toList.reverse ++ (margin.reverse ++ lead) →
      (Pattern.Anchor.wordEdge false).holds c = !startsWithWord false c.after := by
    intro lead margin c hbefore
    rw [Pattern.Anchor.holds, hbefore]
    cases startsWithWord false c.after <;> rfl
  constructor
  · intro hfound
    obtain ⟨lead, rest, c, rfl, hc⟩ := exists_ends_of_found hfound
    obtain ⟨hlead, margin, mid, hmargin, rfl, hmid, hc⟩ := exists_parts_of_mem_ends hc
    obtain ⟨rfl, hholds⟩ := mem_ends_anchor.mp hc
    rw [hedge _ _ _ hmid, Bool.not_eq_true'] at hholds
    exact ⟨margin, by simpa using hmargin, lead, c.after, by simp, hlead, hholds⟩
  · rintro ⟨margin, hmargin, lead, rest, rfl, hlead, hrest⟩
    have htake : (rubyExpr (.anchor (.wordEdge false))).CanTake lead.reverse
        ([] ++ (margin ++ ("ruby".toList ++ []))) rest := by
      refine canTake_seq (canTake_anchor ?_) (canTake_seq (canTake_star (by simpa using hmargin))
        (canTake_chars (canTake_anchor ?_)))
      · rintro c hc -
        exact startsBreak_iff.mpr (hc ▸ hlead)
      · rintro c hbefore rfl
        rw [hedge _ _ _ hbefore, startsWithWord, hrest]
        rfl
    simpa using found_of_canTake htake

/-! ### Lines that go on with a number -/

def digitSet : CharSet := .ofItems [.kind .digit false false]

@[simp] theorem mem_digitSet (x : Char) : digitSet.mem x = Text.isDigit x := by
  simp [digitSet, Pattern.CharItem.mem, Pattern.CharKind.mem]

/-- A line of a text asks for a version of Ruby by its number. -/
def NumbersRuby (text : List Char) : Prop := ∃ line : RubyLine, Begins line.text noChar text

/-- A pattern for lines with a number. The blanks in front may reach over several lines. -/
def numbersExpr : Expr :=
  .seq (.anchor .lineStart) (.seq (.star gapSet) (.chars "ruby" (.seq (.plus gapSet)
    (.seq (.one quoteSet) (.one digitSet)))))

theorem rubyDirectiveMissing_expr : Catalogue.rubyDirectiveMissing.expr = .absent numbersExpr :=
  Pattern.expr_fixed String.toList_ofList (by decide)

/-- A text behind its last line break. -/
theorem exists_last_line (s : List Char) : ∃ front last, s = front ++ last ∧ '\n' ∉ last ∧
    (front = [] ∨ ∃ more, front = more ++ ['\n']) := by
  refine ⟨s.rdropWhile (· != '\n'), s.rtakeWhile (· != '\n'),
    List.rdropWhile_append_rtakeWhile.symm, fun hmem => ?_, ?_⟩
  · simpa using List.mem_rtakeWhile_imp hmem
  · rcases List.eq_nil_or_concat' (s.rdropWhile (· != '\n')) with hnil | ⟨more, x, hmore⟩
    · exact .inl hnil
    · have hlast := List.rdropWhile_last_not (· != '\n') s (by simp [hmore])
      obtain rfl : x = '\n' := by simpa [hmore] using hlast
      exact .inr ⟨more, hmore⟩

theorem found_numbersExpr_iff : numbersExpr.found text = true ↔ NumbersRuby text := by
  constructor
  · intro hfound
    obtain ⟨lead, rest, c, rfl, hc⟩ := exists_ends_of_found hfound
    obtain ⟨start, hstart, hc⟩ := mem_ends_seq.mp hc
    obtain ⟨rfl, hholds⟩ := mem_ends_anchor.mp hstart
    obtain ⟨s, htakes, hreads⟩ := reads_of_mem_ends numbersExpr
      (mem_ends_seq.mpr ⟨_, hstart, hc⟩)
    rw [numbersExpr, reads_seq_anchor] at hreads
    obtain ⟨blanks, _, s, hblanks, hruby, rfl⟩ := hreads
    rw [reads_chars] at hruby
    obtain ⟨_, rfl, gap, _, _, hgap, ⟨_, _, _, ⟨⟨opening, hopening, rfl⟩, rfl⟩,
      ⟨⟨digit, hdigit, rfl⟩, -⟩, rfl⟩, rfl⟩ := hruby
    obtain ⟨-, hblanks, -⟩ := reads_run.mp hblanks
    obtain ⟨hlength, hgap, -⟩ := reads_run.mp hgap
    rw [all_gapSet] at hblanks hgap
    -- The line begins behind the last break of the blanks.
    obtain ⟨front, margin, rfl, hsolid, hfront⟩ := exists_last_line blanks
    rw [List.all_append, Bool.and_eq_true] at hblanks
    have hgapNe : gap ≠ [] := by
      rintro rfl
      simp at hlength
    have hrest := htakes.after
    refine ⟨⟨margin, gap, opening, digit, hblanks.2, hsolid, hgap, hgapNe, by simpa using hopening,
      by simpa using hdigit⟩, lead ++ front, c.after, ?_, ?_, any_noChar _⟩
    · rw [show rest = _ from hrest]
      simp [RubyLine.text]
    · rcases hfront with rfl | ⟨more, rfl⟩
      · simpa using startsBreak_iff.mp hholds
      · simp [StartsBreak]
  · rintro ⟨line, lead, rest, rfl, hlead, -⟩
    have htake : numbersExpr.CanTake lead.reverse ([] ++ (line.margin ++ ("ruby".toList ++
        (line.gap ++ ([line.opening] ++ [line.digit]))))) rest := by
      refine canTake_seq (canTake_anchor fun c hc _ => ?_) (canTake_seq (canTake_star ?_)
        (canTake_chars (canTake_seq (canTake_plus ?_ line.gap_ne) (canTake_seq (canTake_one ?_)
          (canTake_one ?_)))))
      · exact startsBreak_iff.mpr (hc ▸ hlead)
      · rw [all_gapSet, line.margin_blank]
      · rw [all_gapSet, line.gap_blank]
      · rw [mem_quoteSet, line.isQuote_opening]
      · rw [mem_digitSet, line.isDigit_digit]
    simpa [RubyLine.text] using found_of_canTake htake

theorem found_rubyDirectiveMissing_iff :
    Catalogue.rubyDirectiveMissing.found text = true ↔ ¬ NumbersRuby text := by
  rw [Pattern.found, rubyDirectiveMissing_expr, found_absent, Bool.not_eq_true', ← Bool.not_eq_true,
    found_numbersExpr_iff]

/-! ### How lines about Ruby begin -/

/-- What a line about Ruby begins with: a margin and an `r`, and no `g`. A break is followed by a
quote, and none stands at the end. -/
structure RubyPart (part : List Char) : Prop where
  starts : ∃ margin rest, part = margin ++ 'r' :: rest ∧ margin.all Text.isBlank = true
  breaks : BreaksQuoted part
  g_notMem : 'g' ∉ part
  ends : ∃ front x, part = front ++ [x] ∧ x ≠ '\n'

theorem RubyPart.startsUnquoted (h : RubyPart part) : StartsUnquoted part := by
  obtain ⟨margin, rest, rfl, hmargin⟩ := h.starts
  exact ⟨margin, 'r', rest, rfl, hmargin, by decide, by decide⟩

theorem RubyPart.ne_nil (h : RubyPart part) : part ≠ [] := h.startsUnquoted.ne_nil

/-- Nothing that begins with another letter behind its margin begins with such a part. -/
theorem RubyPart.ne_append (h : RubyPart part) {margin inner : List Char} {c : Char}
    (hmargin : margin.all Text.isBlank = true) (hblank : Text.isBlank c = false) (hc : c ≠ 'r')
    (rest : List Char) : part ++ rest ≠ margin ++ c :: inner := by
  obtain ⟨margin', inner', rfl, hmargin'⟩ := h.starts
  intro heq
  rw [List.append_assoc, List.cons_append] at heq
  exact hc (run_unique hmargin' hmargin (by decide) hblank heq).2.1.symm

theorem RubyLine.rubyPart (line : RubyLine) : RubyPart line.text where
  starts := ⟨line.margin, _, rfl, line.margin_blank⟩
  breaks := by
    have htext : line.text = (line.margin ++ "ruby".toList) ++ (line.gap ++ line.opening ::
        [line.digit]) := by
      simp [RubyLine.text]
    have hdigit : '\n' ≠ line.digit := ne_of_holds line.isDigit_digit (by decide)
    rw [htext]
    exact breaksQuoted_append (by simp [line.margin_solid]) (breaksQuoted_gap line.gap_blank
      line.isQuote_opening (breaksQuoted_of_notMem (by simpa using hdigit)))
  g_notMem := by
    have hblank : ∀ {s : List Char}, s.all Text.isBlank = true → 'g' ∉ s := fun h hmem =>
      ne_of_holds (List.all_eq_true.mp h _ hmem) (by decide) rfl
    have hdigit : 'g' ≠ line.digit := ne_of_holds line.isDigit_digit (by decide)
    simp [RubyLine.text, hblank line.margin_blank, hblank line.gap_blank, hdigit,
      ne_of_holds line.isQuote_opening (x := 'g') (by decide)]
  ends := ⟨line.margin ++ ("ruby".toList ++ (line.gap ++ [line.opening])), line.digit,
    by simp [RubyLine.text], (ne_of_holds line.isDigit_digit (by decide)).symm⟩

theorem rubyPart_of_margin {margin : List Char} (h : margin.all Text.isSpaceOrTab = true) :
    RubyPart (margin ++ "ruby".toList) where
  starts := ⟨margin, _, rfl, all_isBlank_of_margin h⟩
  breaks := breaksQuoted_of_notMem (by
    simp [notMem_margin h (show Text.isSpaceOrTab '\n' = false by decide)])
  g_notMem := by simp [notMem_margin h (show Text.isSpaceOrTab 'g' = false by decide)]
  ends := ⟨margin ++ "rub".toList, 'y', by simp, by decide⟩

/-! ### Passes -/

/-- A replacement on one line that begins with another letter begins no such line. -/
theorem not_putIn {swap : Pattern.Swap} (hpart : RubyPart part)
    (hnew : ∀ {before taken after new}, swap before taken after new → '\n' ∉ new ∧
      ∃ margin c inner, new = margin ++ c :: inner ∧ margin.all Text.isBlank = true ∧
        Text.isBlank c = false ∧ c ≠ 'r')
    {lead rest : List Char} (hlead : StartsBreak lead.reverse) :
    ¬ Pattern.PutIn swap text part [] lead rest := by
  rintro ⟨front, inner, tail, before, taken, after, new, more, rfl, hsplit, -, -, hswap, -, -, hmore⟩
  obtain ⟨hsolid, margin, c, behind, rfl, hmargin, hblank, hc⟩ := hnew hswap
  -- The part begins a line, and the replacement has no break, so it begins with the part.
  obtain rfl := Pattern.eq_nil_of_startsBreak hsplit hsolid hlead
  rw [List.nil_append] at hsplit
  rw [← hsplit, List.append_assoc, List.cons_append] at hmore
  exact hpart.ne_append hmargin hblank hc rest hmore.symm

/-- A pass keeps the beginnings of lines about Ruby and puts in none, if no `q` comes or goes right
behind them. -/
theorem begins_iff_of_pass {swap : Pattern.Swap} {result : List Char} (h : Pass swap [] text result)
    (hclosed : swap.Closed) (hapart : swap.Apart part) (hleaves : swap.Leaves part)
    (hpart : RubyPart part)
    (hnew : ∀ {before taken after new}, swap before taken after new → '\n' ∉ new ∧
      ∃ margin c inner, new = margin ++ c :: inner ∧ margin.all Text.isBlank = true ∧
        Text.isBlank c = false ∧ c ≠ 'r')
    (hbehind : ∀ {before rest rest'}, Pass swap (part.reverse ++ before) rest rest' →
      rest.head?.any q = rest'.head?.any q) : Begins part q result ↔ Begins part q text := by
  constructor
  · rintro ⟨lead, rest, heq, hlead, hrest⟩
    rcases h.origin hclosed (.refl []) hpart.ne_nil hapart heq with hkept | hput
    · obtain ⟨lead', rest', htext, halike, -, hpass⟩ := hkept
      rw [List.append_nil, List.append_nil] at halike
      rw [List.reverse_append, List.append_assoc] at hpass
      exact ⟨lead', rest', htext, halike.start.mpr hlead, (hbehind hpass).trans hrest⟩
    · exact absurd hput (not_putIn hpart hnew hlead)
  · rintro ⟨lead, rest, heq, hlead, hrest⟩
    obtain ⟨lead', rest', hresult, hlead', hpass⟩ :=
      h.keeps_part hclosed (.refl []) hpart.ne_nil hleaves heq (by simpa using hlead)
    rw [List.reverse_append, List.append_assoc] at hpass
    exact ⟨lead', rest', hresult, by simpa using hlead', (hbehind hpass).symm.trans hrest⟩

theorem Pin.solid (pin : Pin) : '\n' ∉ pin.text := by
  have hversion : '\n' ∉ pin.version := fun hmem => by simpa using (pin.plain _ hmem).1
  intro hmem
  rcases List.mem_append.mp hmem with hmem | hmem
  · exact absurd hmem (by decide)
  · simp [hversion] at hmem

theorem begins_pinned_iff {result : List Char} (h : Pass (pinned pin) [] text result)
    (hpart : RubyPart part) : Begins part q result ↔ Begins part q text := by
  refine begins_iff_of_pass h (closed_pinned pin) ?_ ?_ hpart ?_ ?_
  · rintro front tail before taken after new rfl - htail ⟨-, rfl⟩
    exact not_meets_cons (fun hmem => hpart.g_notMem (List.mem_append_right _ hmem)) htail
  · refine leaves_pinned hpart.startsUnquoted fun call front tail rest after heq htail hsame => ?_
    obtain ⟨tail, rfl⟩ := exists_g_cons htail hsame
    exact hpart.g_notMem (heq ▸ by simp)
  · rintro before taken after new ⟨-, rfl⟩
    exact ⟨pin.solid, [], 'g', _, rfl, by decide, by decide, by decide⟩
  · intro before rest rest' hpass
    refine hpass.any_head fun before taken after new ⟨⟨call, htaken⟩, hnew⟩ => ?_
    subst htaken hnew
    exact ⟨List.cons_ne_nil _ _, rfl⟩

theorem begins_rewrite_iff (he : e.isPlain = true) (hpart : RubyPart part) :
    Begins part q (e.rewrite text) ↔ Begins part q text := by
  refine begins_iff_of_pass (pass_rewrite e text) (closed_lineSwap he) (apart_lineSwap he hpart.breaks)
    ?_ hpart ?_ ?_
  · refine leaves_lineSwap he hpart.breaks hpart.startsUnquoted fun line rest after heq => ?_
    rw [line.text_eq, List.append_assoc, List.append_assoc] at heq
    exact hpart.ne_append (all_isBlank_of_margin line.margin_blank) (by decide) (by decide) rest heq
  · rintro before taken after new ⟨-, -, line, -, rfl⟩
    obtain ⟨c, inner, hreplacement, hc⟩ := Edit.isPlain.exists_cons he
    refine ⟨line.solid_replacement he, line.margin, c, inner, by rw [hreplacement],
      all_isBlank_of_margin line.margin_blank, ?_, ?_⟩
    · rcases hc with rfl | rfl <;> decide
    · rcases hc with rfl | rfl <;> decide
  · -- Behind the part no line begins, so nothing is swapped there.
    intro before rest rest' hpass
    obtain ⟨front, x, rfl, hx⟩ := hpart.ends
    cases rest with
    | nil => rw [hpass.eq_nil]
    | cons y rest =>
      obtain ⟨more, rfl, -⟩ := hpass.keeps fun taken after new _ ⟨hstart, _⟩ => by
        rw [List.reverse_append, List.reverse_singleton, List.singleton_append, List.cons_append,
          Pattern.startsBreak_cons] at hstart
        exact hx hstart
      rfl

theorem begins_foldl_iff {edits : List Edit} (h : ∀ e ∈ edits, e.isPlain = true) (hpart : RubyPart part) :
    Begins part q (edits.foldl (fun text e => e.rewrite text) text) ↔ Begins part q text := by
  induction edits generalizing text with
  | nil => exact Iff.rfl
  | cons e edits ih =>
    rw [List.foldl_cons, ih fun e' he' => h e' (List.mem_cons_of_mem e he'),
      begins_rewrite_iff (h e List.mem_cons_self) hpart]

end RailsUpgrade.Gemfile
