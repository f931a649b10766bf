import Mathlib.Data.List.Infix
import RailsUpgrade.Proofs.ClassText
import RailsUpgrade.Proofs.RailsPin

/-!
# `RailsUpgrade.Proofs.GemLines`: lines of a Gemfile that ask for a gem

In a text without broken calls an `Edit` works line by line: a line that asks for its gem is replaced,
but for the margin, and every other line stays.

* `asksFor` tells whether a line asks for a gem, and `GemLine` is such a line in parts;
* `editLine` is what an edit makes of a line;
* `Edit.apply_join`: an edit of a text edits its lines, and a tidy text stays tidy;
* `settle` is what several edits make of a line one after the other;
* `editLine_settle`: edits whose replacements respect each other have nothing left to do.
-/

set_option autoImplicit false

namespace RailsUpgrade.Gemfile

open Pattern (Match Swap reads_literal reads_run reads_of_mem_ends reads_seq_anchor canTake_seq
  canTake_one canTake_star canTake_plus canTake_literal canTake_group canTake_anchor pass_replaceAll
  mem_ends_seq mem_ends_anchor)
open Text (StartsBreak)

/-! ### Lines that ask for a gem -/

/-- Whether a line asks for a gem. -/
def asksFor (gem line : List Char) : Bool :=
  match line.dropWhile Text.isSpaceOrTab with
  | 'g' :: 'e' :: 'm' :: rest =>
    rest.head?.any Text.isBlank && match rest.dropWhile Text.isBlank with
      | opening :: name => isQuote opening && gem.isPrefixOf name &&
          (name.drop gem.length).head?.any isQuote
      | [] => false
  | _ => false

/-- A line that asks for a gem, in parts. -/
structure GemLine (gem : List Char) where
  margin : List Char
  gap : List Char
  opening : Char
  closing : Char
  rest : List Char
  margin_blank : margin.all Text.isSpaceOrTab = true
  gap_blank : gap.all Text.isBlank = true
  gap_ne : gap ≠ []
  isQuote_opening : isQuote opening = true
  isQuote_closing : isQuote closing = true
  rest_solid : '\n' ∉ rest

namespace GemLine

variable {gem : List Char} (line : GemLine gem)

def text : List Char :=
  line.margin ++ ("gem".toList ++ (line.gap ++ ([line.opening] ++ (gem ++
    ([line.closing] ++ line.rest)))))

theorem text_ne_nil : line.text ≠ [] := by simp [text]

theorem takeWhile_text : line.text.takeWhile Text.isSpaceOrTab = line.margin := by
  rw [text, List.takeWhile_append_of_pos (List.all_eq_true.mp line.margin_blank)]
  simp [Text.isSpaceOrTab]

theorem asksFor_text : asksFor gem line.text = true := by
  obtain ⟨x, gap, hgap⟩ := List.exists_cons_of_ne_nil line.gap_ne
  have hx : Text.isBlank x = true := by
    have hall := line.gap_blank
    rw [hgap, List.all_cons, Bool.and_eq_true] at hall
    exact hall.1
  have hdrop : line.text.dropWhile Text.isSpaceOrTab = 'g' :: 'e' :: 'm' :: (line.gap ++
      ([line.opening] ++ (gem ++ ([line.closing] ++ line.rest)))) := by
    rw [text, List.dropWhile_append_of_pos (List.all_eq_true.mp line.margin_blank)]
    simp [Text.isSpaceOrTab]
  have hname : (line.gap ++ ([line.opening] ++ (gem ++ ([line.closing] ++
      line.rest)))).dropWhile Text.isBlank =
        line.opening :: (gem ++ (line.closing :: line.rest)) := by
    rw [List.dropWhile_append_of_pos (List.all_eq_true.mp line.gap_blank)]
    simp [isBlank_eq_false_of_isQuote line.isQuote_opening]
  unfold asksFor
  simp only [hdrop, hname]
  simp [hgap, hx, line.isQuote_opening, line.isQuote_closing]

end GemLine

/-- A line that asks for a gem can be cut into its parts. -/
theorem exists_gemLine {gem line : List Char} (hline : '\n' ∉ line)
    (h : asksFor gem line = true) : ∃ parts : GemLine gem, line = parts.text := by
  unfold asksFor at h
  split at h
  · rename_i rest hrest
    rw [Bool.and_eq_true] at h
    obtain ⟨hgap, h⟩ := h
    split at h
    · rename_i opening name hname
      simp only [Bool.and_eq_true, List.isPrefixOf_iff_prefix] at h
      obtain ⟨⟨hopening, tail, rfl⟩, hclosing⟩ := h
      rw [List.drop_left] at hclosing
      cases tail with
      | nil => cases hclosing
      | cons closing tail =>
        -- The margin, the gap and the name are what was cut off, so that they make up the line.
        have hmargin : line.takeWhile Text.isSpaceOrTab ++ ("gem".toList ++ rest) = line := by
          have hsplit := List.takeWhile_append_dropWhile (p := Text.isSpaceOrTab) (l := line)
          rw [hrest] at hsplit
          simpa using hsplit
        have hrest' : rest.takeWhile Text.isBlank ++ ([opening] ++ (gem ++ ([closing] ++ tail))) =
            rest := by
          have hsplit := List.takeWhile_append_dropWhile (p := Text.isBlank) (l := rest)
          rw [hname] at hsplit
          simpa using hsplit
        have hline' : line = line.takeWhile Text.isSpaceOrTab ++ ("gem".toList ++
            (rest.takeWhile Text.isBlank ++ ([opening] ++ (gem ++ ([closing] ++ tail))))) := by
          rw [hrest', hmargin]
        refine ⟨⟨line.takeWhile Text.isSpaceOrTab, rest.takeWhile Text.isBlank, opening, closing, tail,
          List.all_takeWhile, List.all_takeWhile, ?_, hopening, hclosing, ?_⟩, hline'⟩
        · cases rest with
          | nil => cases hgap
          | cons x rest => simp [show Text.isBlank x = true from hgap]
        · intro hmem
          rw [hline'] at hline
          simp [hmem] at hline
    · cases h
  · cases h

/-- A margin does not matter for what a line asks for. -/
theorem asksFor_append (gem : List Char) {margin : List Char} (h : margin.all Text.isSpaceOrTab = true)
    (s : List Char) : asksFor gem (margin ++ s) = asksFor gem s := by
  unfold asksFor
  rw [List.dropWhile_append_of_pos (List.all_eq_true.mp h)]

/-! ### What an edit makes of a line -/

/-- A line that asks for the gem of an edit is replaced, but for its margin. -/
def editLine (e : Edit) (line : List Char) : List Char :=
  if asksFor e.gem.toList line then line.takeWhile Text.isSpaceOrTab ++ e.replacement.toList else line

/-- The swap that an edit makes. -/
def lineSwap (e : Edit) : Swap := fun before taken after new =>
  StartsBreak before ∧ StartsBreak after ∧ ∃ line : GemLine e.gem.toList, taken = line.text ∧
    new = line.margin ++ e.replacement.toList

theorem gemLine_eq (gem : String) : gemLine gem =
    .seq (.anchor .lineStart) (.seq (.group 1 (.star blankSet)) (.seq (.literal "gem".toList)
      (.seq (.plus gapSet) (.seq (.one quoteSet) (.seq (.literal gem.toList) (.seq (.one quoteSet)
        (.seq (.star lineSet) (.anchor .lineEnd)))))))) := rfl

/-- The edges of a line are line breaks and the ends of the text. -/
theorem startsBreak_iff {s : List Char} :
    (s.isEmpty || s.head? == some '\n') = true ↔ StartsBreak s := by
  cases s with
  | nil => simp [StartsBreak]
  | cons x s => simp [StartsBreak]

theorem exists_gemLine_of_mem_ends {gem : String} {before after : List Char} {pos : Nat}
    {c : Pattern.Cursor} (h : c ∈ (gemLine gem).ends { before, after, pos }) :
    StartsBreak before ∧ StartsBreak c.after ∧ ∃ line : GemLine gem.toList,
      Pattern.Cursor.Takes { before, after, pos } line.text c ∧ c.group? 1 = some line.margin := by
  rw [gemLine_eq] at h
  obtain ⟨s, htakes, hreads⟩ := reads_of_mem_ends _ h
  obtain ⟨start, hstart, h⟩ := mem_ends_seq.mp h
  obtain ⟨rfl, hbefore⟩ := mem_ends_anchor.mp hstart
  -- Six parts, then the end of the line.
  obtain ⟨_, _, h⟩ := mem_ends_seq.mp h
  obtain ⟨_, _, h⟩ := mem_ends_seq.mp h
  obtain ⟨_, _, h⟩ := mem_ends_seq.mp h
  obtain ⟨_, _, h⟩ := mem_ends_seq.mp h
  obtain ⟨_, _, h⟩ := mem_ends_seq.mp h
  obtain ⟨_, _, h⟩ := mem_ends_seq.mp h
  obtain ⟨_, _, h⟩ := mem_ends_seq.mp h
  obtain ⟨rfl, hafter⟩ := mem_ends_anchor.mp h
  refine ⟨startsBreak_iff.mp hbefore, startsBreak_iff.mp hafter, ?_⟩
  rw [reads_seq_anchor] at hreads
  obtain ⟨margin, _, s, ⟨_, hmargin, rfl⟩, ⟨word, _, s, hword, ⟨gap, _, s, hgap, ⟨_, _, s,
    ⟨⟨opening, hopening, rfl⟩, rfl⟩, ⟨name, _, s, hname, ⟨_, _, s, ⟨⟨closing, hclosing, rfl⟩, rfl⟩,
      ⟨rest, _, s, hrest, ⟨rfl, htexts⟩, rfl⟩, rfl⟩, rfl⟩, rfl⟩, rfl⟩, rfl⟩, rfl⟩ := hreads
  obtain ⟨-, hmarginAll, rfl⟩ := reads_run.mp hmargin
  obtain ⟨rfl, rfl⟩ := reads_literal.mp hword
  obtain ⟨hlength, hgapAll, rfl⟩ := reads_run.mp hgap
  obtain ⟨rfl, rfl⟩ := reads_literal.mp hname
  obtain ⟨-, hrestAll, rfl⟩ := reads_run.mp hrest
  refine ⟨⟨margin, gap, opening, closing, rest, ?_, by rwa [all_gapSet] at hgapAll, ?_,
    by simpa using hopening, by simpa using hclosing, ?_⟩, ?_, ?_⟩
  · simpa using hmarginAll
  · rintro rfl
    simp at hlength
  · intro hmem
    simpa using List.all_eq_true.mp hrestAll _ hmem
  · simpa [GemLine.text] using htakes
  · rw [← Pattern.Cursor.lookup_texts, htexts]
    simp

theorem canTake_gemLine {gem : String} (line : GemLine gem.toList) {before after : List Char}
    (hbefore : StartsBreak before) (hafter : StartsBreak after) :
    (gemLine gem).CanTake before line.text after := by
  have htext : line.text = [] ++ (line.margin ++ ("gem".toList ++ (line.gap ++ ([line.opening] ++
      (gem.toList ++ ([line.closing] ++ (line.rest ++ []))))))) := by
    simp [GemLine.text]
  rw [gemLine_eq, htext]
  refine canTake_seq (canTake_anchor ?_) (canTake_seq (canTake_group (canTake_star ?_))
    (canTake_seq canTake_literal (canTake_seq (canTake_plus ?_ line.gap_ne) (canTake_seq (canTake_one ?_)
      (canTake_seq canTake_literal (canTake_seq (canTake_one ?_) (canTake_seq (canTake_star ?_)
        (canTake_anchor ?_))))))))
  · rintro c rfl -
    exact startsBreak_iff.mpr hbefore
  · simpa using line.margin_blank
  · rw [all_gapSet, line.gap_blank]
  · rw [mem_quoteSet, line.isQuote_opening]
  · rw [mem_quoteSet, line.isQuote_closing]
  · refine List.all_eq_true.mpr fun x hx => ?_
    have hbreak : x ≠ '\n' := fun h => line.rest_solid (h ▸ hx)
    simpa using hbreak
  · rintro c - rfl
    exact startsBreak_iff.mpr hafter

theorem swaps_gemLine (e : Edit) :
    (gemLine e.gem).Swaps (fun m => m.group 1 ++ e.replacement.toList) (lineSwap e) where
  sound := by
    intro before after pos c hc
    obtain ⟨hbefore, hafter, line, htakes, hmargin⟩ := exists_gemLine_of_mem_ends (List.mem_of_head? hc)
    refine ⟨line.text, line.text_ne_nil, htakes, hbefore, hafter, line, rfl, ?_⟩
    simp [Match.group, hmargin]
  complete := by
    rintro before taken after new pos ⟨hbefore, hafter, line, rfl, -⟩ hnil
    obtain ⟨c, hc, -⟩ := canTake_gemLine line hbefore hafter
      { before, after := line.text ++ after, pos } rfl rfl
    rw [hnil] at hc
    cases hc

theorem lines_lineSwap (e : Edit) : (lineSwap e).Lines (editLine e) where
  whole := by
    rintro before taken after new ⟨hbefore, hafter, line, rfl, rfl⟩
    refine ⟨hbefore, hafter, line.text_ne_nil, ?_⟩
    rw [editLine, if_pos line.asksFor_text, line.takeWhile_text]
  edited := by
    intro before line after hbefore hafter hline hedit
    have hasks : asksFor e.gem.toList line = true := by
      by_contra hasks
      exact hedit (if_neg hasks)
    obtain ⟨parts, rfl⟩ := exists_gemLine hline hasks
    exact ⟨_, hbefore, hafter, parts, rfl, rfl⟩

/-- The lines of a text: at least one, and none with a line break in it. -/
structure AreLines (lines : List (List Char)) : Prop where
  ne_nil : lines ≠ []
  solid : ∀ line ∈ lines, '\n' ∉ line

/-- An edit of a text without broken calls edits its lines. -/
theorem replaceAll_join {e : Edit} {lines : List (List Char)} (hlines : AreLines lines)
    (hgem : '\n' ∉ e.gem.toList) (htext : Unbroken (Text.join ['\n'] lines)) :
    (gemLine e.gem).replaceAll (fun m => m.group 1 ++ e.replacement.toList)
      (Text.join ['\n'] lines) = Text.join ['\n'] (lines.map (editLine e)) := by
  refine (pass_replaceAll (swaps_gemLine e) _).eq_join (lines_lineSwap e) (.inl rfl) hlines.ne_nil
    hlines.solid ?_
  -- The only place for a line break in a call is its gap.
  rintro before taken after new ⟨-, -, line, rfl, -⟩ hsuffix hbreak
  have hquote : ∀ {q : Char}, isQuote q = true → '\n' ≠ q := fun h => ne_of_holds h (by decide)
  have hmargin : '\n' ∉ line.margin := fun h => by
    simpa [Text.isSpaceOrTab] using List.all_eq_true.mp line.margin_blank _ h
  have hgap : '\n' ∈ line.gap := by
    simpa [GemLine.text, hmargin, hgem, line.rest_solid, hquote line.isQuote_opening,
      hquote line.isQuote_closing] using hbreak
  have hpart : "gem".toList ++ (line.gap ++ [line.opening]) <:+: line.text :=
    ⟨line.margin, e.gem.toList ++ ([line.closing] ++ line.rest), by simp [GemLine.text]⟩
  exact htext _ ((hpart.trans (List.prefix_append _ _).isInfix).trans hsuffix.isInfix)
    ⟨_, _, rfl, line.gap_blank, hgap, line.isQuote_opening⟩

/-! ### Harmless lines -/

/-- Whether a text is harmless, told by looking at each place once. -/
def isHarmless (s : List Char) : Bool :=
  (s.dropWhile Text.isBlank).head?.any (!isQuote ·) && s.tails.all fun t =>
    (!"gem".toList.isPrefixOf t || "gem '".toList.isPrefixOf t) &&
      !"'rails'".toList.isPrefixOf t && !"'rails\x22".toList.isPrefixOf t

theorem harmless_of_isHarmless {s : List Char} (h : isHarmless s = true) : Harmless s := by
  rw [isHarmless, Bool.and_eq_true, List.all_eq_true] at h
  obtain ⟨hsolid, htails⟩ := h
  refine ⟨?_, ?_, ?_⟩
  · cases hdrop : s.dropWhile Text.isBlank with
    | nil => simp [hdrop] at hsolid
    | cons x rest =>
      refine ⟨s.takeWhile Text.isBlank, x, rest, ?_, List.all_takeWhile, ?_, ?_⟩
      · rw [← hdrop, List.takeWhile_append_dropWhile]
      · have hhead := List.head?_dropWhile_not Text.isBlank s
        simpa [hdrop] using hhead
      · simpa [hdrop] using hsolid
  · rintro quote hquote ⟨lead, rest, hs⟩
    have htail := htails (('\'' :: ("rails".toList ++ [quote])) ++ rest)
      ((List.mem_tails _ _).mpr ⟨lead, by simpa using hs⟩)
    obtain rfl | rfl : quote = '\'' ∨ quote = '"' := by simpa [isQuote] using hquote
    · simp at htail
    · simp at htail
  · intro rest hsuffix
    have htail := htails ("gem".toList ++ rest) ((List.mem_tails _ _).mpr hsuffix)
    have hgem : "gem".toList.isPrefixOf ("gem".toList ++ rest) = true := by simp
    rw [hgem] at htail
    simp only [Bool.not_true, Bool.false_or, Bool.and_eq_true, List.isPrefixOf_iff_prefix] at htail
    obtain ⟨more, hmore⟩ := htail.1.1
    exact ⟨more, by simpa using hmore.symm⟩

/-- A margin does no harm. -/
theorem Harmless.margin {margin s : List Char} (hmargin : margin.all Text.isBlank = true)
    (h : Harmless s) : Harmless (margin ++ s) := by
  have hnot : ∀ x, Text.isBlank x = false → x ∉ margin := fun x hx hmem =>
    ne_of_holds (List.all_eq_true.mp hmargin _ hmem) hx rfl
  refine ⟨?_, ?_, ?_⟩
  · obtain ⟨gap, x, rest, rfl, hgap, hx⟩ := h.solid
    exact ⟨margin ++ gap, x, rest, by simp, by simp [hmargin, hgap], hx⟩
  · rintro quote hquote ⟨lead, rest, hs⟩
    obtain ⟨a, -, rfl⟩ := exists_of_notMem (hnot '\'' (by decide)) (t := s)
      (by simpa using hs.symm)
    exact h.noRails quote hquote ⟨a, rest, by simp⟩
  · rintro rest ⟨lead, hs⟩
    obtain ⟨a, -, rfl⟩ := exists_of_notMem (hnot 'g' (by decide)) (t := s) (by simpa using hs.symm)
    exact h.gems rest ⟨a, by simp⟩

/-- A tidy text stays tidy if lines are replaced by harmless ones. -/
theorem Tidy.map_lines {pin : Pin} {lines : List (List Char)} {edit : List Char → List Char}
    (hedit : ∀ line ∈ lines, edit line = line ∨ Harmless (edit line)) (lead : List Char)
    (hlead : EndsBreak lead) (h : Tidy pin (lead ++ Text.join ['\n'] lines)) :
    Tidy pin (lead ++ Text.join ['\n'] (lines.map edit)) := by
  induction lines generalizing lead with
  | nil => exact h
  | cons line lines ih =>
    -- Replace the line first, then those behind it.
    have hfirst : ∀ after, StartsBreak after → Tidy pin (lead ++ (line ++ after)) →
        Tidy pin (lead ++ (edit line ++ after)) := by
      intro after hafter htidy
      rcases hedit line List.mem_cons_self with hsame | hharmless
      · rwa [hsame]
      · refine Tidy.insert (htidy.of_infix (List.prefix_append _ _).isInfix)
          (htidy.of_infix ?_) hlead hafter hharmless
        exact ⟨lead ++ line, [], by simp⟩
    by_cases hlast : lines = []
    · subst hlast
      have hone := hfirst [] (.inl rfl) (by simpa [Text.join] using h)
      simpa [Text.join] using hone
    · rw [Text.join_cons _ _ hlast, List.append_assoc] at h
      have hone := hfirst _ (.inr ⟨_, rfl⟩) h
      have hrest := ih (fun l hl => hedit l (List.mem_cons_of_mem _ hl))
        (lead ++ edit line ++ ['\n']) (.inr ⟨_, rfl⟩) (by simpa using hone)
      rw [List.map_cons, Text.join_cons _ _ (by simpa using hlast)]
      simpa using hrest

/-! ### Several edits -/

/-- What an edit needs to keep to lines, and to do no harm. -/
def Edit.isPlain (e : Edit) : Bool :=
  e.gem.toList.all (· != '\n') && e.replacement.toList.all (· != '\n') &&
    isHarmless e.replacement.toList &&
    e.replacement.toList.head?.any fun c => c == 'g' || c == '#'

/-- Edits that keep to lines, do no harm and leave each other's replacements alone. -/
structure Compatible (edits : List Edit) : Prop where
  plain : ∀ e ∈ edits, e.isPlain = true
  respect : ∀ e ∈ edits, ∀ e' ∈ edits, asksFor e'.gem.toList e.replacement.toList = true →
    e'.replacement = e.replacement

/-- Whether edits are compatible, told pair by pair. -/
def areCompatible (edits : List Edit) : Bool :=
  edits.all fun e => e.isPlain && edits.all fun e' =>
    !asksFor e'.gem.toList e.replacement.toList || e'.replacement == e.replacement

theorem compatible_of_areCompatible {edits : List Edit} (h : areCompatible edits = true) :
    Compatible edits := by
  simp only [areCompatible, List.all_eq_true, Bool.and_eq_true] at h
  refine ⟨fun e he => (h e he).1, fun e he e' he' hasks => ?_⟩
  have hpair := (h e he).2 e' he'
  rw [hasks] at hpair
  exact eq_of_beq (by simpa using hpair)

/-- What edits make of a line, one after the other. -/
def settle (edits : List Edit) (line : List Char) : List Char :=
  edits.foldl (fun line e => editLine e line) line

/-- A line that one of several edits has made. -/
def IsEdited (edits : List Edit) (line : List Char) : Prop :=
  ∃ margin, margin.all Text.isSpaceOrTab = true ∧ ∃ e ∈ edits, line = margin ++ e.replacement.toList

section

variable {edits : List Edit} {line : List Char} {e : Edit}

theorem Edit.isPlain.gem_solid (h : e.isPlain = true) : '\n' ∉ e.gem.toList := by
  intro hmem
  simp only [Edit.isPlain, Bool.and_eq_true, List.all_eq_true] at h
  simpa using h.1.1.1 _ hmem

theorem Edit.isPlain.solid (h : e.isPlain = true) : '\n' ∉ e.replacement.toList := by
  intro hmem
  simp only [Edit.isPlain, Bool.and_eq_true, List.all_eq_true] at h
  simpa using h.1.1.2 _ hmem

theorem Edit.isPlain.harmless (h : e.isPlain = true) : Harmless e.replacement.toList := by
  simp only [Edit.isPlain, Bool.and_eq_true] at h
  exact harmless_of_isHarmless h.1.2

theorem Edit.isPlain.exists_cons (h : e.isPlain = true) :
    ∃ c rest, e.replacement.toList = c :: rest ∧ (c = 'g' ∨ c = '#') := by
  simp only [Edit.isPlain, Bool.and_eq_true] at h
  cases hreplacement : e.replacement.toList with
  | nil => simp [hreplacement] at h
  | cons c rest => exact ⟨c, rest, rfl, by simpa [hreplacement] using h.2⟩

/-- What an edit has made of a line that asks for its gem. -/
theorem isEdited_editLine (he : e ∈ edits) (hasks : asksFor e.gem.toList line = true) :
    IsEdited edits (editLine e line) := by
  refine ⟨line.takeWhile Text.isSpaceOrTab, List.all_takeWhile, e, he, ?_⟩
  rw [editLine, if_pos hasks]

/-- Compatible edits leave the lines alone that they have made. -/
theorem Compatible.editLine_of_isEdited (h : Compatible edits) (hline : IsEdited edits line)
    (he : e ∈ edits) : editLine e line = line := by
  obtain ⟨margin, hmargin, e', he', rfl⟩ := hline
  rw [editLine, asksFor_append _ hmargin]
  split
  · rename_i hasks
    obtain ⟨c, rest, hreplacement, hc⟩ := Edit.isPlain.exists_cons (h.plain e' he')
    have hsolid : Text.isSpaceOrTab c = false := by rcases hc with rfl | rfl <;> rfl
    rw [h.respect e' he' e he hasks,
      List.takeWhile_append_of_pos (List.all_eq_true.mp hmargin), hreplacement]
    simp [hsolid]
  · rfl

theorem Compatible.settle_of_isEdited (h : Compatible edits) (hline : IsEdited edits line)
    {edits' : List Edit} (hsub : edits' ⊆ edits) : settle edits' line = line := by
  induction edits' with
  | nil => rfl
  | cons e edits' ih =>
    rw [List.cons_subset] at hsub
    have hhead := h.editLine_of_isEdited hline hsub.1
    rw [settle, List.foldl_cons, hhead]
    exact ih hsub.2

/-- Edits leave a line alone if it asks for none of their gems, and else make it one of theirs. -/
theorem Compatible.settle_cases (h : Compatible edits) {edits' : List Edit} (hsub : edits' ⊆ edits)
    (line : List Char) :
    settle edits' line = line ∧ (∀ e ∈ edits', asksFor e.gem.toList line = false) ∨
      IsEdited edits (settle edits' line) ∧ ∃ e ∈ edits', asksFor e.gem.toList line = true := by
  induction edits' with
  | nil => exact .inl ⟨rfl, by simp⟩
  | cons e edits' ih =>
    rw [List.cons_subset] at hsub
    by_cases hasks : asksFor e.gem.toList line = true
    · have hedited := isEdited_editLine hsub.1 hasks
      refine .inr ⟨?_, e, List.mem_cons_self, hasks⟩
      rw [settle, List.foldl_cons]
      show IsEdited edits (settle edits' (editLine e line))
      rwa [h.settle_of_isEdited hedited hsub.2]
    · have hkept : settle (e :: edits') line = settle edits' line := by
        rw [settle, List.foldl_cons, editLine, if_neg hasks]
        rfl
      rw [hkept]
      rcases ih hsub.2 with ⟨hsame, hnone⟩ | ⟨hedited, e', he', hasks'⟩
      · refine .inl ⟨hsame, ?_⟩
        simpa [hasks] using hnone
      · exact .inr ⟨hedited, e', List.mem_cons_of_mem _ he', hasks'⟩

/-- Once compatible edits are made they have nothing left to do. -/
theorem Compatible.editLine_settle (h : Compatible edits) (he : e ∈ edits) :
    editLine e (settle edits line) = settle edits line := by
  rcases h.settle_cases (List.Subset.refl edits) line with ⟨hsame, hnone⟩ | ⟨hedited, -⟩
  · rw [hsame, editLine, hnone e he]
    rfl
  · exact h.editLine_of_isEdited hedited he

theorem Compatible.settle_settle (h : Compatible edits) (line : List Char) :
    settle edits (settle edits line) = settle edits line := by
  have hfixed : ∀ edits', edits' ⊆ edits → settle edits' (settle edits line) = settle edits line := by
    intro edits' hsub
    induction edits' with
    | nil => rfl
    | cons e edits' ih =>
      rw [List.cons_subset] at hsub
      rw [settle, List.foldl_cons, h.editLine_settle hsub.1]
      exact ih hsub.2
  exact hfixed edits (List.Subset.refl edits)

theorem Compatible.solid_settle (h : Compatible edits) {edits' : List Edit} (hsub : edits' ⊆ edits)
    (hline : '\n' ∉ line) : '\n' ∉ settle edits' line := by
  rcases h.settle_cases hsub line with ⟨hsame, -⟩ | ⟨⟨margin, hmargin, e, he, hedited⟩, -⟩
  · rwa [hsame]
  · have hmarginSolid : '\n' ∉ margin := fun hmem => by
      simpa [Text.isSpaceOrTab] using List.all_eq_true.mp hmargin _ hmem
    rw [hedited]
    simp [hmarginSolid, Edit.isPlain.solid (h.plain e he)]

theorem Compatible.harmless_settle (h : Compatible edits) {edits' : List Edit} (hsub : edits' ⊆ edits) :
    settle edits' line = line ∨ Harmless (settle edits' line) := by
  rcases h.settle_cases hsub line with ⟨hsame, -⟩ | ⟨⟨margin, hmargin, e, he, hedited⟩, -⟩
  · exact .inl hsame
  · have hblank : margin.all Text.isBlank = true := by
      rw [List.all_eq_true] at hmargin ⊢
      exact fun c hc => (Text.isBlank_of_isSpaceOrTab (hmargin c hc)).1
    rw [hedited]
    exact .inr (Harmless.margin hblank (Edit.isPlain.harmless (h.plain e he)))

end

/-! ### Edits of a text -/

/-- What an edit makes of a text, whatever the target is. -/
def Edit.rewrite (e : Edit) (text : List Char) : List Char :=
  (gemLine e.gem).replaceAll (fun m => m.group 1 ++ e.replacement.toList) text

/-- Compatible edits of a tidy text edit its lines, one after the other, and keep it tidy. -/
theorem Compatible.foldl_rewrite {pin : Pin} {edits edits' : List Edit} (h : Compatible edits)
    (hsub : edits' ⊆ edits) {lines : List (List Char)} (hlines : AreLines lines)
    (htidy : Tidy pin (Text.join ['\n'] lines)) :
    edits'.foldl (fun text e => e.rewrite text) (Text.join ['\n'] lines) =
      Text.join ['\n'] (lines.map (settle edits')) ∧
    Tidy pin (Text.join ['\n'] (lines.map (settle edits'))) ∧
    AreLines (lines.map (settle edits')) := by
  refine ⟨?_, ?_, ?_, ?_⟩
  -- Edits of lines rewrite each line on its own, and one edit after the other is the same line by line.
  · induction edits' generalizing lines with
    | nil =>
      have hnone : settle [] = id := rfl
      simp [hnone]
    | cons e edits' ih =>
      have hone : [e] ⊆ edits := by simpa using hsub List.mem_cons_self
      rw [List.cons_subset] at hsub
      have hplain := h.plain e hsub.1
      have hfirst := replaceAll_join hlines (Edit.isPlain.gem_solid hplain) htidy.unbroken
      rw [List.foldl_cons, Edit.rewrite, hfirst, ih hsub.2 ?_ ?_, List.map_map]
      · rfl
      · refine ⟨by simpa using hlines.ne_nil, ?_⟩
        rintro _ hmem
        obtain ⟨line, hline, rfl⟩ := List.mem_map.mp hmem
        exact h.solid_settle hone (hlines.solid line hline)
      · exact Tidy.map_lines (fun line _ => h.harmless_settle hone) [] (.inl rfl) htidy
  · exact Tidy.map_lines (fun line _ => h.harmless_settle hsub) [] (.inl rfl) htidy
  · simpa using hlines.ne_nil
  · rintro _ hmem
    obtain ⟨line, hline, rfl⟩ := List.mem_map.mp hmem
    exact h.solid_settle hsub (hlines.solid line hline)

end RailsUpgrade.Gemfile
