import RailsUpgrade.Proofs.ClassText
import RailsUpgrade.Proofs.ColumnRules
import RailsUpgrade.Proofs.Framed
import RailsUpgrade.Proofs.StockRepairs

/-!
# `RailsUpgrade.Proofs.StockSwaps`: what the repairs of the library put in place of what
-/

set_option autoImplicit false

namespace RailsUpgrade.Catalogue

open Pattern (Expr CharSet Match Cursor Anchor Listed framed noChar reads_match swaps_framed
  mem_ends_seq mem_ends_anchor mem_ends_chars mem_ends_literal canTake_seq canTake_alt canTake_one
  canTake_star canTake_plus canTake_chars canTake_anchor canTake_group canTake_literal reads_chars
  reads_seq_anchor reads_look reads_literal reads_run)

/-! ### Characters -/

/-- Both brackets. -/
def isBracket (c : Char) : Bool := c == '(' || c == ')'

@[simp] theorem mem_noBrackets (x : Char) : noBrackets.mem x = !isBracket x := by
  simp [noBrackets, isBracket, Pattern.CharItem.mem]

@[simp] theorem mem_wordLetters (x : Char) : wordLetters.mem x = Text.isWord x := by
  simp [wordLetters, Pattern.CharItem.mem, Pattern.CharKind.mem]

theorem all_wordLetters (s : List Char) : s.all wordLetters.mem = s.all Text.isWord := by
  rw [show wordLetters.mem = Text.isWord from funext mem_wordLetters]

/-- The letters of attributes are word characters of ASCII. -/
theorem isWord_of_attributeLetters {x : Char} (h : attributeLetters.mem x = true) :
    Text.isWord x = true := by
  have hall : ∀ n < 128, attributeLetters.mem (Char.ofNat n) = true →
      Text.isWord (Char.ofNat n) = true := by
    decide
  have hlt : x.toNat < 128 := by
    rw [attributeLetters, CharSet.mem_ofItems] at h
    simp only [List.any_cons, List.any_nil, Pattern.CharItem.mem, Pattern.inRange, Bool.or_false,
      Bool.or_eq_true, Bool.and_eq_true, decide_eq_true_eq, beq_iff_eq] at h
    rcases h with h | h | rfl
    · omega
    · omega
    · decide
  have hx := hall x.toNat hlt
  rw [Char.ofNat_toNat] at hx
  exact hx h

/-! ### Edges of words -/

/-- An anchor in front of a pattern takes nothing. -/
theorem mem_ends_seq_anchor {a : Anchor} {e : Expr} {c c' : Cursor} :
    c' ∈ (Expr.seq (.anchor a) e).ends c ↔ a.holds c = true ∧ c' ∈ e.ends c := by
  rw [mem_ends_seq]
  simp only [mem_ends_anchor]
  constructor
  · rintro ⟨_, ⟨rfl, h⟩, hmem⟩
    exact ⟨h, hmem⟩
  · rintro ⟨h, hmem⟩
    exact ⟨c, ⟨rfl, h⟩, hmem⟩

/-- A set decides on the next character alone. -/
theorem decides_one (set : CharSet) :
    (Expr.one set).Decides fun s => s.head?.any set.mem = true where
  ends c := by
    rw [Expr.ends]
    cases c.after with
    | nil => simp
    | cons x rest => simp
  groups c c' h := by
    rw [Expr.ends] at h
    split at h
    · cases h
    · split at h
      · rw [List.mem_singleton.mp h]
        rfl
      · cases h

section

variable {c : Cursor}

/-- In front of a word an edge has no word character on the other side. -/
theorem before_of_wordEdge (h : (Anchor.wordEdge false).holds c = true)
    (hafter : c.after.head?.any Text.isWord = true) : c.before.head?.any Text.isWord = false := by
  change (c.before.head?.any Text.isWord != c.after.head?.any Text.isWord) = true at h
  rw [hafter] at h
  simpa using h

/-- Behind a word an edge has no word character on the other side. -/
theorem after_of_wordEdge (h : (Anchor.wordEdge false).holds c = true)
    (hbefore : c.before.head?.any Text.isWord = true) : c.after.head?.any Text.isWord = false := by
  change (c.before.head?.any Text.isWord != c.after.head?.any Text.isWord) = true at h
  rw [hbefore] at h
  simpa using h

variable {before after : List Char}

theorem canTake_wordStart (hbefore : before.head?.any Text.isWord = false)
    (hafter : after.head?.any Text.isWord = true) :
    (Expr.anchor (.wordEdge false)).CanTake before [] after := by
  refine canTake_anchor fun c hb ha => ?_
  show (c.before.head?.any Text.isWord != c.after.head?.any Text.isWord) = true
  rw [hb, ha, hbefore, hafter]
  rfl

theorem canTake_wordEnd (hbefore : before.head?.any Text.isWord = true)
    (hafter : after.head?.any Text.isWord = false) :
    (Expr.anchor (.wordEdge false)).CanTake before [] after := by
  refine canTake_anchor fun c hb ha => ?_
  show (c.before.head?.any Text.isWord != c.after.head?.any Text.isWord) = true
  rw [hb, ha, hbefore, hafter]
  rfl

end

/-! ### Fixed texts -/

theorem any_head_append {q : Char → Bool} {s : List Char} (h : s.head?.any q = true) (t : List Char) :
    (s ++ t).head?.any q = true := by
  cases s with
  | nil => cases h
  | cons x s => exact h

/-- A word with edges on both sides. -/
theorem swaps_word {pattern : Pattern} (old new : String) (hexpr : pattern.expr = wordExpr old)
    (hfirst : old.toList.head?.any Text.isWord = true)
    (hlast : old.toList.reverse.head?.any Text.isWord = true) :
    pattern.expr.Swaps (fun _ => new.toList)
      (framed Text.isWord Text.isWord (Listed [(old.toList, new.toList)])) := by
  have hne : old.toList ≠ [] := by
    intro hnil
    rw [hnil] at hfirst
    cases hfirst
  refine swaps_framed hexpr (fun m hnone hmem => ?_) ?_ ?_
  -- The letters at both ends of the word turn the two word edges into what stands outside of it.
  · obtain ⟨htakes, g, hread, -⟩ := reads_match hnone hmem
    rw [wordExpr, reads_seq_anchor, reads_chars] at hread
    obtain ⟨_, htext, rfl, -⟩ := hread
    rw [List.append_nil] at htext
    obtain ⟨hstart, hmem⟩ := mem_ends_seq_anchor.mp hmem
    obtain ⟨mid, -, hmem⟩ := mem_ends_chars hmem
    obtain ⟨hmid, hend⟩ := mem_ends_anchor.mp hmem
    rw [← hmid] at hend
    refine ⟨List.mem_singleton.mpr (by rw [htext]), before_of_wordEdge hstart ?_,
      after_of_wordEdge hend ?_⟩
    · rw [htakes.after, htext]
      exact any_head_append hfirst _
    · rw [htakes.before, htext]
      exact any_head_append hlast _
  · intro taken new' htaken
    cases List.mem_singleton.mp htaken
    exact hne
  · rintro before taken after new' ⟨htaken, hbefore, hafter⟩
    cases List.mem_singleton.mp htaken
    rw [wordExpr, ← List.nil_append old.toList, ← List.append_nil old.toList]
    refine canTake_seq (canTake_wordStart hbefore ?_) (canTake_chars (canTake_wordEnd ?_ hafter))
    · simpa using any_head_append hfirst after
    · exact any_head_append hlast before

theorem swaps_timeNow : timeNowRepair.pattern.expr.Swaps (fun _ => "Time.current".toList)
    (framed Text.isWord Text.isWord (Listed [("Time.now".toList, "Time.current".toList)])) :=
  swaps_word "Time.now" "Time.current" wordPatterns.1 (by decide) (by decide)

theorem swaps_dateTimeNow : dateTimeNowRepair.pattern.expr.Swaps (fun _ => "Time.current".toList)
    (framed Text.isWord Text.isWord (Listed [("DateTime.now".toList, "Time.current".toList)])) :=
  swaps_word "DateTime.now" "Time.current" wordPatterns.2.1 (by decide) (by decide)

theorem swaps_dateToday : dateTodayRepair.pattern.expr.Swaps
    (fun _ => "Time.current.to_date".toList) (framed Text.isWord Text.isWord
      (Listed [("Date.today".toList, "Time.current.to_date".toList)])) :=
  swaps_word "Date.today" "Time.current.to_date" wordPatterns.2.2.1 (by decide)
    (by decide)

theorem swaps_success : successRepair.pattern.expr.Swaps (fun _ => ".successful?".toList)
    (framed noChar noChar (Listed [(".success?".toList, ".successful?".toList)])) := by
  obtain ⟨-, -, -, hexpr, -⟩ := wordPatterns
  refine swaps_framed hexpr (fun m hnone hmem => ?_) ?_ ?_
  · obtain ⟨-, g, hread, -⟩ := reads_match hnone hmem
    rw [(reads_literal.mp hread).1]
    exact ⟨List.mem_singleton_self _, by simp, by simp⟩
  · intro taken new htaken
    cases List.mem_singleton.mp htaken
    decide
  · rintro before taken after new ⟨htaken, -⟩
    cases List.mem_singleton.mp htaken
    exact canTake_literal

/-- What must not follow a call of `scoped`. -/
def scopedStop (x : Char) : Bool := Text.isWord x || x == '?' || x == '!'

theorem swaps_scoped : scopedRepair.pattern.expr.Swaps (fun _ => ".all".toList)
    (framed noChar scopedStop (Listed [(".scoped".toList, ".all".toList)])) := by
  obtain ⟨-, -, -, -, hexpr, -⟩ := wordPatterns
  have hdecides := decides_one (.ofItems [.one '?', .one '!'])
  refine swaps_framed hexpr (fun m hnone hmem => ?_) ?_ ?_
  · obtain ⟨htakes, g, hread, -⟩ := reads_match hnone hmem
    obtain ⟨_, htext, hread⟩ := reads_chars.mp hread
    rw [reads_seq_anchor, reads_look] at hread
    rw [hread.1, List.append_nil] at htext
    obtain ⟨mid, -, hmem⟩ := mem_ends_chars hmem
    obtain ⟨hend, hmem⟩ := mem_ends_seq_anchor.mp hmem
    obtain ⟨hmid, hfree⟩ := hdecides.mem_ends_notAhead.mp hmem
    rw [← hmid] at hend hfree
    refine ⟨List.mem_singleton.mpr (by rw [htext]), by simp, ?_⟩
    -- Behind the call there is an edge and neither of the two marks, which is what a stop means.
    have hedge := after_of_wordEdge hend (by rw [htakes.before, htext]; rfl)
    cases hhead : m.last.after.head? with
    | none => rfl
    | some x =>
      rw [hhead] at hedge hfree
      simp_all [scopedStop, Pattern.CharItem.mem]
  · intro taken new htaken
    cases List.mem_singleton.mp htaken
    decide
  · rintro before taken after new ⟨htaken, -, hafter⟩
    cases List.mem_singleton.mp htaken
    have hedge : after.head?.any Text.isWord = false := by
      cases after with
      | nil => rfl
      | cons x rest => simp_all [scopedStop]
    have hfree : ¬ after.head?.any (CharSet.mem (.ofItems [.one '?', .one '!'])) = true := by
      cases after with
      | nil => simp
      | cons x rest => simp_all [scopedStop, Pattern.CharItem.mem]
    rw [← List.append_nil ".scoped".toList]
    exact canTake_chars (canTake_seq (s := []) (canTake_wordEnd rfl hedge)
      (hdecides.canTake_notAhead hfree))

theorem swaps_apiReference : apiReferenceRepair.pattern.expr.Swaps (fun _ => "Api::".toList)
    (framed Text.isWord noChar (Listed [("API::".toList, "Api::".toList)])) := by
  obtain ⟨-, -, -, -, -, hexpr, -⟩ := wordPatterns
  refine swaps_framed hexpr (fun m hnone hmem => ?_) ?_ ?_
  · obtain ⟨htakes, g, hread, -⟩ := reads_match hnone hmem
    rw [reads_seq_anchor, reads_literal] at hread
    obtain ⟨hstart, -⟩ := mem_ends_seq_anchor.mp hmem
    refine ⟨List.mem_singleton.mpr (by rw [hread.1]), before_of_wordEdge hstart ?_, by simp⟩
    rw [htakes.after, hread.1]
    rfl
  · intro taken new htaken
    cases List.mem_singleton.mp htaken
    decide
  · rintro before taken after new ⟨htaken, hbefore, -⟩
    cases List.mem_singleton.mp htaken
    exact canTake_seq (s := []) (canTake_wordStart hbefore rfl) canTake_literal

/-- Both forms of an update. -/
def updates : List (List Char × List Char) :=
  [(".update_attributes!".toList, ".update!".toList),
    (".update_attributes(".toList, ".update(".toList)]

theorem exists_of_updates {taken new : List Char} (h : Listed updates taken new) :
    ∃ x, (CharSet.ofItems [.one '!', .one '(']).mem x = true ∧
      taken = ".update_attributes".toList ++ [x] := by
  obtain heq | heq : (taken, new) = (".update_attributes!".toList, ".update!".toList) ∨
      (taken, new) = (".update_attributes(".toList, ".update(".toList) := by
    simpa [Listed, updates] using h
  · cases heq
    exact ⟨'!', by decide, by decide⟩
  · cases heq
    exact ⟨'(', by decide, by decide⟩

theorem swaps_update : updateRepair.pattern.expr.Swaps (fun m => ".update".toList ++ m.group 1)
    (framed noChar noChar (Listed updates)) := by
  obtain ⟨hexpr, -⟩ := callPatterns
  refine swaps_framed hexpr (fun m hnone hmem => ?_) ?_ ?_
  · obtain ⟨-, g, hread, hgroup⟩ := reads_match hnone hmem
    obtain ⟨s, htext, g₁, ⟨⟨x, hx, rfl⟩, rfl⟩, rfl⟩ := reads_chars.mp hread
    have h₁ : m.group 1 = [x] := hgroup 1
    refine ⟨?_, by simp, by simp⟩
    rw [htext, h₁]
    obtain rfl | rfl : x = '!' ∨ x = '(' := by simpa [Pattern.CharItem.mem] using hx
    · exact show (_, _) ∈ updates by decide
    · exact show (_, _) ∈ updates by decide
  · intro taken new htaken
    have hne : ∀ x ∈ updates, x.1 ≠ [] := by decide
    exact hne _ htaken
  · rintro before taken after new ⟨htaken, -⟩
    obtain ⟨x, hx, rfl⟩ := exists_of_updates htaken
    exact canTake_chars (canTake_group (canTake_one hx))

/-! ### The module of an interface -/

/-- The opening of the module, with any blanks in it. -/
def OpensApi (taken new : List Char) : Prop :=
  ∃ gap, gap ≠ [] ∧ gap.all Text.isBlank = true ∧
    taken = "module".toList ++ (gap ++ "API".toList) ∧ new = "module Api".toList

theorem swaps_moduleApi : moduleApiRepair.pattern.expr.Swaps (fun _ => "module Api".toList)
    (framed noChar Text.isWord OpensApi) := by
  obtain ⟨-, -, -, -, -, -, hexpr⟩ := wordPatterns
  refine swaps_framed hexpr (fun m hnone hmem => ?_) ?_ ?_
  · obtain ⟨htakes, g, hread, -⟩ := reads_match hnone hmem
    obtain ⟨_, htext, gap, _, _, hgap, hrest, rfl⟩ := reads_chars.mp hread
    obtain ⟨hlength, hall, rfl⟩ := reads_run.mp hgap
    obtain ⟨_, rfl, rfl, rfl⟩ := reads_chars.mp hrest
    rw [List.append_nil] at htext
    obtain ⟨_, -, hmem⟩ := mem_ends_chars hmem
    obtain ⟨_, -, hmem⟩ := mem_ends_seq.mp hmem
    obtain ⟨_, -, hmem⟩ := mem_ends_chars hmem
    obtain ⟨hlast, hend⟩ := mem_ends_anchor.mp hmem
    rw [← hlast] at hend
    -- The pattern asks for one blank at least.
    refine ⟨⟨gap, ?_, all_blanks hall, htext, rfl⟩, by simp, after_of_wordEdge hend ?_⟩
    · rintro rfl
      simp at hlength
    · rw [htakes.before, htext]
      simp only [List.reverse_append, List.append_assoc]
      exact any_head_append (by decide) _
  · rintro taken new ⟨gap, -, -, rfl, -⟩
    simp
  · rintro before taken after new ⟨⟨gap, hne, hgap, rfl, -⟩, -, hafter⟩
    rw [← List.append_nil "API".toList]
    refine canTake_chars (canTake_seq (canTake_plus ?_ hne) (canTake_chars (canTake_wordEnd ?_ hafter)))
    · rwa [show blanks.mem = Text.isBlank from funext mem_blanks]
    · exact any_head_append (by decide) _

/-! ### Calls with an argument -/

/-- Calls of some methods, each up to its bracket, with a good argument without brackets. Both the
method and the argument may change. -/
def Argued (heads : List (List Char × List Char)) (good : List Char → Prop)
    (change : List Char → List Char) (taken new : List Char) : Prop :=
  ∃ x ∈ heads, ∃ argument, argument ≠ [] ∧ argument.all noBrackets.mem = true ∧ good argument ∧
    taken = x.1 ++ (argument ++ [')']) ∧ new = x.2 ++ (change argument ++ [')'])

theorem canTake_argumentExpr {i : Nat} {argument before after : List Char}
    (hall : argument.all noBrackets.mem = true) (hne : argument ≠ []) :
    (argumentExpr i).CanTake before (argument ++ [')']) after :=
  canTake_seq (canTake_group (canTake_plus hall hne)) (canTake_one (by simp))

/-- What is read as an argument, as far as its characters go. -/
theorem flat_of_argumentExpr {i : Nat} {s : List Char} {g g' : Pattern.Groups}
    (h : (argumentExpr i).Reads g s g') : ∃ argument, argument ≠ [] ∧
      argument.all noBrackets.mem = true ∧ s = argument ++ [')'] ∧ g' = (i, argument) :: g := by
  obtain ⟨argument, _, _, ⟨_, hargument, rfl⟩, ⟨⟨x, hx, rfl⟩, rfl⟩, rfl⟩ := h
  obtain ⟨hlength, hall, rfl⟩ := reads_run.mp hargument
  obtain rfl : x = ')' := by simpa using hx
  exact ⟨argument, by rintro rfl; simp at hlength, hall, rfl, rfl⟩

/-- The calls that look for a member. -/
def memberCalls : List (List Char × List Char) :=
  [(".pluck(:id).include?(".toList, ".exists?(".toList)]

theorem swaps_exists : existsRepair.pattern.expr.Swaps
    (fun m => ".exists?(".toList ++ m.group 1 ++ ")".toList)
    (framed noChar noChar (Argued memberCalls (fun _ => True) id)) := by
  obtain ⟨-, -, -, -, hexpr, -⟩ := callPatterns
  refine swaps_framed hexpr (fun m hnone hmem => ?_) ?_ ?_
  · obtain ⟨-, g, hread, hgroup⟩ := reads_match hnone hmem
    obtain ⟨s, htext, hrest⟩ := reads_chars.mp hread
    obtain ⟨argument, hne, hall, rfl, rfl⟩ := flat_of_argumentExpr hrest
    have h₁ : m.group 1 = argument := hgroup 1
    refine ⟨⟨_, List.mem_singleton_self _, argument, hne, hall, trivial, htext, ?_⟩, by simp, by simp⟩
    rw [h₁, List.append_assoc]
    rfl
  · rintro taken new ⟨x, hx, argument, hne, -, -, rfl, -⟩
    simp
  · rintro before taken after new ⟨⟨x, hx, argument, hne, hall, -, rfl, -⟩, -⟩
    obtain rfl := List.mem_singleton.mp hx
    exact canTake_chars (canTake_argumentExpr hall hne)

/-- The calls that escape a text. -/
def escapeCalls : List (List Char × List Char) := [("CGI.escape(".toList, "CGI.escape(".toList)]

/-- An argument that does not end as a text. -/
def Untold (argument : List Char) : Prop := ¬ toText <:+ argument

/-- Looking ahead tells whether an argument ends as a text. -/
theorem ahead_toText_iff {argument after : List Char} (hall : argument.all noBrackets.mem = true) :
    (∃ run rest, argument ++ ([')'] ++ after) = run ++ rest ∧ run.all noBrackets.mem = true ∧
      ".to_s)".toList <+: rest) ↔ toText <:+ argument := by
  have hending : ".to_s)".toList = toText ++ [')'] := by decide
  have hbracket : noBrackets.mem ')' = false := by decide
  rw [hending]
  constructor
  · rintro ⟨run, rest, heq, hrun, ⟨rest', rfl⟩⟩
    have hsplit : argument ++ ')' :: after = (run ++ toText) ++ ')' :: rest' := by
      simpa using heq
    have hflat : (run ++ toText).all noBrackets.mem = true := by
      rw [List.all_append, hrun]
      decide
    obtain ⟨rfl, -⟩ := Gemfile.run_unique hall hflat hbracket hbracket hsplit
    exact List.suffix_append _ _
  · rintro ⟨run, rfl⟩
    rw [List.all_append, Bool.and_eq_true] at hall
    exact ⟨run, toText ++ ([')'] ++ after), by simp, hall.1, by simp⟩

theorem canTake_untold {p : Expr} {argument before after : List Char}
    (hall : argument.all noBrackets.mem = true) (hgood : Untold argument)
    (h : p.CanTake before (argument ++ [')']) after) :
    (Expr.seq (.look 0 false (.seq (.star noBrackets) (.literal ".to_s)".toList))) p).CanTake before
      (argument ++ [')']) after := by
  have hdecides := (Pattern.decides_literal ".to_s)".toList).star_seq noBrackets
  refine canTake_seq (s := []) (hdecides.canTake_notAhead ?_) h
  have hafter : argument ++ [')'] ++ after = argument ++ ([')'] ++ after) := List.append_assoc _ _ _
  show ¬ ∃ run rest, argument ++ [')'] ++ after = run ++ rest ∧ _
  rw [hafter, ahead_toText_iff hall]
  exact hgood

theorem swaps_cgiEscape : cgiEscapeRepair.pattern.expr.Swaps
    (fun m => "CGI.escape(".toList ++ m.group 1 ++ ".to_s)".toList)
    (framed noChar noChar (Argued escapeCalls Untold (· ++ toText))) := by
  obtain ⟨-, -, -, -, -, hexpr, -⟩ := callPatterns
  have hdecides := (Pattern.decides_literal ".to_s)".toList).star_seq noBrackets
  refine swaps_framed hexpr (fun m hnone hmem => ?_) ?_ ?_
  · obtain ⟨htakes, g, hread, hgroup⟩ := reads_match hnone hmem
    obtain ⟨s, htext, hrest⟩ := reads_chars.mp hread
    obtain ⟨argument, hne, hall, rfl, rfl⟩ := flat_of_argumentExpr (Pattern.reads_seq_look.mp hrest)
    have h₁ : m.group 1 = argument := hgroup 1
    obtain ⟨mid, hmid, hmem⟩ := mem_ends_chars hmem
    obtain ⟨_, hlook, -⟩ := mem_ends_seq.mp hmem
    -- The look ahead fails exactly if the argument is not converted yet.
    have hfree := (hdecides.mem_ends_notAhead.mp hlook).2
    have hafter : mid.after = argument ++ ([')'] ++ m.last.after) := by
      have hsame := hmid.after.symm.trans htakes.after
      rw [htext, List.append_assoc] at hsame
      simpa using List.append_cancel_left hsame
    rw [hafter, ahead_toText_iff hall] at hfree
    refine ⟨⟨_, List.mem_singleton_self _, argument, hne, hall, hfree, htext, ?_⟩, by simp, by simp⟩
    rw [h₁, show ".to_s)".toList = toText ++ [')'] by decide]
    simp
  · rintro taken new ⟨x, hx, argument, hne, -, -, rfl, -⟩
    simp
  · rintro before taken after new ⟨⟨x, hx, argument, hne, hall, hgood, rfl, -⟩, -⟩
    obtain rfl := List.mem_singleton.mp hx
    exact canTake_chars (canTake_untold hall hgood (canTake_argumentExpr hall hne))

/-- The calls that escape a text for an address. -/
def addressCalls : List (List Char × List Char) :=
  [("URI.escape(".toList, "CGI.escape(".toList), ("URI.unescape(".toList, "CGI.unescape(".toList)]

/-- An argument that ends as a text. -/
def asText (argument : List Char) : List Char :=
  if toText.reverse.isPrefixOf (Text.trim argument).reverse then Text.trim argument
  else Text.trim argument ++ toText

theorem canTake_optional {p : Expr} {before s after : List Char} (h : s = [] ∨ p.CanTake before s after) :
    (Expr.rep p 0 (some 1) true).CanTake before s after := by
  intro c hbefore hafter
  rw [ends_optional]
  rcases h with rfl | h
  · exact ⟨c, by simp, .refl c⟩
  · obtain ⟨c', hc', htakes⟩ := h c hbefore hafter
    exact ⟨c', List.mem_append_left _ hc', htakes⟩

theorem swaps_uriEscape : uriEscapeRepair.pattern.expr.Swaps cgiCall
    (framed noChar noChar (Argued addressCalls (fun _ => True) asText)) := by
  obtain ⟨-, -, -, -, -, -, hexpr, -⟩ := callPatterns
  refine swaps_framed hexpr (fun m hnone hmem => ?_) ?_ ?_
  · obtain ⟨-, g, hread, hgroup⟩ := reads_match hnone hmem
    obtain ⟨_, htext, un, g₁, _, hun, hrest, rfl⟩ := reads_chars.mp hread
    obtain ⟨_, rfl, hargument⟩ := reads_chars.mp hrest
    obtain ⟨argument, hne, hall, rfl, rfl⟩ := flat_of_argumentExpr hargument
    have h₂ : m.group 2 = argument := hgroup 2
    have hcall : cgiCall m = "CGI.".toList ++ m.group 1 ++ "escape(".toList ++ asText argument ++
        ")".toList := by
      rw [← h₂]
      rfl
    refine ⟨?_, by simp, by simp⟩
    rw [hcall]
    -- The two letters in front of the call are there or not, and they stay as they are.
    rcases Pattern.reads_optional.mp hun with ⟨rfl, rfl⟩ | ⟨_, hliteral, rfl⟩
    · have h₁ : m.group 1 = [] := hgroup 1
      refine ⟨_, List.mem_cons_self, argument, hne, hall, trivial, htext, ?_⟩
      rw [h₁, List.append_assoc, List.append_assoc]
      rfl
    · obtain ⟨rfl, rfl⟩ := reads_literal.mp hliteral
      have h₁ : m.group 1 = "un".toList := hgroup 1
      refine ⟨_, List.mem_cons_of_mem _ List.mem_cons_self, argument, hne, hall, trivial, ?_, ?_⟩
      · rw [htext]
        rfl
      · rw [h₁, List.append_assoc, List.append_assoc]
        rfl
  · rintro taken new ⟨x, hx, argument, hne, -, -, rfl, -⟩
    simp
  · rintro before taken after new ⟨⟨x, hx, argument, hne, hall, -, rfl, -⟩, -⟩
    obtain ⟨un, hun, htext⟩ : ∃ un, (un = [] ∨ un = "un".toList) ∧
        x.1 = "URI.".toList ++ (un ++ "escape(".toList) := by
      obtain rfl | rfl : x = _ ∨ x = _ := by simpa [addressCalls] using hx
      · exact ⟨[], .inl rfl, by decide⟩
      · exact ⟨_, .inr rfl, by decide⟩
    rw [htext, List.append_assoc, List.append_assoc]
    refine canTake_chars (canTake_seq (canTake_optional (hun.imp_right ?_))
      (canTake_chars (canTake_argumentExpr hall hne)))
    rintro rfl
    exact canTake_group canTake_literal

/-! ### Calls with attributes in their name -/

/-- A call with attributes in the name of its method, which begins with `old`. -/
def finderCall (old : String) (attributes arguments : List Char) : List Char :=
  old.toList ++ (attributes ++ ('(' :: (arguments ++ [')'])))

/-- The arguments of a call one by one. -/
def valuesOf (arguments : List Char) : List (List Char) :=
  if (Text.trim arguments).isEmpty then []
  else (Text.splitChar ',' (Text.trim arguments)).map Text.trim

/-- The attributes and the arguments of a call as keywords, if they fit. -/
def keywords? (attributes arguments : List Char) : Option (List Char) :=
  if (valuesOf arguments).length != (Text.splitOn "_and_".toList attributes).length then none
  else some (Text.join ", ".toList (List.zipWith (fun a v => a ++ ": ".toList ++ v)
    (Text.splitOn "_and_".toList attributes) (valuesOf arguments)))

/-- A call with attributes in its name gets keywords, if its arguments fit. -/
def Finder (old new : String) (good : List Char → Prop) (taken result : List Char) : Prop :=
  ∃ attributes arguments, attributes ≠ [] ∧ attributes.all attributeLetters.mem = true ∧
    arguments.all noBrackets.mem = true ∧ good attributes ∧
    taken = finderCall old attributes arguments ∧
    result = (keywords? attributes arguments).elim taken fun list => new.toList ++ (list ++ [')'])

theorem keywordCall_eq {method : String} {m : Match} {attributes arguments : List Char}
    (h₁ : m.group 1 = attributes) (h₂ : m.group 2 = arguments) :
    keywordCall method m = (keywords? attributes arguments).elim m.text fun list =>
      (".".toList ++ method.toList ++ "(".toList) ++ (list ++ [')']) := by
  rw [keywordCall, keywords?, h₁, h₂]
  show (if (valuesOf arguments).length != _ then _ else _) = _
  split
  · rfl
  · rw [Option.elim_some, List.append_assoc (".".toList ++ method.toList ++ "(".toList)]
    rfl

/-- Keywords have no brackets, like the attributes and the arguments that they are made of. -/
theorem flat_of_keywords? {attributes arguments list : List Char}
    (hattributes : attributes.all noBrackets.mem = true)
    (harguments : arguments.all noBrackets.mem = true)
    (h : keywords? attributes arguments = some list) : list.all noBrackets.mem = true := by
  have hnot : ∀ c, isBracket c = true → c ∉ list := by
    intro c hc
    have hne : ∀ s : List Char, s.all noBrackets.mem = true → c ∉ s := by
      intro s hs hmem
      simpa [hc] using List.all_eq_true.mp hs c hmem
    have hcomma : c ∉ ", ".toList := hne _ (by decide)
    have hcolon : c ∉ ": ".toList := hne _ (by decide)
    rw [keywords?] at h
    split at h
    · cases h
    · obtain rfl := Option.some.inj h
      refine notMem_pairs hcomma hcolon (hne _ hattributes) ?_
      rw [valuesOf]
      split
      · simp
      · exact notMem_values (hne _ harguments)
  rw [List.all_eq_true]
  intro c hc
  rw [mem_noBrackets, Bool.not_eq_true']
  by_contra hbracket
  exact hnot c (by simpa using hbracket) hc

theorem flat_of_attributes {s : List Char} (h : s.all attributeLetters.mem = true) :
    s.all noBrackets.mem = true := by
  rw [List.all_eq_true] at h ⊢
  intro c hc
  have hword := isWord_of_attributeLetters (h c hc)
  rw [mem_noBrackets, Bool.not_eq_true']
  by_contra hnot
  have hbracket : isBracket c = true := by simpa using hnot
  obtain rfl | rfl : c = '(' ∨ c = ')' := by simpa [isBracket] using hbracket
  · exact absurd hword (by decide)
  · exact absurd hword (by decide)

/-- What is read as a call with attributes in its name, as far as its characters go. -/
theorem flat_of_callExpr {s : List Char} {g : Pattern.Groups} (h : callExpr.Reads [] s g) :
    ∃ attributes arguments, attributes ≠ [] ∧ attributes.all attributeLetters.mem = true ∧
      arguments.all noBrackets.mem = true ∧ s = attributes ++ ('(' :: (arguments ++ [')'])) ∧
      g.lookup 1 = some attributes ∧ g.lookup 2 = some arguments := by
  obtain ⟨attributes, _, _, ⟨_, hattributes, rfl⟩, hrest, rfl⟩ := h
  obtain ⟨hlength, hletters, rfl⟩ := reads_run.mp hattributes
  obtain ⟨_, rfl, arguments, _, _, ⟨_, harguments, rfl⟩, ⟨⟨x, hx, rfl⟩, rfl⟩, rfl⟩ :=
    reads_chars.mp hrest
  obtain ⟨-, hflat, rfl⟩ := reads_run.mp harguments
  obtain rfl : x = ')' := by simpa using hx
  refine ⟨attributes, arguments, ?_, hletters, hflat, rfl, rfl, rfl⟩
  rintro rfl
  simp at hlength

theorem canTake_callExpr {attributes arguments before after : List Char} (hne : attributes ≠ [])
    (hletters : attributes.all attributeLetters.mem = true)
    (hflat : arguments.all noBrackets.mem = true) :
    callExpr.CanTake before (attributes ++ ('(' :: (arguments ++ [')']))) after := by
  show callExpr.CanTake before (attributes ++ ("(".toList ++ (arguments ++ [')']))) after
  exact canTake_seq (canTake_group (canTake_plus hletters hne)) (canTake_chars
    (canTake_seq (canTake_group (canTake_star hflat)) (canTake_one (by simp))))

/-- A call that is found by attributes that are not checked any further. -/
theorem swaps_finder {r : StockRepair} {old method : String}
    (hexpr : r.pattern.expr = .chars old callExpr) :
    r.pattern.expr.Swaps (keywordCall method) (framed noChar noChar
      (Finder old ("." ++ method ++ "(") fun _ => True)) := by
  refine swaps_framed hexpr (fun m hnone hmem => ?_) ?_ ?_
  · obtain ⟨-, g, hread, hgroup⟩ := reads_match hnone hmem
    obtain ⟨s, htext, hcall⟩ := reads_chars.mp hread
    obtain ⟨attributes, arguments, hne, hletters, hflat, rfl, h₁, h₂⟩ := flat_of_callExpr hcall
    refine ⟨⟨attributes, arguments, hne, hletters, hflat, trivial, htext, ?_⟩, by simp, by simp⟩
    rw [keywordCall_eq ((hgroup 1).trans (by rw [h₁, Option.getD_some]))
      ((hgroup 2).trans (by rw [h₂, Option.getD_some]))]
    simp
  · rintro taken new ⟨attributes, arguments, hne, -, -, -, rfl, -⟩
    simp [finderCall]
  · rintro before taken after new ⟨⟨attributes, arguments, hne, hletters, hflat, -, rfl, -⟩, -⟩
    exact canTake_chars (canTake_callExpr hne hletters hflat)

theorem swaps_findOrInitialize : findOrInitializeRepair.pattern.expr.Swaps
    (keywordCall "find_or_initialize_by") (framed noChar noChar
      (Finder ".find_or_initialize_by_" ("." ++ "find_or_initialize_by" ++ "(") fun _ => True)) :=
  swaps_finder callPatterns.2.1

theorem swaps_findOrCreate : findOrCreateRepair.pattern.expr.Swaps
    (keywordCall "find_or_create_by") (framed noChar noChar
      (Finder ".find_or_create_by_" ("." ++ "find_or_create_by" ++ "(") fun _ => True)) :=
  swaps_finder callPatterns.2.2.1

/-- Looking ahead for a whole word. -/
theorem decides_word (word : String) (hlast : word.toList.reverse.head?.any Text.isWord = true) :
    (Expr.chars word (.anchor (.wordEdge false))).Decides
      fun s => ∃ rest, s = word.toList ++ rest ∧ rest.head?.any Text.isWord = false where
  ends c := by
    constructor
    · intro hne
      obtain ⟨c', hc'⟩ := List.exists_mem_of_ne_nil _ hne
      obtain ⟨mid, htakes, hmid⟩ := mem_ends_chars hc'
      obtain ⟨-, hend⟩ := mem_ends_anchor.mp hmid
      refine ⟨mid.after, htakes.after, after_of_wordEdge hend ?_⟩
      rw [htakes.before]
      exact any_head_append hlast _
    · rintro ⟨rest, hafter, hrest⟩
      have htake : (Expr.chars word (.anchor (.wordEdge false))).CanTake c.before
          (word.toList ++ []) rest :=
        canTake_chars (canTake_wordEnd (any_head_append hlast _) hrest)
      obtain ⟨c', hc', -⟩ := htake c rfl (by rw [hafter, List.append_nil])
      exact List.ne_nil_of_mem hc'
  groups c c' h := by
    unfold Expr.chars at h
    generalize word.toList = word at h
    -- The captures stay the same with every letter, as only a group adds one.
    induction word generalizing c with
    | nil => rw [(mem_ends_anchor.mp h).1]
    | cons x word ih =>
      obtain ⟨c₁, hx, hrest⟩ := mem_ends_seq.mp h
      have hone : c.Takes [x] c₁ ∧ c₁.groups = c.groups := mem_ends_literal hx
      rw [ih c₁ hrest, hone.2]

/-- Attributes that are not the name of another method. -/
def Dynamic (attributes : List Char) : Prop := attributes ≠ "sql".toList

theorem ahead_sql_iff {attributes rest : List Char} (hletters : attributes.all attributeLetters.mem = true) :
    (∃ rest', attributes ++ '(' :: rest = "sql".toList ++ rest' ∧
      rest'.head?.any Text.isWord = false) ↔ attributes = "sql".toList := by
  have hword : attributes.all Text.isWord = true := by
    rw [List.all_eq_true] at hletters ⊢
    exact fun c hc => isWord_of_attributeLetters (hletters c hc)
  constructor
  · rintro ⟨rest', heq, hrest'⟩
    have hbracket : ('(' :: rest).head?.any Text.isWord = false := show Text.isWord '(' = false by decide
    exact (Text.span_unique hword (by decide) hbracket hrest' heq).1
  · rintro rfl
    exact ⟨'(' :: rest, rfl, show Text.isWord '(' = false by decide⟩

theorem canTake_dynamic {p : Expr} {attributes rest before s after : List Char}
    (hletters : attributes.all attributeLetters.mem = true) (hgood : Dynamic attributes)
    (hs : s ++ after = attributes ++ '(' :: rest) (h : p.CanTake before s after) :
    (Expr.seq (.look 0 false (.chars "sql" (.anchor (.wordEdge false)))) p).CanTake before s after := by
  refine canTake_seq (s := []) ((decides_word "sql" (by decide)).canTake_notAhead ?_) h
  show ¬ ∃ rest', s ++ after = _ ∧ _
  rw [hs, ahead_sql_iff hletters]
  exact hgood

theorem swaps_findBy : findByRepair.pattern.expr.Swaps (keywordCall "find_by")
    (framed noChar noChar (Finder ".find_by_" ("." ++ "find_by" ++ "(") Dynamic)) := by
  obtain ⟨-, -, -, hexpr, -⟩ := callPatterns
  have hdecides := decides_word "sql" (by decide)
  refine swaps_framed hexpr (fun m hnone hmem => ?_) ?_ ?_
  · obtain ⟨htakes, g, hread, hgroup⟩ := reads_match hnone hmem
    obtain ⟨s, htext, hrest⟩ := reads_chars.mp hread
    obtain ⟨attributes, arguments, hne, hletters, hflat, rfl, h₁, h₂⟩ :=
      flat_of_callExpr (Pattern.reads_seq_look.mp hrest)
    obtain ⟨mid, hmid, hmem⟩ := mem_ends_chars hmem
    obtain ⟨_, hlook, -⟩ := mem_ends_seq.mp hmem
    have hfree := (hdecides.mem_ends_notAhead.mp hlook).2
    -- What the look ahead saw and what the match took begin at the same place.
    have hafter : mid.after = attributes ++ '(' :: (arguments ++ [')'] ++ m.last.after) := by
      have hsame := hmid.after.symm.trans htakes.after
      rw [htext, List.append_assoc] at hsame
      simpa using List.append_cancel_left hsame
    rw [hafter, ahead_sql_iff hletters] at hfree
    refine ⟨⟨attributes, arguments, hne, hletters, hflat, hfree, htext, ?_⟩, by simp, by simp⟩
    rw [keywordCall_eq ((hgroup 1).trans (by rw [h₁, Option.getD_some]))
      ((hgroup 2).trans (by rw [h₂, Option.getD_some]))]
    rfl
  · rintro taken new ⟨attributes, arguments, hne, -, -, -, rfl, -⟩
    simp [finderCall]
  · rintro before taken after new ⟨⟨attributes, arguments, hne, hletters, hflat, hgood, rfl, -⟩, -⟩
    have hafter : attributes ++ ('(' :: (arguments ++ [')'])) ++ after =
        attributes ++ '(' :: (arguments ++ [')'] ++ after) := by simp
    exact canTake_chars (canTake_dynamic hletters hgood hafter (canTake_callExpr hne hletters hflat))

/-! ### Whether something is present -/

/-- A character that goes on with its line. -/
def onLine (x : Char) : Bool := x != '\n'

/-- A name that is asked for its presence at the end of a line. If it is used like a collection, its
blank members are left out. -/
def Asked (used : List Char → Bool) (taken new : List Char) : Prop :=
  ∃ name gap, name ≠ [] ∧ name.all Text.isWord = true ∧ gap.all Text.isSpaceOrTab = true ∧
    taken = name ++ (".present?".toList ++ gap) ∧
    new = if used name then name ++ ".reject(&:blank?).present?".toList else taken

theorem lineEnd_iff {c : Cursor} :
    Anchor.lineEnd.holds c = true ↔ c.after.head?.any onLine = false := by
  show (c.after.isEmpty || c.after.head? == some '\n') = true ↔ _
  cases c.after with
  | nil => simp
  | cons x rest => simp [onLine]

theorem mem_margin (x : Char) :
    (CharSet.ofItems [.one ' ', .one '\t']).mem x = Text.isSpaceOrTab x := by
  simp [Pattern.CharItem.mem, Text.isSpaceOrTab]

theorem swaps_presence (text : List Char) : presenceRepair.pattern.expr.Swaps
    (presenceRepair.replace text)
    (framed noChar onLine (Asked fun name => (collectionUse name).found text)) := by
  obtain ⟨-, -, -, -, -, -, -, hexpr, -⟩ := callPatterns
  have hmargin : ∀ s : List Char, s.all (CharSet.mem (.ofItems [.one ' ', .one '\t'])) =
      s.all Text.isSpaceOrTab := fun s => by
    rw [show (CharSet.ofItems [.one ' ', .one '\t']).mem = _ from funext mem_margin]
  refine swaps_framed hexpr (fun m hnone hmem => ?_) ?_ ?_
  · obtain ⟨-, g, hread, hgroup⟩ := reads_match hnone hmem
    obtain ⟨name, _, _, ⟨_, hname, rfl⟩, hrest, htext⟩ := hread
    obtain ⟨hlength, hword, rfl⟩ := reads_run.mp hname
    obtain ⟨_, rfl, gap, _, _, hgap, ⟨rfl, rfl⟩, rfl⟩ := reads_chars.mp hrest
    obtain ⟨-, hall, rfl⟩ := reads_run.mp hgap
    rw [List.append_nil] at htext
    have h₁ : m.group 1 = name := hgroup 1
    obtain ⟨_, -, hmem⟩ := mem_ends_seq.mp hmem
    obtain ⟨_, -, hmem⟩ := mem_ends_chars hmem
    obtain ⟨_, -, hmem⟩ := mem_ends_seq.mp hmem
    obtain ⟨hlast, hend⟩ := mem_ends_anchor.mp hmem
    rw [← hlast] at hend
    -- The name cannot be missing, and the gap runs to the end of the line.
    refine ⟨⟨name, gap, ?_, by rwa [← all_wordLetters], by rwa [← hmargin], htext, ?_⟩, by simp,
      lineEnd_iff.mp hend⟩
    · rintro rfl
      simp at hlength
    · show presentMembers text m = _
      rw [presentMembers, h₁]
  · rintro taken new ⟨name, gap, hne, -, -, rfl, -⟩
    simp [hne]
  · rintro before taken after new ⟨⟨name, gap, hne, hname, hgap, rfl, -⟩, -, hafter⟩
    rw [← List.append_nil gap]
    refine canTake_seq (canTake_group (canTake_plus (by rwa [all_wordLetters]) hne)) (canTake_chars
      (canTake_seq (canTake_star (by rwa [hmargin])) (canTake_anchor fun c _ ha => ?_)))
    rw [lineEnd_iff, ha, hafter]

/-! ### Values and keys of a hash -/

/-- A boolean value gets quotes. -/
def Flag (taken new : List Char) : Prop :=
  ∃ gap value, gap.all Text.isBlank = true ∧ (value = "true".toList ∨ value = "false".toList) ∧
    taken = "=>".toList ++ (gap ++ value) ∧ new = "=>".toList ++ (gap ++ '"' :: (value ++ ['"']))

theorem all_blanks_eq (s : List Char) : s.all blanks.mem = s.all Text.isBlank := by
  rw [show blanks.mem = Text.isBlank from funext mem_blanks]

theorem head?_reverse_flag {value : List Char} (h : value = "true".toList ∨ value = "false".toList) :
    value.reverse.head?.any Text.isWord = true := by
  rcases h with rfl | rfl <;> decide

/-- A boolean value as a whole word. -/
theorem canTake_flagWord {value before after : List Char}
    (hvalue : value = "true".toList ∨ value = "false".toList)
    (hafter : after.head?.any Text.isWord = false) {p : Expr → Expr}
    (hp : ∀ {e : Expr} {before after : List Char}, e.CanTake before value after →
      (p e).CanTake before value after) :
    (Expr.seq (p (.alt (.literal "true".toList) (.literal "false".toList)))
      (.anchor (.wordEdge false))).CanTake before value after := by
  rw [← List.append_nil value]
  refine canTake_seq (hp (canTake_alt ?_))
    (canTake_wordEnd (any_head_append (head?_reverse_flag hvalue) _) hafter)
  rcases hvalue with rfl | rfl
  · exact .inl canTake_literal
  · exact .inr canTake_literal

theorem swaps_flag : booleanValue.expr.Swaps
    (fun b => b.group 1 ++ "\x22".toList ++ b.group 2 ++ "\x22".toList)
    (framed noChar Text.isWord Flag) := by
  obtain ⟨hexpr, -⟩ := settingsPatterns
  refine swaps_framed hexpr (fun m hnone hmem => ?_) ?_ ?_
  · obtain ⟨htakes, g, hread, hgroup⟩ := reads_match hnone hmem
    obtain ⟨arrow, _, _, ⟨_, harrow, rfl⟩, ⟨value, _, _, ⟨_, hvalue, rfl⟩, ⟨rfl, rfl⟩, rfl⟩, htext⟩ :=
      hread
    obtain ⟨gap, rfl, hgap⟩ := reads_chars.mp harrow
    obtain ⟨-, hall, rfl⟩ := reads_run.mp hgap
    have hword : value = "true".toList ∨ value = "false".toList :=
      hvalue.imp (fun h => (reads_literal.mp h).1) fun h => (reads_literal.mp h).1
    -- Neither word sets a group.
    obtain rfl : _ = [(1, "=>".toList ++ gap)] := hvalue.elim (fun h => (reads_literal.mp h).2)
      fun h => (reads_literal.mp h).2
    have h₁ : m.group 1 = "=>".toList ++ gap := hgroup 1
    have h₂ : m.group 2 = value := hgroup 2
    rw [List.append_nil] at htext
    obtain ⟨_, -, hmem⟩ := mem_ends_seq.mp hmem
    obtain ⟨_, -, hmem⟩ := mem_ends_seq.mp hmem
    obtain ⟨hlast, hend⟩ := mem_ends_anchor.mp hmem
    rw [← hlast] at hend
    refine ⟨⟨gap, value, by rwa [← all_blanks_eq], hword, ?_, ?_⟩, by simp, after_of_wordEdge hend ?_⟩
    · rw [htext, List.append_assoc]
    · rw [h₁, h₂]
      simp
    · rw [htakes.before, htext, List.reverse_append, List.append_assoc]
      exact any_head_append (head?_reverse_flag hword) _
  · rintro taken new ⟨gap, value, -, -, rfl, -⟩
    simp
  · rintro before taken after new ⟨⟨gap, value, hgap, hvalue, rfl, -⟩, -, hafter⟩
    rw [← List.append_assoc]
    exact canTake_seq (canTake_group (canTake_chars (canTake_star (by rwa [all_blanks_eq]))))
      (canTake_flagWord hvalue hafter canTake_group)

/-- What must not stand in front of a symbol. -/
def symbolGuard (x : Char) : Bool := Text.isWord x || x == ':'

/-- A symbol that is a key becomes a text. -/
def SymbolKey (taken new : List Char) : Prop :=
  ∃ x word gap, attributeLetters.mem x = true ∧ word.all Text.isWord = true ∧
    gap.all Text.isBlank = true ∧ taken = ':' :: (x :: word ++ (gap ++ "=>".toList)) ∧
    new = '"' :: (x :: word ++ '"' :: (gap ++ "=>".toList))

theorem mem_symbolGuard (x : Char) :
    (CharSet.ofItems [.kind .word false false, .one ':']).mem x = symbolGuard x := by
  simp [symbolGuard, Pattern.CharItem.mem, Pattern.CharKind.mem]

theorem swaps_symbolKey : symbolKey.expr.Swaps
    (fun k => "\x22".toList ++ k.group 1 ++ "\x22".toList ++ k.group 2)
    (framed symbolGuard noChar SymbolKey) := by
  obtain ⟨-, hexpr⟩ := settingsPatterns
  have hguard : ∀ x : Option Char, x.any (CharSet.mem (.ofItems [.kind .word false false, .one ':'])) =
      x.any symbolGuard := fun x => by
    rw [show CharSet.mem (.ofItems [.kind .word false false, .one ':']) = _ from funext mem_symbolGuard]
  refine swaps_framed hexpr (fun m hnone hmem => ?_) ?_ ?_
  · obtain ⟨-, g, hread, hgroup⟩ := reads_match hnone hmem
    rw [Pattern.reads_seq_look] at hread
    obtain ⟨_, htext, key, _, arrow, ⟨_, hkey, rfl⟩, ⟨_, harrow, rfl⟩, rfl⟩ := reads_chars.mp hread
    obtain ⟨_, _, word, ⟨⟨x, hx, rfl⟩, rfl⟩, hword, rfl⟩ := hkey
    obtain ⟨-, hword, rfl⟩ := reads_run.mp hword
    obtain ⟨gap, _, _, hgap, hliteral, rfl⟩ := harrow
    obtain ⟨-, hgap, rfl⟩ := reads_run.mp hgap
    obtain ⟨rfl, rfl⟩ := reads_literal.mp hliteral
    have h₁ : m.group 1 = [x] ++ word := hgroup 1
    have h₂ : m.group 2 = gap ++ "=>".toList := hgroup 2
    obtain ⟨_, hlook, -⟩ := mem_ends_seq.mp hmem
    rw [Pattern.ends_notBehind, hguard] at hlook
    refine ⟨⟨x, word, gap, hx, by rwa [← all_wordLetters], by rwa [← all_blanks_eq], htext, ?_⟩, ?_,
      by simp⟩
    · rw [h₁, h₂]
      simp
    -- The guard looks one character back, and with a word or a colon there it has no end.
    · by_contra hbehind
      rw [if_pos (by simpa using hbehind)] at hlook
      cases hlook
  · rintro taken new ⟨x, word, gap, -, -, -, rfl, -⟩
    simp
  · rintro before taken after new ⟨⟨x, word, gap, hx, hword, hgap, rfl, -⟩, hbefore, -⟩
    have hlook : (Expr.look 1 false (.one (.ofItems [.kind .word false false, .one ':']))).CanTake
        before [] ((':' :: (x :: word ++ (gap ++ "=>".toList))) ++ after) := by
      intro c hb _
      refine ⟨c, ?_, .refl c⟩
      rw [Pattern.ends_notBehind, hguard, hb, hbefore]
      exact List.mem_singleton_self _
    rw [← all_wordLetters] at hword
    rw [← all_blanks_eq] at hgap
    show (Expr.seq _ (Expr.chars ":" _)).CanTake before
      ([] ++ (":".toList ++ ((x :: word) ++ (gap ++ "=>".toList)))) after
    exact canTake_seq hlook (canTake_chars (canTake_seq
      (canTake_group (canTake_seq (s := [x]) (canTake_one hx) (canTake_star hword)))
      (canTake_group (canTake_seq (canTake_star hgap) canTake_literal))))

/-! ### Hashes of settings -/

/-- A hash of settings up to its opening brace. -/
def hashLead (gap gap' : List Char) : List Char :=
  "settings".toList ++ (gap ++ ("=".toList ++ (gap' ++ "\x7b".toList)))

/-- A hash of settings. -/
def hashText (gap gap' body : List Char) : List Char :=
  "settings".toList ++ (gap ++ ("=".toList ++ (gap' ++ ("\x7b".toList ++ (body ++ ['}'])))))

theorem hashText_eq (gap gap' body : List Char) :
    hashText gap gap' body = hashLead gap gap' ++ (body ++ ['}']) := by
  unfold hashText hashLead
  simp only [List.append_assoc]

/-- A hash of settings is changed as a whole. -/
def Hashed (change : List Char → List Char) (taken new : List Char) : Prop :=
  ∃ gap gap' body, gap.all Text.isBlank = true ∧ gap'.all Text.isBlank = true ∧ '}' ∉ body ∧
    taken = hashText gap gap' body ∧ new = change taken

/-- Everything but a closing brace. -/
def inHash : CharSet := .butItems [.one '}']

/-- Something in a hash of settings, or the brace that closes it. -/
def hashPart (part : Expr) : Expr :=
  .chars "settings" (.seq (.star blanks) (.chars "=" (.seq (.star blanks)
    (.chars "\x7b" (.seq (.star inHash) part)))))

theorem settingsHash_expr : settingsHash.expr = hashPart (.one (.single '}')) :=
  Pattern.expr_fixed String.toList_ofList (by decide)

theorem all_inHash {s : List Char} : s.all inHash.mem = true ↔ '}' ∉ s := by
  have hmem : ∀ x, inHash.mem x = true ↔ x ≠ '}' := by simp [inHash, Pattern.CharItem.mem]
  rw [List.all_eq_true]
  simp only [hmem]
  exact ⟨fun h hmem => h _ hmem rfl, fun h x hx heq => h (heq ▸ hx)⟩

section

variable {part : Expr}

theorem canTake_hashPart {gap gap' body s before after : List Char}
    (hgap : gap.all Text.isBlank = true) (hgap' : gap'.all Text.isBlank = true) (hbody : '}' ∉ body)
    (hpart : ∀ before, part.CanTake before s after) :
    (hashPart part).CanTake before (hashLead gap gap' ++ (body ++ s)) after := by
  rw [← all_blanks_eq] at hgap hgap'
  unfold hashLead
  simp only [List.append_assoc]
  exact canTake_chars (canTake_seq (canTake_star hgap) (canTake_chars (canTake_seq
    (canTake_star hgap') (canTake_chars (canTake_seq (canTake_star (all_inHash.mpr hbody))
      (hpart _))))))

theorem exists_of_hashPart {s : List Char} {g g' : Pattern.Groups}
    (h : (hashPart part).Reads g s g') : ∃ gap gap' body s', gap.all Text.isBlank = true ∧
      gap'.all Text.isBlank = true ∧ '}' ∉ body ∧ s = hashLead gap gap' ++ (body ++ s') ∧
      part.Reads g s' g' := by
  obtain ⟨_, rfl, gap, _, _, hgap, hequals, rfl⟩ := reads_chars.mp h
  obtain ⟨_, rfl, gap', _, _, hgap', hopen, rfl⟩ := reads_chars.mp hequals
  obtain ⟨_, rfl, body, _, s', hbody, hpart, rfl⟩ := reads_chars.mp hopen
  obtain ⟨-, hblank, rfl⟩ := reads_run.mp hgap
  obtain ⟨-, hblank', rfl⟩ := reads_run.mp hgap'
  obtain ⟨-, hinside, rfl⟩ := reads_run.mp hbody
  refine ⟨gap, gap', body, s', all_blanks hblank, all_blanks hblank', all_inHash.mp hinside, ?_,
    hpart⟩
  unfold hashLead
  simp only [List.append_assoc]

end

theorem swaps_settings (change : List Char → List Char) :
    settingsHash.expr.Swaps (fun m => change m.text) (framed noChar noChar (Hashed change)) := by
  refine swaps_framed settingsHash_expr (fun m hnone hmem => ?_) ?_ ?_
  · obtain ⟨-, g, hread, -⟩ := reads_match hnone hmem
    obtain ⟨gap, gap', body, _, hgap, hgap', hbody, htext, ⟨x, hx, rfl⟩, -⟩ := exists_of_hashPart hread
    obtain rfl : x = '}' := by simpa using hx
    rw [← hashText_eq] at htext
    exact ⟨⟨gap, gap', body, hgap, hgap', hbody, htext, rfl⟩, by simp, by simp⟩
  · rintro taken new ⟨gap, gap', body, -, -, -, rfl, -⟩
    rw [hashText_eq]
    simp
  · rintro before taken after new ⟨⟨gap, gap', body, hgap, hgap', hbody, rfl, -⟩, -⟩
    rw [hashText_eq]
    exact canTake_hashPart hgap hgap' hbody fun _ => canTake_one (by simp)

end RailsUpgrade.Catalogue
