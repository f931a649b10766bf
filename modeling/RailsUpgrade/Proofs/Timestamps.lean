import RailsUpgrade.Proofs.ColumnRules

/-!
# `RailsUpgrade.Proofs.Timestamps`: timestamps that get a precision

Giving timestamps a precision drops the blanks around the rest of their line.

* `Header.insert`: blanks in front of a line break in a header leave it a header;
* `swaps_timestamps`: the pattern for timestamps, told as a rewrite;
* `titled_timestamps`: a titled text stays titled, since a header that the dropped blanks stood in
  would not have been plain.
-/

set_option autoImplicit false

namespace RailsUpgrade.Migration

open Pattern (Expr Match Pass Cursor mem_ends_anchor head?_ends_seq head?_ends_chars head?_ends_star
  canTake_seq canTake_star canTake_chars canTake_anchor canTake_group startsWithWord)
open Gemfile (exists_of_notMem)
open Text (StartsBreak)

/-! ### Blanks in headers -/

/-- A line break behind blanks stands in them or behind them. -/
theorem break_in_blanks {gap rest part b : List Char} (h : gap ++ rest = part ++ '\n' :: b) :
    (∃ tail, gap = part ++ '\n' :: tail ∧ b = tail ++ rest) ∨
      ∃ part', part = gap ++ part' ∧ rest = part' ++ '\n' :: b := by
  rcases List.append_eq_append_iff.mp h with ⟨part', rfl, hrest⟩ | ⟨tail, rfl, hb⟩
  · exact .inr ⟨part', rfl, hrest⟩
  · cases tail with
    | nil => exact .inr ⟨[], by simp, by simpa using hb.symm⟩
    | cons y tail =>
      obtain ⟨rfl, rfl⟩ := List.cons_eq_cons.mp hb
      exact .inl ⟨tail, rfl, rfl⟩

/-- A line break in a header stands in one of its three gaps. -/
theorem Header.break_cases (h : Header) (t : Title) {part b : List Char}
    (hsplit : h.base ++ t.text = part ++ '\n' :: b) :
    (∃ front tail, part = "class".toList ++ front ∧ h.gap = front ++ '\n' :: tail ∧
      b = tail ++ (h.name ++ (h.space ++ ("<".toList ++ (h.margin ++ (superclass.toList ++ t.text)))))) ∨
    (∃ front tail, part = "class".toList ++ (h.gap ++ (h.name ++ front)) ∧ h.space = front ++ '\n' :: tail ∧
      b = tail ++ ("<".toList ++ (h.margin ++ (superclass.toList ++ t.text)))) ∨
    ∃ front tail, part = "class".toList ++ (h.gap ++ (h.name ++ (h.space ++ ("<".toList ++ front)))) ∧
      h.margin = front ++ '\n' :: tail ∧ b = tail ++ (superclass.toList ++ t.text) := by
  have hword : '\n' ∉ h.name := Helper.notMem_of_word h.name_word (by decide)
  have hclass : '\n' ∉ "class".toList := by decide
  have hbracket : '\n' ∉ "<".toList := by decide
  have hsuper : '\n' ∉ superclass.toList := by decide
  have htitle : '\n' ∉ t.text := t.notMem_text (by decide) (by decide) (by decide)
  rw [h.base_append] at hsplit
  obtain ⟨part₁, rfl, hsplit₁⟩ := exists_of_notMem hclass hsplit
  rcases break_in_blanks hsplit₁ with ⟨tail, hgap, rfl⟩ | ⟨part₂, rfl, hsplit₂⟩
  · exact .inl ⟨part₁, tail, rfl, hgap, rfl⟩
  obtain ⟨part₃, rfl, hsplit₃⟩ := exists_of_notMem hword hsplit₂
  rcases break_in_blanks hsplit₃ with ⟨tail, hspace, rfl⟩ | ⟨part₄, rfl, hsplit₄⟩
  · exact .inr (.inl ⟨part₃, tail, rfl, hspace, rfl⟩)
  obtain ⟨part₅, rfl, hsplit₅⟩ := exists_of_notMem hbracket hsplit₄
  rcases break_in_blanks hsplit₅ with ⟨tail, hmargin, rfl⟩ | ⟨part₆, rfl, hsplit₆⟩
  · exact .inr (.inr ⟨part₅, tail, rfl, hmargin, rfl⟩)
  · have hmem : '\n' ∈ superclass.toList ++ t.text := by rw [hsplit₆]; simp
    exact absurd (List.mem_append.mp hmem) (not_or.mpr ⟨hsuper, htitle⟩)

/-- Blanks in front of a line break in a header leave it a header. -/
theorem Header.insert (h : Header) (t : Title) {part b blanks : List Char}
    (hsplit : h.base ++ t.text = part ++ '\n' :: b) (hblanks : blanks.all Text.isBlank = true) :
    ∃ h' : Header, part ++ (blanks ++ '\n' :: b) = h'.base ++ t.text := by
  -- The blanks with more of them in front of the line break.
  have hlonger : ∀ {gap part tail : List Char}, gap.all Text.isBlank = true →
      gap = part ++ '\n' :: tail → (part ++ (blanks ++ '\n' :: tail)).all Text.isBlank = true := by
    rintro gap part tail hgap rfl
    simp only [List.all_append, List.all_cons, Bool.and_eq_true] at hgap ⊢
    exact ⟨hgap.1, hblanks, hgap.2⟩
  rcases h.break_cases t hsplit with ⟨front, tail, rfl, hgap, rfl⟩ | ⟨front, tail, rfl, hspace, rfl⟩ |
    ⟨front, tail, rfl, hmargin, rfl⟩
  · refine ⟨{ h with
      gap := front ++ (blanks ++ '\n' :: tail)
      gap_blank := hlonger h.gap_blank hgap
      gap_ne := by simp }, ?_⟩
    rw [Header.base_append]
    simp only [List.append_assoc, List.cons_append]
  · refine ⟨{ h with
      space := front ++ (blanks ++ '\n' :: tail)
      space_blank := hlonger h.space_blank hspace
      space_ne := by simp }, ?_⟩
    rw [Header.base_append]
    simp only [List.append_assoc, List.cons_append]
  · refine ⟨{ h with
      margin := front ++ (blanks ++ '\n' :: tail)
      margin_blank := hlonger h.margin_blank hmargin
      margin_ne := by simp }, ?_⟩
    rw [Header.base_append]
    simp only [List.append_assoc, List.cons_append]

/-- A plain header stands on one line. -/
theorem Header.break_notMem_plain (h : Header) (t : Title) : '\n' ∉ h.plain.base ++ t.text := by
  have hclass : '\n' ∉ "class".toList := by decide
  have hbracket : '\n' ∉ "<".toList := by decide
  have hsuper : '\n' ∉ superclass.toList := by decide
  have hgap : '\n' ∉ [' '] := by decide
  rw [h.plain.base_append]
  simp only [List.mem_append, not_or]
  exact ⟨hclass, hgap, Helper.notMem_of_word h.name_word (by decide), hgap, hbracket, hgap, hsuper,
    t.notMem_text (by decide) (by decide) (by decide)⟩

/-! ### The rule for timestamps -/

/-- The arguments of a call follow. -/
def OpensCall (s : List Char) : Prop :=
  ∃ run rest, s = run ++ rest ∧ run.all Text.isSpaceOrTab = true ∧ rest.head? = some '('

/-- The line goes on with a precision. -/
def IsPrecise (s : List Char) : Prop :=
  ∃ run rest, s = run ++ rest ∧ run.all lineSet.mem = true ∧ "precision:".toList <+: rest

/-- What follows the precision: the rest of the line without the blanks around it. -/
def behindPrecision (rest : List Char) : List Char :=
  match rest with
  | [] => []
  | '#' :: _ => ' ' :: rest
  | _ => ", ".toList ++ rest

/-- Timestamps get a precision, in front of the rest of their line. -/
def timestampRule : Rewrite := fun old after new =>
  ∃ rest, '\n' ∉ rest ∧ StartsBreak after ∧ startsWithWord false (rest ++ after) = false ∧
    ¬ OpensCall (rest ++ after) ∧ ¬ IsPrecise (rest ++ after) ∧ old = "timestamps".toList ++ rest ∧
    new = "timestamps precision: 6".toList ++ behindPrecision (Text.trim rest)

def opensCallExpr : Expr := .seq (.star blankSet) (.one (.single '('))

def isPreciseExpr : Expr := .seq (.star lineSet) (.literal "precision:".toList)

theorem timestamps_expr : timestamps.expr = .chars "t.timestamps" (.seq (.anchor (.wordEdge false))
    (.seq (.look 0 false opensCallExpr) (.seq (.look 0 false isPreciseExpr)
      (.group 1 (.star lineSet))))) :=
  Pattern.expr_fixed String.toList_ofList (by decide)

theorem decides_opensCallExpr : opensCallExpr.Decides OpensCall := by
  have hdecides := (Pattern.decides_single '(').star_seq blankSet
  rw [show blankSet.mem = Text.isSpaceOrTab from funext mem_blankSet] at hdecides
  exact hdecides

theorem decides_isPreciseExpr : isPreciseExpr.Decides IsPrecise :=
  (Pattern.decides_literal "precision:".toList).star_seq lineSet

/-- A group of all characters of a set that come next. -/
theorem head?_ends_group_star {i : Nat} {set : Pattern.CharSet} {c c' : Cursor}
    (h : ((Expr.group i (.star set)).ends c).head? = some c') :
    ∃ s, s.all set.mem = true ∧ c.Takes s c' ∧ c'.texts = (i, s) :: c.texts ∧
      c'.after.head?.any set.mem = false := by
  rw [Expr.ends, List.head?_map] at h
  obtain ⟨inner, hinner, rfl⟩ := Option.map_eq_some_iff.mp h
  obtain ⟨s, hs, htakes, hgroups⟩ := Pattern.mem_ends_star (List.mem_of_head? hinner)
  have htakes' : c.Takes s (inner.capture i c) := ⟨htakes.after, htakes.before, htakes.pos⟩
  refine ⟨s, hs, htakes', ?_, ?_⟩
  · have htext : c.textTo inner = s := htakes'.textTo
    show (i, c.textTo inner) :: inner.texts = (i, s) :: c.texts
    rw [htext, texts_of_groups hgroups]
    rfl
  · have hstop := Pattern.head?_after_run set (c.enter i)
    rwa [← head?_ends_star hinner] at hstop

theorem preciseTimestamps_eq (m : Match) : preciseTimestamps m =
    't' :: '.' :: ("timestamps precision: 6".toList ++ behindPrecision (Text.trim (m.group 1))) := by
  have htext : "t.timestamps precision: 6".toList = 't' :: '.' :: "timestamps precision: 6".toList := by
    decide
  unfold preciseTimestamps behindPrecision
  rw [htext]
  rfl

theorem startsWithWord_timestamps (before : List Char) :
    startsWithWord false ("t.timestamps".toList.reverse ++ before) = true := by
  have hlast : "t.timestamps".toList.reverse = 's' :: "pmatsemit.t".toList := by decide
  rw [hlast]
  rfl

theorem swaps_timestamps : timestamps.expr.Swaps preciseTimestamps timestampRule.swap where
  sound := by
    intro before after pos c hc
    rw [timestamps_expr] at hc
    obtain ⟨c₁, htakes, hc₁⟩ := head?_ends_chars hc
    obtain ⟨c₂, h₂, hc₂⟩ := head?_ends_seq hc₁
    obtain ⟨rfl, hedge⟩ := mem_ends_anchor.mp h₂
    obtain ⟨c₃, h₃, hc₃⟩ := head?_ends_seq hc₂
    obtain ⟨rfl, hcall⟩ := decides_opensCallExpr.mem_ends_notAhead.mp h₃
    obtain ⟨c₄, h₄, hc₄⟩ := head?_ends_seq hc₃
    obtain ⟨rfl, hprecise⟩ := decides_isPreciseExpr.mem_ends_notAhead.mp h₄
    obtain ⟨rest, hrest, htakes', htexts, hstop⟩ := head?_ends_group_star hc₄
    have hgroup : (⟨{ before, after, pos }, c⟩ : Match).group 1 = rest := by
      rw [Match.group, ← Cursor.lookup_texts, htexts]
      rfl
    -- The two guards of the pattern are read at the place behind the words.
    have hword : startsWithWord false c₄.after = false := by
      have hbefore := startsWithWord_timestamps before
      have hedge' : (startsWithWord false c₄.before != startsWithWord false c₄.after) = true := hedge
      rw [htakes.before, hbefore] at hedge'
      simpa using hedge'
    have hbreak : StartsBreak c.after := by
      cases hafter : c.after with
      | nil => exact .inl rfl
      | cons x tail =>
        rw [hafter] at hstop
        have hx : lineSet.mem x = false := hstop
        obtain rfl : x = '\n' := by simpa using hx
        exact .inr ⟨tail, rfl⟩
    have hdot : "t.timestamps".toList = 't' :: '.' :: "timestamps".toList := by decide
    rw [htakes'.after] at hcall hprecise hword
    refine ⟨'t' :: '.' :: ("timestamps".toList ++ rest), by simp, ?_, _, _, rfl, preciseTimestamps_eq _,
      rest, (all_lineSet rest).mp hrest, hbreak, hword, hcall, hprecise, rfl, by rw [hgroup]⟩
    have htaken := htakes.trans htakes'
    rwa [hdot] at htaken
  complete := by
    rintro before _ after _ pos ⟨_, _, rfl, -, rest, hrest, -, hword, hcall, hprecise, rfl, -⟩
    have hdot : "t.timestamps".toList = 't' :: '.' :: "timestamps".toList := by decide
    have hgroup : ∀ before, (Expr.group 1 (.star lineSet)).CanTake before rest after := fun before =>
      canTake_group (canTake_star ((all_lineSet rest).mpr hrest))
    have hedge : (Expr.anchor (.wordEdge false)).CanTake ("t.timestamps".toList.reverse ++ before) []
        (rest ++ after) := by
      refine canTake_anchor fun c hbefore hafter => ?_
      show (startsWithWord false c.before != startsWithWord false c.after) = true
      rw [hbefore, startsWithWord_timestamps, hafter, hword]
      rfl
    have htake : timestamps.expr.CanTake before ("t.timestamps".toList ++ ([] ++ ([] ++ ([] ++ rest))))
        after := by
      rw [timestamps_expr]
      exact canTake_chars (canTake_seq hedge (canTake_seq (decides_opensCallExpr.canTake_notAhead hcall)
        (canTake_seq (decides_isPreciseExpr.canTake_notAhead hprecise) (hgroup _))))
    obtain ⟨c, hc, -⟩ := htake
      { before, after := 't' :: '.' :: ("timestamps".toList ++ rest) ++ after, pos } rfl
      (by rw [hdot]; rfl)
    exact List.ne_nil_of_mem hc

/-! ### What the rule keeps -/

/-- The blanks around a text are dropped. -/
theorem exists_of_trim (s : List Char) : ∃ left right, s = left ++ (Text.trim s ++ right) ∧
    right.all Text.isBlank = true := by
  refine ⟨s.takeWhile Text.isBlank, (s.dropWhile Text.isBlank).rtakeWhile Text.isBlank, ?_, ?_⟩
  · rw [Text.trim_eq, List.rdropWhile_append_rtakeWhile, List.takeWhile_append_dropWhile]
  · exact List.all_eq_true.mpr fun x hx => List.mem_rtakeWhile_imp hx

/-- What stands in front of the rest of the line. -/
theorem behindPrecision_eq (rest : List Char) : ∃ front, front ∈ [[], [' '], ", ".toList] ∧
    behindPrecision rest = front ++ rest := by
  unfold behindPrecision
  split
  · exact ⟨[], by simp, rfl⟩
  · exact ⟨[' '], by simp, rfl⟩
  · exact ⟨", ".toList, by simp, rfl⟩

/-- The fixed text that is put in has no line break, and no header begins in it. -/
theorem fixed_plain : ∀ gap ∈ [[], [' '], ", ".toList],
    '\n' ∉ "t.timestamps precision: 6".toList ++ gap ∧
      ∀ s ∈ ("t.timestamps precision: 6".toList ++ gap).tails, s.head? = some 'c' →
        ∃ x ∈ s.tail.head?, x ≠ 'l' := by
  simp only [List.forall_mem_cons]
  exact ⟨⟨by decide, Header.tails_class (by decide)⟩, ⟨by decide, Header.tails_class (by decide)⟩,
    ⟨by decide, Header.tails_class (by decide)⟩, List.forall_mem_nil _⟩

/-- The rest of a line stays, up to the blanks around it, behind a fixed text. -/
structure Moved (old new : List Char) where
  front : List Char
  left : List Char
  rest : List Char
  right : List Char
  old_eq : 't' :: '.' :: old = "t.timestamps".toList ++ (left ++ (rest ++ right))
  new_eq : 't' :: '.' :: new = front ++ rest
  front_line : '\n' ∉ front
  front_class : ∀ s ∈ front.tails, s.head? = some 'c' → ∃ x ∈ s.tail.head?, x ≠ 'l'
  rest_line : '\n' ∉ left ++ (rest ++ right)
  right_blank : right.all Text.isBlank = true

theorem exists_moved {old after new : List Char} (h : timestampRule old after new) :
    StartsBreak after ∧ Nonempty (Moved old new) := by
  obtain ⟨line, hline, hafter, -, -, -, rfl, rfl⟩ := h
  obtain ⟨left, right, hsplit, hright⟩ := exists_of_trim line
  obtain ⟨gap, hgap, hbehind⟩ := behindPrecision_eq (Text.trim line)
  have hold : "t.timestamps".toList = 't' :: '.' :: "timestamps".toList := by decide
  have hnew : "t.timestamps precision: 6".toList = 't' :: '.' :: "timestamps precision: 6".toList := by
    decide
  refine ⟨hafter, ⟨{
    front := "t.timestamps precision: 6".toList ++ gap
    left, right
    rest := Text.trim line
    old_eq := by rw [hold, ← hsplit]; rfl
    new_eq := by rw [hnew, hbehind, List.append_assoc]; rfl
    front_line := (fixed_plain gap hgap).1
    front_class := (fixed_plain gap hgap).2
    rest_line := by rwa [← hsplit]
    right_blank := hright }⟩⟩

theorem solid_timestampRule : timestampRule.Solid := by
  -- Nothing on the line of a `t` is the first thing on it.
  have hline : ∀ {s : List Char}, '\n' ∉ 't' :: s → ∀ before,
      fresh (('t' :: s).reverse ++ before) = false := by
    intro s hs before
    exact fresh_eq_false (x := 't') (by decide) (fun hmem => hs (List.mem_cons_of_mem _ hmem)) [] before
  have hbreak : '\n' ∉ "t.timestamps".toList := by decide
  have hold : ∀ {old new : List Char}, Moved old new → '\n' ∉ 't' :: '.' :: old := by
    intro old new moved
    rw [moved.old_eq, List.mem_append, not_or]
    exact ⟨hbreak, moved.rest_line⟩
  refine ⟨fun h => ?_, fun h => ?_, @fun old after new lead rest h hsplit => ?_⟩
  · obtain ⟨-, ⟨moved⟩⟩ := exists_moved h
    exact hline (hold moved)
  · obtain ⟨-, ⟨moved⟩⟩ := exists_moved h
    refine hline ?_
    have hrest := moved.rest_line
    rw [moved.new_eq, List.mem_append, not_or]
    simp only [List.mem_append, not_or] at hrest
    exact ⟨moved.front_line, hrest.2.1⟩
  · obtain ⟨-, ⟨moved⟩⟩ := exists_moved h
    refine hline fun hmem => hold moved ?_
    rw [hsplit]
    simp only [List.mem_cons, List.mem_append] at hmem ⊢
    exact hmem.imp_right .inl

/-- A titled text stays titled. -/
theorem titled_timestamps {v : Version} {text result : List Char} (h : Titled v text)
    (hpass : Pass timestampRule.swap [] text result) : Titled v result := by
  refine h.pass hpass ?_
  rintro before old after new more lead part rest header t hrule ⟨pre, rfl⟩ hmore hpart hne heq
  obtain ⟨hafter, ⟨moved⟩⟩ := exists_moved hrule
  -- The header begins in the rest of the line.
  obtain ⟨lead', hline⟩ : ∃ lead', moved.rest = lead' ++ part := by
    rw [moved.new_eq] at hpart
    rcases List.append_eq_append_iff.mp hpart with ⟨lead', -, hline⟩ | ⟨mid, hfront, hmid⟩
    · exact ⟨lead', hline⟩
    · cases mid with
      | nil => exact ⟨[], hmid.symm⟩
      | cons y mid =>
        exfalso
        have hclass : "class".toList = 'c' :: 'l' :: "ass".toList := by decide
        rw [hmid, List.append_assoc, header.base_append, hclass] at heq
        obtain ⟨rfl, hnext⟩ := List.cons_eq_cons.mp heq
        obtain ⟨x, hx, hxl⟩ := moved.front_class ('c' :: mid)
          (by rw [List.mem_tails]; exact ⟨_, hfront.symm⟩) rfl
        cases mid with
        | nil => cases hx
        | cons u mid =>
          obtain rfl : u = x := by simpa using hx
          exact hxl (List.cons_eq_cons.mp hnext).1
  have htext : 't' :: '.' :: (old ++ after) =
      ("t.timestamps".toList ++ (moved.left ++ lead')) ++ (part ++ (moved.right ++ after)) := by
    rw [← List.cons_append, ← List.cons_append, moved.old_eq, hline]
    simp only [List.append_assoc]
  rcases List.append_eq_append_iff.mp heq with ⟨b, hheader, hmoreEq⟩ | ⟨part', rfl, -⟩
  · -- It goes on behind the line, so blanks were dropped inside of it.
    by_cases hb : b = []
    · refine h (pre ++ ("t.timestamps".toList ++ (moved.left ++ lead'))) header t (moved.right ++ after) ?_
      rw [htext, ← List.append_assoc header.base, hheader, hb, List.append_nil]
      simp only [List.append_assoc]
    · exfalso
      rcases hafter with rfl | ⟨after, rfl⟩
      · rw [hmore.eq_nil] at hmoreEq
        exact hb (List.append_eq_nil_iff.mp hmoreEq.symm).1
      · obtain ⟨more, rfl, hmore'⟩ := hmore.keeps fun taken after new htaken hswap => by
          obtain ⟨_, _, rfl, -, -⟩ := hswap
          exact absurd (List.cons_eq_cons.mp htaken).1 (by decide)
        obtain ⟨y, b, rfl⟩ := List.exists_cons_of_ne_nil hb
        obtain ⟨rfl, hb'⟩ := List.cons_eq_cons.mp hmoreEq
        have hfound : (part ++ ['\n']) ++ more = (header.base ++ t.text) ++ rest := by
          rw [hheader, hb']
          simp
        obtain ⟨rest', hrest, -⟩ := Rewrite.exists_found (P := fun _ => True)
          (fun a b heq => absurd heq (header.t_notMem_inside t)) (fun _ _ _ _ _ _ _ _ _ => trivial) hmore'
          (by simp) hfound trivial
        obtain ⟨header', hheader'⟩ := header.insert t hheader moved.right_blank
        obtain ⟨hplain, -⟩ := h (pre ++ ("t.timestamps".toList ++ (moved.left ++ lead'))) header' t rest' (by
          rw [htext, ← List.append_assoc header'.base, ← hheader']
          rw [hheader] at hrest
          have hafter : after = b ++ rest' := by simpa using hrest
          rw [hafter]
          simp only [List.append_assoc, List.cons_append])
        refine header'.break_notMem_plain t ?_
        rw [← hplain, ← hheader']
        simp
  · refine h (pre ++ ("t.timestamps".toList ++ (moved.left ++ lead'))) header t
      (part' ++ (moved.right ++ after)) ?_
    rw [htext]
    simp only [List.append_assoc]

end RailsUpgrade.Migration
