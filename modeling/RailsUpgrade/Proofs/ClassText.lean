import RailsUpgrade.Proofs.Lines
import RailsUpgrade.Proofs.Matching
import RailsUpgrade.Relocation.Basic

/-!
# `RailsUpgrade.Proofs.ClassText`: where a class is cut out of a text

`classIn?` finds a class with two patterns. `ClassCut` says what they find without patterns: the text
falls into what stands before the class, its header, the text inside, and what stands from its end
on.

* `clauseOf` is the part of a header that names the superclass, as far as it is understood;
* `exists_cut_of_classIn?`: what is taken out is the clause of the header and the text inside.
-/

set_option autoImplicit false

namespace RailsUpgrade

open Pattern (Expr CharSet Cursor)

/-- A character of a qualified constant. -/
def isConstantChar (c : Char) : Bool := Text.isWord c || c == ':'

/-- The clause of a header that names the superclass: what comes after the name of the class. It is
empty if no constant follows. -/
def clauseOf (rest : List Char) : List Char :=
  match rest.dropWhile Text.isSpaceOrTab with
  | '<' :: after =>
    let constant := (after.dropWhile Text.isSpaceOrTab).takeWhile isConstantChar
    if constant.isEmpty then []
    else rest.takeWhile Text.isSpaceOrTab ++ '<' :: (after.takeWhile Text.isSpaceOrTab ++ constant)
  | _ => []

/-- A text that is cut where a class is. -/
structure ClassCut (name : String) (text : List Char) where
  before : List Char
  margin : List Char
  gap : List Char
  /-- What stands on the line of the header after the name. -/
  rest : List Char
  inner : List Char
  /-- What stands after the word that ends the class. -/
  after : List Char
  text_eq : text = before ++ (margin ++ "class".toList ++ gap ++ name.toList ++ rest ++ ['\n'])
    ++ inner ++ (margin ++ "end".toList ++ after)
  before_ends : before = [] ∨ Text.EndsLine before
  inner_ends : inner = [] ∨ Text.EndsLine inner
  margin_blank : margin.all Text.isSpaceOrTab = true
  gap_blank : gap.all Text.isSpaceOrTab = true
  rest_line : '\n' ∉ rest

/-- The header of the class, with what ends its line. -/
def ClassCut.header {name : String} {text : List Char} (cut : ClassCut name text) : List Char :=
  cut.margin ++ "class".toList ++ cut.gap ++ name.toList ++ cut.rest ++ ['\n']

/-- What stands from the end of the class on. -/
def ClassCut.closing {name : String} {text : List Char} (cut : ClassCut name text) : List Char :=
  cut.margin ++ "end".toList ++ cut.after

/-! ### The sets of the patterns -/

/-- Spaces and tabs. -/
def blankSet : CharSet := .ofItems [.one ' ', .one '\t']

/-- The characters of qualified constants. -/
def constantSet : CharSet := .ofItems [.kind .word false false, .one ':']

/-- Everything on a line. -/
def lineSet : CharSet := .butItems [.one '\n']

@[simp] theorem mem_blankSet (x : Char) : blankSet.mem x = Text.isSpaceOrTab x := by
  simp [blankSet, Pattern.CharItem.mem, Text.isSpaceOrTab]

@[simp] theorem mem_constantSet (x : Char) : constantSet.mem x = isConstantChar x := by
  simp [constantSet, Pattern.CharItem.mem, Pattern.CharKind.mem, isConstantChar]

@[simp] theorem mem_lineSet (x : Char) : lineSet.mem x = (x != '\n') := by
  simp [lineSet, Pattern.CharItem.mem, bne]

theorem run_blankSet (c : Cursor) : blankSet.run c = (c.after.takeWhile Text.isSpaceOrTab).length := by
  rw [CharSet.run, show blankSet.mem = Text.isSpaceOrTab from funext mem_blankSet]

theorem run_constantSet (c : Cursor) :
    constantSet.run c = (c.after.takeWhile isConstantChar).length := by
  rw [CharSet.run, show constantSet.mem = isConstantChar from funext mem_constantSet]

theorem run_lineSet (c : Cursor) : lineSet.run c = (c.after.takeWhile (· != '\n')).length := by
  rw [CharSet.run, show lineSet.mem = (· != '\n') from funext mem_lineSet]

/-- Spaces, tabs and line feeds are no characters of constants. -/
theorem not_isConstantChar_of_isSpaceOrTab {x : Char} (h : Text.isSpaceOrTab x = true) :
    isConstantChar x = false := by
  obtain rfl | rfl : x = ' ' ∨ x = '\t' := by simpa [Text.isSpaceOrTab] using h
  · decide
  · decide

/-! ### The parts of a header -/

/-- The clause of a superclass, as a pattern. -/
def clauseExpr : Expr :=
  .seq (.star blankSet) (.seq (.one (.single '<')) (.seq (.star blankSet) (.plus constantSet)))

/-- The rest of a line. -/
def lineExpr : Expr := .seq (.star lineSet) (.one (.single '\n'))

/-- What follows the name on the line of a header. -/
def afterName : Expr := .seq (.rep (.group 2 clauseExpr) 0 (some 1) true) lineExpr

theorem classHeader_eq (name : String) :
    classHeader name = .seq (.anchor .lineStart) (.seq (.group 1 (.star blankSet))
      (.seq (.literal "class".toList) (.seq (.plus blankSet) (.seq (.literal name.toList)
        (.seq (.anchor (.wordEdge false)) afterName))))) :=
  rfl

theorem drop_takeWhile_length {α : Type} (p : α → Bool) (s : List α) :
    s.drop (s.takeWhile p).length = s.dropWhile p := by
  nth_rewrite 2 [← List.takeWhile_append_dropWhile (p := p) (l := s)]
  exact List.drop_left

theorem avoids_one {x : Char} {set : CharSet} (h : set.mem x = false) :
    (Expr.one (.single x)).Avoids set := by
  intro c y rest hafter hy
  have hne : y ≠ x := by
    rintro rfl
    simp [h] at hy
  simp [Expr.ends, hafter, hne]

theorem avoids_seq {p q : Expr} {set : CharSet} (h : p.Avoids set) : (Expr.seq p q).Avoids set := by
  intro c y rest hafter hy
  rw [Expr.ends, h c y rest hafter hy, List.flatMap_nil]

theorem avoids_constant : (Expr.plus constantSet).Avoids blankSet := by
  intro c y rest hafter hy
  rw [mem_blankSet] at hy
  simp [Pattern.ends_plus, run_constantSet, hafter, not_isConstantChar_of_isSpaceOrTab hy]

/-- The rest of a line has one end, behind the line feed. -/
theorem ends_lineExpr (c : Cursor) :
    lineExpr.ends c = if '\n' ∈ c.after then
      [c.shift ((c.after.takeWhile (· != '\n')).length + 1)] else [] := by
  rw [lineExpr, Pattern.ends_star_seq (avoids_one (by simp)), run_lineSet, Pattern.ends_single,
    Cursor.after_shift, drop_takeWhile_length, Cursor.shift_shift]
  congr 1
  rw [eq_iff_iff]
  constructor
  · intro hhead
    exact (List.dropWhile_suffix _).subset (List.mem_of_head? hhead)
  · intro hmem
    cases hrest : c.after.dropWhile (· != '\n') with
    | nil => simpa using List.dropWhile_eq_nil_iff.mp hrest '\n' hmem
    | cons x rest =>
      have hhead := List.head?_dropWhile_not (· != '\n') c.after
      rw [hrest] at hhead
      simpa using hhead

/-- The preferred end of a clause is the one behind `clauseOf`. -/
theorem head?_ends_clauseExpr (c : Cursor) :
    (clauseExpr.ends c).head? =
      if clauseOf c.after = [] then none else some (c.shift (clauseOf c.after).length) := by
  rw [clauseExpr, Pattern.ends_star_seq (avoids_seq (avoids_one (by decide))), run_blankSet, Expr.ends,
    Pattern.ends_single, Cursor.after_shift, drop_takeWhile_length]
  unfold clauseOf
  cases hrest : c.after.dropWhile Text.isSpaceOrTab with
  | nil => simp
  | cons x after =>
    by_cases hx : x = '<'
    -- The sign is there, so the clause goes on with the constant behind its blanks, if there is one.
    · subst hx
      have hafter : c.after.drop ((c.after.takeWhile Text.isSpaceOrTab).length + 1) = after := by
        rw [← List.drop_drop, drop_takeWhile_length, hrest]
        rfl
      simp only [List.head?_cons, if_true, List.flatMap_singleton, Cursor.shift_shift]
      rw [Pattern.ends_star_seq avoids_constant, run_blankSet, Cursor.after_shift, hafter,
        Pattern.ends_plus, run_constantSet, Cursor.shift_shift, Cursor.after_shift, ← List.drop_drop,
        hafter, drop_takeWhile_length]
      cases hconstant : (after.dropWhile Text.isSpaceOrTab).takeWhile isConstantChar with
      | nil => simp
      | cons y more =>
        simp only [List.length_cons, List.range_succ, List.reverse_append, List.reverse_singleton,
          List.singleton_append, List.map_cons, List.head?_cons, List.isEmpty_cons,
          Bool.false_eq_true, if_false, Cursor.shift_shift]
        rw [if_neg (by simp)]
        congr 2
        simp only [List.length_append, List.length_cons]
        omega
    · simp [hx]

/-- The parts of a clause: blanks, the sign, blanks and the longest constant that follows. -/
theorem exists_parts_of_clauseOf {s : List Char} (h : clauseOf s ≠ []) :
    ∃ lead gap constant tail, s = lead ++ '<' :: (gap ++ (constant ++ tail)) ∧
      clauseOf s = lead ++ '<' :: (gap ++ constant) ∧ lead.all Text.isSpaceOrTab = true ∧
      gap.all Text.isSpaceOrTab = true ∧ constant.all isConstantChar = true ∧ constant ≠ [] := by
  unfold clauseOf at h ⊢
  cases hrest : s.dropWhile Text.isSpaceOrTab with
  | nil => simp [hrest] at h
  | cons x after =>
    rw [hrest] at h
    by_cases hx : x = '<'
    · subst hx
      simp only at h ⊢
      split at h
      · exact absurd rfl h
      · rename_i hconstant
        refine ⟨s.takeWhile Text.isSpaceOrTab, after.takeWhile Text.isSpaceOrTab, _,
          (after.dropWhile Text.isSpaceOrTab).dropWhile isConstantChar, ?_, if_neg hconstant,
          List.all_takeWhile, List.all_takeWhile, List.all_takeWhile, by simpa using hconstant⟩
        rw [List.takeWhile_append_dropWhile, List.takeWhile_append_dropWhile, ← hrest,
          List.takeWhile_append_dropWhile]
    · simp [hx] at h

/-- The clause is the start of the line that it is taken from. -/
theorem clauseOf_prefix (s : List Char) : clauseOf s <+: s.takeWhile (· != '\n') := by
  by_cases h : clauseOf s = []
  · rw [h]
    exact List.nil_prefix
  obtain ⟨lead, gap, constant, tail, hs, hclause, hlead, hgap, hconstant, -⟩ :=
    exists_parts_of_clauseOf h
  have hline : ∀ x ∈ clauseOf s, (x != '\n') = true := by
    intro x hx
    rw [hclause] at hx
    simp only [List.mem_append, List.mem_cons] at hx
    rw [bne_iff_ne]
    rintro rfl
    obtain hx | hx | hx | hx := hx
    · exact absurd (List.all_eq_true.mp hlead _ hx) (by decide)
    · exact absurd hx (by decide)
    · exact absurd (List.all_eq_true.mp hgap _ hx) (by decide)
    · exact absurd (List.all_eq_true.mp hconstant _ hx) (by decide)
  have htail : s = clauseOf s ++ tail := by
    rw [hclause]
    simpa using hs
  nth_rewrite 2 [htail]
  rw [List.takeWhile_append_of_pos hline]
  exact List.prefix_append _ _

/-- An optional pattern is tried first, then left out. -/
theorem ends_optional (p : Expr) (c : Cursor) :
    (Expr.rep p 0 (some 1) true).ends c = p.ends c ++ [c] := by
  have hstop : ∀ fuel last c', Pattern.roundsEnds p.ends true fuel (some 0) last c' = [c'] := by
    intro fuel last c'
    cases fuel <;> simp [Pattern.roundsEnds]
  have hstop' : ∀ fuel last, Pattern.roundsEnds p.ends true fuel (some 0) last = fun c' => [c'] :=
    fun fuel last => funext (hstop fuel last)
  rw [Expr.ends, Pattern.timesEnds, List.flatMap_singleton, Pattern.roundsEnds]
  simp [hstop']

/-- A text up to its first line feed. -/
theorem exists_line {s : List Char} (h : '\n' ∈ s) : ∃ line more, s = line ++ '\n' :: more ∧ '\n' ∉ line := by
  obtain ⟨line, more, hs, hline⟩ := List.eq_append_cons_of_mem h
  exact ⟨line, more, hs, hline⟩

theorem takeWhile_line {x : Char} {line : List Char} (h : x ∉ line) (more : List Char) :
    (line ++ x :: more).takeWhile (· != x) = line ∧
      (line ++ x :: more).dropWhile (· != x) = x :: more := by
  have hline : ∀ y ∈ line, (y != x) = true := by
    intro y hy
    rw [bne_iff_ne]
    rintro rfl
    exact h hy
  rw [List.takeWhile_append_of_pos hline, List.dropWhile_append_of_pos hline]
  simp

/-- The lines that follow have no say in the clause. -/
theorem clauseOf_append (line more : List Char) : clauseOf (line ++ '\n' :: more) = clauseOf line := by
  have htake : ∀ p : Char → Bool, p '\n' = false → ∀ s : List Char,
      (s ++ '\n' :: more).takeWhile p = s.takeWhile p := by
    intro p hp s
    induction s with
    | nil => simp [hp]
    | cons x s ih => simp [List.takeWhile_cons, ih]
  have hdrop : ∀ p : Char → Bool, p '\n' = false → ∀ s : List Char,
      (s ++ '\n' :: more).dropWhile p = s.dropWhile p ++ '\n' :: more := by
    intro p hp s
    induction s with
    | nil => simp [hp]
    | cons x s ih =>
      rw [List.cons_append, List.dropWhile_cons, List.dropWhile_cons, ih]
      split <;> rfl
  unfold clauseOf
  rw [hdrop _ (by decide), htake _ (by decide)]
  cases line.dropWhile Text.isSpaceOrTab with
  | nil => rfl
  | cons x after =>
    by_cases hx : x = '<'
    · subst hx
      simp only [List.cons_append, hdrop Text.isSpaceOrTab (by decide),
        htake Text.isSpaceOrTab (by decide), htake isConstantChar (by decide)]
    · simp [hx]

/-- What follows the name of a header takes the rest of its line, and group 2 is its clause. -/
theorem head?_ends_afterName {c last : Cursor} (h : (afterName.ends c).head? = some last)
    (hgroup : c.group? 2 = none) :
    ∃ rest more, c.after = rest ++ '\n' :: more ∧ '\n' ∉ rest ∧ c.Takes (rest ++ ['\n']) last ∧
      (last.group? 2).getD [] = clauseOf rest ∧ last.group? 1 = c.group? 1 := by
  have hends : afterName.ends c = ((clauseExpr.ends (c.enter 2)).map (·.capture 2 c) ++ [c]).flatMap
      lineExpr.ends := by
    rw [afterName, Expr.ends, ends_optional, Expr.ends]
  obtain ⟨taken, htaken⟩ := Pattern.exists_takes_of_mem_ends _ (List.mem_of_head? h)
  -- Without a line feed there is no end.
  have hmem : '\n' ∈ c.after := by
    have hlast := List.mem_of_head? h
    obtain ⟨c₁, h₁, h₂⟩ := Pattern.mem_ends_seq.mp hlast
    obtain ⟨s, hs⟩ := Pattern.exists_takes_of_mem_ends _ h₁
    rw [ends_lineExpr] at h₂
    split at h₂
    · rename_i hmem
      rw [hs.after]
      exact List.mem_append_right _ hmem
    · cases h₂
  obtain ⟨rest, more, hafter, hrest⟩ := exists_line hmem
  have hclause : clauseOf c.after = clauseOf rest := by rw [hafter, clauseOf_append]
  refine ⟨rest, more, hafter, hrest, ?_⟩
  have htakes : ∀ c', c.Takes taken c' → c'.after = more → c.Takes (rest ++ ['\n']) c' := by
    intro c' hc' hmore
    have heq : taken = rest ++ ['\n'] := by
      refine List.append_cancel_right (?_ : taken ++ more = rest ++ ['\n'] ++ more)
      rw [← hmore, ← hc'.after, hafter, hmore]
      simp
    exact heq ▸ hc'
  have hhead := head?_ends_clauseExpr (c.enter 2)
  rw [show (c.enter 2).after = c.after from rfl, hclause] at hhead
  by_cases hnone : clauseOf rest = []
  · have hempty : clauseExpr.ends (c.enter 2) = [] := by simpa [hnone] using hhead
    rw [hends, hempty, List.map_nil, List.nil_append, List.flatMap_singleton, ends_lineExpr,
      if_pos hmem, hafter, (takeWhile_line hrest more).1] at h
    obtain rfl : c.shift (rest.length + 1) = last := by simpa using h
    refine ⟨htakes _ htaken (by simp [hafter]), ?_, rfl⟩
    have hsame : (c.shift (rest.length + 1)).group? 2 = c.group? 2 := rfl
    rw [hsame, hgroup, hnone, Option.getD_none]
  · rw [if_neg hnone] at hhead
    obtain ⟨others, hothers⟩ := List.head?_eq_some_iff.mp hhead
    have hpre : clauseOf rest <+: rest := by
      have hpre := clauseOf_prefix c.after
      rwa [hclause, hafter, (takeWhile_line hrest more).1] at hpre
    generalize clauseOf rest = clause at *
    obtain ⟨tail, rfl⟩ := hpre
    have htail : '\n' ∉ tail := fun hmem' => hrest (List.mem_append_right _ hmem')
    have hdrop : c.after.drop clause.length = tail ++ '\n' :: more := by
      rw [hafter, List.append_assoc, List.drop_left]
    have hline : lineExpr.ends (((c.enter 2).shift clause.length).capture 2 c) =
        [(((c.enter 2).shift clause.length).capture 2 c).shift (tail.length + 1)] := by
      have hcaptured : (((c.enter 2).shift clause.length).capture 2 c).after =
          tail ++ '\n' :: more := hdrop
      rw [ends_lineExpr, hcaptured, if_pos (by simp), (takeWhile_line htail more).1]
    rw [hends, hothers, List.map_cons, List.cons_append, List.flatMap_cons, hline,
      List.singleton_append, List.head?_cons] at h
    obtain rfl := Option.some.inj h
    refine ⟨htakes _ htaken ?_, ?_, rfl⟩
    · change (c.after.drop clause.length).drop (tail.length + 1) = more
      rw [hdrop]
      simp
    · change (some (c.textTo ((c.enter 2).shift clause.length))).getD [] = clause
      have htext : c.Takes clause ((c.enter 2).shift clause.length) := by
        have hle : clause.length ≤ (c.enter 2).after.length := by
          change clause.length ≤ c.after.length
          rw [hafter]
          simp
        have hshift := Cursor.takes_shift hle
        have htake : (c.enter 2).after.take clause.length = clause := by
          change c.after.take clause.length = clause
          rw [hafter, List.append_assoc, List.take_left]
        rw [htake] at hshift
        exact ⟨hshift.after, hshift.before, hshift.pos⟩
      rw [htext.textTo, Option.getD_some]

/-! ### The cut -/

/-- The header: where it starts, its parts, and its groups. -/
theorem exists_header {name : String} {c last : Cursor}
    (h : ((classHeader name).ends c).head? = some last) (hgroups : c.groups = []) :
    ∃ margin gap rest, (c.before = [] ∨ c.before.head? = some '\n') ∧
      margin.all Text.isSpaceOrTab = true ∧ gap.all Text.isSpaceOrTab = true ∧ '\n' ∉ rest ∧
      c.Takes (margin ++ "class".toList ++ gap ++ name.toList ++ rest ++ ['\n']) last ∧
      last.group? 1 = some margin ∧ (last.group? 2).getD [] = clauseOf rest := by
  rw [classHeader_eq] at h
  -- The header is read part by part, and each part tells what it has taken.
  obtain ⟨c₀, h₀, hmargin⟩ := Pattern.head?_ends_seq h
  obtain ⟨c₁, h₁, hword⟩ := Pattern.head?_ends_seq hmargin
  obtain ⟨c₂, h₂, hgap⟩ := Pattern.head?_ends_seq hword
  obtain ⟨c₃, h₃, hname⟩ := Pattern.head?_ends_seq hgap
  obtain ⟨c₄, h₄, hedge⟩ := Pattern.head?_ends_seq hname
  obtain ⟨c₅, h₅, hafter⟩ := Pattern.head?_ends_seq hedge
  clear h hmargin hword hgap hname hedge
  obtain ⟨rfl, hstart⟩ := Pattern.mem_ends_anchor.mp h₀
  obtain ⟨inside, hinside, rfl⟩ := List.mem_map.mp h₁
  obtain ⟨margin, hmargin, htakes₁, hgroups₁⟩ := Pattern.mem_ends_star hinside
  obtain ⟨htakes₂, hgroups₂⟩ := Pattern.mem_ends_literal h₂
  obtain ⟨gap, hgap, -, htakes₃, hgroups₃⟩ := Pattern.mem_ends_plus h₃
  obtain ⟨htakes₄, hgroups₄⟩ := Pattern.mem_ends_literal h₄
  obtain ⟨rfl, -⟩ := Pattern.mem_ends_anchor.mp h₅
  -- The margin is read twice: as the part that is captured, and as a part of the header.
  have htakes : c₀.Takes margin (inside.capture 1 c₀) :=
    ⟨htakes₁.after, htakes₁.before, htakes₁.pos⟩
  have hcaptured : c₅.groups = [(1, ⟨margin, inside.pos⟩)] := by
    rw [hgroups₄, hgroups₃, hgroups₂]
    change (1, (⟨c₀.textTo inside, inside.pos⟩ : Pattern.Capture)) :: inside.groups = _
    have htext : c₀.textTo inside = margin :=
      Cursor.Takes.textTo ⟨htakes₁.after, htakes₁.before, htakes₁.pos⟩
    rw [htext, hgroups₁]
    exact congrArg _ hgroups
  obtain ⟨rest, more, -, hrest, htakes₅, hgroup₂, hgroup₁⟩ :=
    head?_ends_afterName hafter (by simp [Cursor.group?, hcaptured])
  refine ⟨margin, gap, rest, by simpa [Pattern.Anchor.holds] using hstart, ?_, ?_, hrest, ?_, ?_,
    hgroup₂⟩
  · simpa using hmargin
  · simpa using hgap
  · have hall := (((htakes.trans htakes₂).trans htakes₃).trans htakes₄).trans htakes₅
    simpa only [List.append_assoc] using hall
  · rw [hgroup₁]
    simp [Cursor.group?, hcaptured]

/-- At the start of a line the text before is empty or ends a line. -/
theorem endsLine_of_head? {s : List Char} (before : List Char) (h : s.reverse ++ before = [] ∨
    (s.reverse ++ before).head? = some '\n') : s = [] ∨ Text.EndsLine s := by
  obtain rfl | ⟨lead, x, rfl⟩ := List.eq_nil_or_concat' s
  · exact .inl rfl
  · refine .inr ⟨lead, x, rfl, ?_⟩
    obtain h | h := h
    · simp at h
    · obtain rfl : x = '\n' := by simpa using h
      decide

/-- The end of a block: where it stands, and how it begins. -/
theorem exists_blockEnd {margin : List Char} {c last : Cursor}
    (h : ((blockEnd margin).ends c).head? = some last) :
    (c.before = [] ∨ c.before.head? = some '\n') ∧
      ∃ after, c.after = margin ++ "end".toList ++ after := by
  have hends : blockEnd margin = .seq (.anchor .lineStart) (.seq (.literal margin)
      (.seq (.literal "end".toList) (.anchor (.wordEdge false)))) := rfl
  rw [hends] at h
  obtain ⟨c₀, h₀, hmargin⟩ := Pattern.head?_ends_seq h
  obtain ⟨c₁, h₁, hword⟩ := Pattern.head?_ends_seq hmargin
  obtain ⟨c₂, h₂, -⟩ := Pattern.head?_ends_seq hword
  obtain ⟨rfl, hstart⟩ := Pattern.mem_ends_anchor.mp h₀
  obtain ⟨htakes₁, -⟩ := Pattern.mem_ends_literal h₁
  obtain ⟨htakes₂, -⟩ := Pattern.mem_ends_literal h₂
  exact ⟨by simpa [Pattern.Anchor.holds] using hstart, c₂.after, (htakes₁.trans htakes₂).after⟩

/-- What is taken out of a text is the clause of the header and the text inside the class. -/
theorem exists_cut_of_classIn? {name : String} {text : List Char} {c : ClassText}
    (h : classIn? name text = some c) :
    ∃ cut : ClassCut name text, c.superclass.toList = Text.trim (clauseOf cut.rest) ∧
      c.body.toList = Text.trimNewlines (Text.dedent cut.inner) := by
  simp only [classIn?, Option.bind_eq_bind, Option.bind_eq_some_iff, Option.pure_def,
    Option.some.injEq] at h
  obtain ⟨opening, hopening, closing, hclosing, rfl⟩ := h
  -- The header is found first. The block ends with the next line that has its margin.
  obtain ⟨before, text₁, rfl, hfirst, hlast⟩ := Pattern.searchIn_eq_some hopening
  obtain ⟨margin, gap, rest, hstart, hmargin, hgap, hrest, hheader, hgroup₁, hgroup₂⟩ :=
    exists_header hlast (by rw [hfirst])
  obtain ⟨inner, text₂, hinner, hfirst', hlast'⟩ := Pattern.searchIn_eq_some hclosing
  have hmatch : opening.group 1 = margin := by rw [Pattern.Match.group, hgroup₁, Option.getD_some]
  rw [hmatch] at hlast'
  obtain ⟨hstart', after, hafter⟩ := exists_blockEnd hlast'
  have htakes : opening.last.Takes inner closing.first := by
    rw [hfirst']
    exact ⟨hinner, rfl, rfl⟩
  -- Put together, the two matches and what is between them are the text.
  have htext : text₁ = (margin ++ "class".toList ++ gap ++ name.toList ++ rest ++ ['\n']) ++
      (inner ++ (margin ++ "end".toList ++ after)) := by
    have h₁ := hheader.after
    rw [hfirst] at h₁
    rw [← hafter, ← htakes.after]
    exact h₁
  refine ⟨⟨before, margin, gap, rest, inner, after, ?_, ?_, ?_, hmargin, hgap, hrest⟩, ?_, ?_⟩
  · rw [htext]
    simp only [List.append_assoc]
  · apply endsLine_of_head? []
    rwa [hfirst] at hstart
  · apply endsLine_of_head? opening.last.before
    rwa [hfirst'] at hstart'
  · rw [String.toList_ofList, Pattern.Match.group, hgroup₂]
  · rw [String.toList_ofList, htakes.textTo]

/-! ### What is kept of a superclass -/

/-- An expression stands on the line of a header as the superclass: after the first sign, with
nothing but blanks between. What stands before the sign is `lead`. -/
def IsSuperclass (rest lead expr : List Char) : Prop :=
  ∃ gap tail, rest = lead ++ '<' :: (gap ++ (expr ++ tail)) ∧ '<' ∉ lead ∧
    gap.all Text.isSpaceOrTab = true ∧ ∃ x ∈ expr.head?, Text.isSpaceOrTab x = false

theorem isBlank_eq_false_of_isConstantChar {x : Char} (h : isConstantChar x = true) :
    Text.isBlank x = false := by
  cases hblank : Text.isBlank x with
  | false => rfl
  | true =>
    rw [isConstantChar, Text.isWord_eq_false_of_isBlank hblank, Bool.false_or, beq_iff_eq] at h
    subst h
    exact absurd hblank (by decide)

theorem dropWhile_append_cons {p : Char → Bool} {s : List Char} (hs : s.all p = true) {x : Char}
    (hx : p x = false) (t : List Char) :
    (s ++ x :: t).takeWhile p = s ∧ (s ++ x :: t).dropWhile p = x :: t := by
  have hs' := List.all_eq_true.mp hs
  rw [List.takeWhile_append_of_pos hs', List.dropWhile_append_of_pos hs']
  simp [hx]

/-- Without anything before the sign, the clause ends where the constant does. -/
theorem clauseOf_of_blank {lead gap : List Char} (hlead : lead.all Text.isSpaceOrTab = true)
    (hgap : gap.all Text.isSpaceOrTab = true) {x : Char} (hx : Text.isSpaceOrTab x = false)
    (more : List Char) :
    clauseOf (lead ++ '<' :: (gap ++ x :: more)) = if isConstantChar x
      then lead ++ '<' :: (gap ++ (x :: more).takeWhile isConstantChar) else [] := by
  obtain ⟨htake, hdrop⟩ := dropWhile_append_cons hlead (x := '<') (by decide) (gap ++ x :: more)
  obtain ⟨htake', hdrop'⟩ := dropWhile_append_cons hgap hx more
  simp only [clauseOf, htake, hdrop, htake', hdrop']
  by_cases hconstant : isConstantChar x = true <;> simp [hconstant]

/-- With something before the sign there is no clause. -/
theorem clauseOf_of_not_blank {lead : List Char} (hlead : lead.all Text.isSpaceOrTab = false)
    (hsign : '<' ∉ lead) (more : List Char) : clauseOf (lead ++ more) = [] := by
  cases hrest : lead.dropWhile Text.isSpaceOrTab with
  | nil =>
    have hall := List.all_eq_true.mpr (List.dropWhile_eq_nil_iff.mp hrest)
    rw [hlead] at hall
    cases hall
  | cons y rest =>
    have hy : y ≠ '<' := by
      rintro rfl
      exact hsign ((List.dropWhile_suffix _).subset (hrest ▸ List.mem_cons_self))
    have hdrop : (lead ++ more).dropWhile Text.isSpaceOrTab = y :: (rest ++ more) := by
      rw [List.dropWhile_append, hrest]
      rfl
    simp [clauseOf, hdrop, hy]

/-- No blanks stand around a clause but those before the sign. -/
theorem trim_clause {lead gap constant : List Char} (hlead : lead.all Text.isSpaceOrTab = true)
    (hconstant : constant.all isConstantChar = true) (hne : constant ≠ []) :
    Text.trim (lead ++ '<' :: (gap ++ constant)) = '<' :: (gap ++ constant) := by
  have hblank : lead.all Text.isBlank = true := by
    rw [List.all_eq_true] at hlead ⊢
    exact fun x hx => (Text.isBlank_of_isSpaceOrTab (hlead x hx)).1
  obtain ⟨constant', y, rfl⟩ := (List.eq_nil_or_concat' constant).resolve_left hne
  have hy : Text.isBlank y = false :=
    isBlank_eq_false_of_isConstantChar (List.all_eq_true.mp hconstant y (by simp))
  rw [Text.trim_append_cons hblank (by decide)]
  simpa using Text.rdropWhile_append_cons hy ('<' :: (gap ++ constant')) []

/-- What starts with a character that the front does not have is found behind the front. -/
theorem infix_of_notMem {x : Char} {s back : List Char} (front : List Char) (hx : x ∉ front)
    (h : x :: s <:+: front ++ back) : x :: s <:+: back := by
  induction front with
  | nil => exact h
  | cons y front ih =>
    obtain hpre | hin := List.infix_cons_iff.mp h
    · obtain rfl := (List.cons_prefix_cons.mp hpre).1
      exact absurd List.mem_cons_self hx
    · exact ih (fun hmem => hx (List.mem_cons_of_mem _ hmem)) hin

/-- A superclass is found in the clause that is kept if and only if it is a plain constant with
nothing but blanks before the sign. -/
theorem superclass_kept_iff {rest lead expr : List Char} (h : IsSuperclass rest lead expr) :
    expr <:+: Text.trim (clauseOf rest) ↔
      lead.all Text.isSpaceOrTab = true ∧ expr.all isConstantChar = true := by
  obtain ⟨gap, tail, rfl, hsign, hgap, x, hx, hxblank⟩ := h
  obtain ⟨expr, rfl⟩ := List.head?_eq_some_iff.mp hx
  cases hlead : lead.all Text.isSpaceOrTab with
  | false => simp [clauseOf_of_not_blank hlead hsign]
  | true =>
    rw [List.cons_append, clauseOf_of_blank hlead hgap hxblank]
    cases hconstant : isConstantChar x with
    | false => simp [hconstant]
    | true =>
      rw [if_pos rfl, trim_clause hlead List.all_takeWhile (by simp [hconstant])]
      simp only [true_and]
      constructor
      -- The clause begins with the sign, which the first character of the superclass is not part of.
      · intro hinfix
        have hfront : x ∉ '<' :: gap := by
          intro hmem
          obtain rfl | hmem := List.mem_cons.mp hmem
          · exact absurd hconstant (by decide)
          · rw [List.all_eq_true.mp hgap x hmem] at hxblank
            cases hxblank
        have hfound := infix_of_notMem ('<' :: gap) hfront hinfix
        rw [List.all_eq_true]
        intro y hy
        exact List.all_eq_true.mp List.all_takeWhile y (hfound.subset hy)
      · intro hall
        have hpre : (x :: expr ++ tail).takeWhile isConstantChar =
            x :: expr ++ tail.takeWhile isConstantChar :=
          List.takeWhile_append_of_pos (List.all_eq_true.mp hall)
        rw [List.cons_append] at hpre
        rw [hpre]
        exact ⟨'<' :: gap, tail.takeWhile isConstantChar, by simp⟩

/-! ### The class in its new namespace -/

namespace Relocation

open Text (solidLines)

/-- The header of the class in its new namespace. -/
def newHeader (r : Relocation) (c : ClassText) : String :=
  "class " ++ r.newName ++ (if c.superclass.isEmpty then "" else " " ++ c.superclass)

/-- The modules that the class is put into. -/
def newModules (r : Relocation) : List String := (segments r.newConstant).dropLast

theorem solidLines_pad (depth : Nat) (line : String) :
    solidLines (pad depth ++ line).toList = solidLines line.toList := by
  rw [String.toList_append]
  apply Text.solidLines_margin
  simp [pad, Text.isSpaceOrTab]

/-- Nesting adds the lines of the modules and their ends. -/
theorem solidLines_nest (depth : Nat) (inner modules : List String) :
    (nest depth inner modules).flatMap (fun line => solidLines line.toList) =
      modules.flatMap (fun m => solidLines ("module " ++ m).toList) ++
        inner.flatMap (fun line => solidLines line.toList) ++
        List.replicate modules.length "end".toList := by
  induction modules generalizing depth with
  | nil =>
    rw [nest, List.flatMap_map]
    simp only [List.flatMap_nil, List.nil_append, List.length_nil, List.replicate_zero,
      List.append_nil]
    apply List.flatMap_congr
    intro line _
    split
    · rfl
    · exact solidLines_pad depth line
  | cons m modules ih =>
    have hend : solidLines (pad depth ++ "end").toList = ["end".toList] := by
      rw [solidLines_pad]
      decide
    rw [nest, List.flatMap_append, List.flatMap_cons, ih, List.flatMap_singleton, hend,
      String.append_assoc, solidLines_pad, List.flatMap_cons, List.length_cons,
      List.replicate_succ']
    simp only [List.append_assoc]

theorem solidLines_ofLines (lines : List String) :
    solidLines (ofLines lines).toList = lines.flatMap fun line => solidLines line.toList := by
  have hjoin : (ofLines lines).toList = Text.join ['\n'] (lines.map String.toList) ++ ['\n'] := by
    rw [ofLines, String.toList_append, Text.join_eq_intercalate]
    simp
  rw [hjoin, Text.solidLines_concat (by decide), Text.solidLines_join, List.flatMap_map]

/-- The lines of the body of the class, one level deeper. -/
def bodyLines (c : ClassText) : List String :=
  if c.body.isEmpty then [] else
    (Text.splitChar '\n' (Text.indent "  ".toList c.body.toList)).map String.ofList

theorem movedClass_eq (r : Relocation) (c : ClassText) :
    r.movedClass c = ofLines (nest 0 (r.newHeader c :: bodyLines c ++ ["end"]) r.newModules) :=
  rfl

theorem solidLines_bodyLines (c : ClassText) :
    (bodyLines c).flatMap (fun line => solidLines line.toList) = solidLines c.body.toList := by
  unfold bodyLines
  split
  · rename_i hempty
    have hnil : c.body.toList = [] := by simpa using hempty
    rw [hnil]
    rfl
  · rw [List.flatMap_map]
    simp only [String.toList_ofList]
    rw [Text.solidLines_splitChar, Text.solidLines_indent (by decide)]

/-- The lines of the class in its new namespace: those of the modules, its header, the lines of its
body and the ends. -/
theorem solidLines_movedClass (r : Relocation) (c : ClassText) :
    solidLines (r.movedClass c).toList =
      r.newModules.flatMap (fun m => solidLines ("module " ++ m).toList) ++
        (solidLines (r.newHeader c).toList ++ solidLines c.body.toList ++ ["end".toList]) ++
        List.replicate r.newModules.length "end".toList := by
  have hend : solidLines "end".toList = ["end".toList] := by decide
  rw [movedClass_eq, solidLines_ofLines, solidLines_nest, List.flatMap_append, List.flatMap_cons,
    List.flatMap_singleton, solidLines_bodyLines, hend]

end Relocation

end RailsUpgrade
