import RailsUpgrade.Proofs.Columns

/-!
# `RailsUpgrade.Proofs.ColumnRules`: references, columns of JSON and timestamps

The three patterns for columns, told as rewrites, and what their passes leave:

* `Expr.Decides`: a look ahead depends on what comes next only;
* `not_references_of_pass`, `not_jsonColumn_of_pass`: a pass leaves nothing to rewrite;
* `Blocked`: the rest of a line that keeps a reference from being rewritten. The pass for columns of
  JSON keeps it, and so makes no work for the one for references (`not_references_of_json`);
* `titled_timestamps`: giving timestamps a precision makes no new header.
-/

set_option autoImplicit false

namespace RailsUpgrade

open Pattern (Expr CharSet Match Pass Cursor Anchor mem_ends_seq mem_ends_alt mem_ends_star
  mem_ends_plus mem_ends_anchor mem_ends_literal canTake_seq canTake_alt canTake_plus canTake_star
  canTake_chars canTake_group canTake_literal)
open Gemfile (gapSet all_gapSet exists_of_notMem)
open Text (StartsBreak)

/-! ### Looking ahead -/

namespace Pattern

/-- Whether a pattern has an end depends on what comes next only, and it sets no groups. -/
structure Expr.Decides (p : Expr) (holds : List Char → Prop) : Prop where
  ends : ∀ c : Cursor, p.ends c ≠ [] ↔ holds c.after
  groups : ∀ c : Cursor, ∀ c' ∈ p.ends c, c'.groups = c.groups

theorem decides_literal (s : List Char) : (Expr.literal s).Decides (s <+: ·) where
  ends c := by
    rw [ends_literal]
    split <;> simp_all
  groups _ _ h := (mem_ends_literal h).2

theorem decides_single (x : Char) : (Expr.one (.single x)).Decides (·.head? = some x) where
  ends c := by
    rw [ends_single]
    split <;> simp_all
  groups c c' h := by
    rw [ends_single] at h
    split at h
    · rw [List.mem_singleton.mp h]
      rfl
    · cases h

theorem decides_lineEnd : (Expr.anchor .lineEnd).Decides StartsBreak where
  ends c := by
    have hholds : Anchor.lineEnd.holds c = true ↔ StartsBreak c.after := Gemfile.startsBreak_iff
    rw [← hholds, Expr.ends]
    split <;> simp_all
  groups c c' h := by rw [(mem_ends_anchor.mp h).1]

variable {p q : Expr} {holds holds' : List Char → Prop}

theorem Expr.Decides.alt (hp : p.Decides holds) (hq : q.Decides holds') :
    (Expr.alt p q).Decides fun s => holds s ∨ holds' s where
  ends c := by
    rw [Expr.ends, ← hp.ends c, ← hq.ends c]
    simp only [ne_eq, List.append_eq_nil_iff]
    exact Decidable.not_and_iff_or_not
  groups c c' h := (mem_ends_alt.mp h).elim (hp.groups c c') (hq.groups c c')

/-- Any number of characters of a set, and then a pattern. -/
theorem Expr.Decides.star_seq (hq : q.Decides holds) (set : CharSet) :
    (Expr.seq (.star set) q).Decides
      fun s => ∃ run rest, s = run ++ rest ∧ run.all set.mem = true ∧ holds rest where
  ends c := by
    constructor
    · intro hne
      obtain ⟨c', hc'⟩ := List.exists_mem_of_ne_nil _ hne
      obtain ⟨c₁, h₁, h₂⟩ := mem_ends_seq.mp hc'
      obtain ⟨run, hrun, htakes, -⟩ := mem_ends_star h₁
      exact ⟨run, c₁.after, htakes.after, hrun, (hq.ends c₁).mp (List.ne_nil_of_mem h₂)⟩
    · rintro ⟨run, rest, hafter, hrun, hrest⟩
      obtain ⟨c₁, h₁, htakes⟩ := canTake_star hrun c rfl hafter
      have hsame : c₁.after = rest := by
        have hsplit := htakes.after
        rw [hafter] at hsplit
        exact (List.append_cancel_left hsplit).symm
      obtain ⟨c', hc'⟩ := List.exists_mem_of_ne_nil _ ((hq.ends c₁).mpr (by rwa [hsame]))
      exact List.ne_nil_of_mem (mem_ends_seq.mpr ⟨c₁, h₁, hc'⟩)
  groups c c' h := by
    obtain ⟨c₁, h₁, h₂⟩ := mem_ends_seq.mp h
    obtain ⟨-, -, -, hgroups⟩ := mem_ends_star h₁
    rw [hq.groups c₁ c' h₂, hgroups]

/-- What must not come next. -/
theorem Expr.Decides.mem_ends_notAhead (hp : p.Decides holds) {c c' : Cursor} :
    c' ∈ (Expr.look 0 false p).ends c ↔ c' = c ∧ ¬ holds c.after := by
  rw [ends_notAhead, ← hp.ends c]
  split <;> simp_all

/-- What must come next. -/
theorem Expr.Decides.mem_ends_ahead (hp : p.Decides holds) {c c' : Cursor}
    (h : c' ∈ (Expr.look 0 true p).ends c) : c.Takes [] c' ∧ c'.texts = c.texts ∧ holds c.after := by
  rw [Expr.ends, show c.back? 0 = some c from rfl, Option.bind_some] at h
  cases hends : p.ends c with
  | nil => simp [hends] at h
  | cons r others =>
    have hgroups := hp.groups c r (by rw [hends]; exact List.mem_cons_self)
    have hholds := (hp.ends c).mp (by rw [hends]; simp)
    obtain rfl : c' = { c with groups := r.groups, entered := r.entered } := by
      simpa [hends] using h
    refine ⟨⟨rfl, rfl, rfl⟩, ?_, hholds⟩
    rw [Cursor.texts, hgroups, Cursor.texts]

theorem Expr.Decides.canTake_notAhead (hp : p.Decides holds) {before after : List Char}
    (h : ¬ holds after) : (Expr.look 0 false p).CanTake before [] after := by
  intro c _ hafter
  rw [List.nil_append] at hafter
  exact ⟨c, hp.mem_ends_notAhead.mpr ⟨rfl, by rwa [hafter]⟩, .refl c⟩

theorem Expr.Decides.canTake_ahead (hp : p.Decides holds) {before after : List Char}
    (h : holds after) : (Expr.look 0 true p).CanTake before [] after := by
  intro c _ hafter
  rw [List.nil_append] at hafter
  obtain ⟨r, others, hr⟩ := List.exists_cons_of_ne_nil ((hp.ends c).mpr (by rwa [hafter]))
  refine ⟨{ c with groups := r.groups, entered := r.entered }, ?_, ⟨rfl, rfl, rfl⟩⟩
  rw [Expr.ends, show c.back? 0 = some c from rfl, Option.bind_some, hr]
  simp

end Pattern

namespace Migration

/-! ### The name of a column -/

/-- The name of a column, as a group, and how the pattern goes on. -/
def callExpr (i : Nat) (e : Expr) : Expr :=
  .seq (.plus gapSet) (.chars ":" (.seq (.group i (.plus wordSet)) e))

theorem mem_ends_callExpr {i : Nat} {e : Expr} {c c' : Cursor} (h : c' ∈ (callExpr i e).ends c) :
    ∃ (call : Call) (mid : Cursor), c.Takes call.text mid ∧
      mid.texts = (i, call.name) :: c.texts ∧ c' ∈ e.ends mid := by
  obtain ⟨c₁, h₁, h⟩ := mem_ends_seq.mp h
  obtain ⟨gap, hgap, hgapNe, htakes₁, hgroups₁⟩ := mem_ends_plus h₁
  obtain ⟨c₂, htakes₂, htexts₂, h⟩ := mem_ends_chars_texts h
  obtain ⟨mid, h₃, h⟩ := mem_ends_seq.mp h
  obtain ⟨name, hname, hnameNe, htakes₃, htexts₃⟩ := mem_ends_group_plus h₃
  rw [all_gapSet] at hgap
  rw [all_wordSet] at hname
  have hcolon : ":".toList = [':'] := by decide
  rw [hcolon] at htakes₂
  refine ⟨⟨gap, name, hgap, hgapNe, hname, hnameNe⟩, mid, htakes₁.trans (htakes₂.trans htakes₃), ?_, h⟩
  rw [htexts₃, htexts₂, texts_of_groups hgroups₁]

theorem canTake_call {i : Nat} {e : Expr} (call : Call) {before after : List Char}
    (h : e.CanTake (call.text.reverse ++ before) [] after) :
    (callExpr i e).CanTake before call.text after := by
  have hcolon : ":".toList = [':'] := by decide
  have htext : call.text = call.gap ++ (":".toList ++ (call.name ++ [])) := by
    simp [Call.text, hcolon]
  rw [htext] at h ⊢
  refine canTake_seq (canTake_plus ?_ call.gap_ne) (canTake_chars (canTake_seq (canTake_group
    (canTake_plus ?_ call.name_ne)) ?_))
  · rw [all_gapSet, call.gap_blank]
  · rw [all_wordSet, call.name_word]
  · simpa using h

/-! ### References -/

/-- What a line must not have behind a reference that is rewritten. -/
def keywords : List (List Char) := ["foreign_key".toList, "polymorphic".toList]

/-- A line goes on with one of the keywords. -/
def Blocked (s : List Char) : Prop :=
  ∃ run rest, s = run ++ rest ∧ '\n' ∉ run ∧ ∃ k ∈ keywords, k <+: rest

/-- References get a foreign key. -/
def referenceHelper : Helper where
  words := [("references".toList, "references".toList), ("belongs_to".toList, "belongs_to".toList)]
  option := " foreign_key: tru".toList
  last := 'e'
  words_word := by decide
  words_class := by
    simp only [List.forall_mem_cons]
    exact ⟨Header.tails_class (by decide), Header.tails_class (by decide), List.forall_mem_nil _⟩
  option_plain := by
    simp only [List.forall_mem_cons]
    exact ⟨by decide, by decide, by decide, List.forall_mem_nil _⟩
  last_plain := by decide

def referenceRule : Rewrite := referenceHelper.rule fun after => ¬ Blocked after

def blockedExpr : Expr :=
  .seq (.star lineSet) (.alt (.literal "foreign_key".toList) (.literal "polymorphic".toList))

theorem references_expr : references.expr = .chars "t." (.seq (.group 1 (.alt
    (.literal "references".toList) (.literal "belongs_to".toList))) (callExpr 2
      (.look 0 false blockedExpr))) :=
  Pattern.expr_fixed String.toList_ofList (by decide)

theorem all_lineSet (s : List Char) : s.all lineSet.mem = true ↔ '\n' ∉ s := by
  rw [List.all_eq_true]
  constructor
  · intro h hmem
    simpa using h _ hmem
  · intro h x hx
    rw [mem_lineSet, bne_iff_ne]
    rintro rfl
    exact h hx

theorem decides_blockedExpr : blockedExpr.Decides Blocked := by
  have hdecides := ((Pattern.decides_literal "foreign_key".toList).alt
    (Pattern.decides_literal "polymorphic".toList)).star_seq lineSet
  refine ⟨fun c => (hdecides.ends c).trans ?_, hdecides.groups⟩
  simp only [all_lineSet, Blocked, keywords, List.mem_cons, List.not_mem_nil, or_false,
    exists_eq_or_imp, exists_eq_left]

/-- The text that is put in place of a reference. -/
def keyed (m : Match) : List Char :=
  "t.".toList ++ m.group 1 ++ " :".toList ++ m.group 2 ++ ", foreign_key: true".toList

theorem swaps_references : references.expr.Swaps keyed referenceRule.swap where
  sound := by
    intro before after pos c hc
    rw [references_expr] at hc
    obtain ⟨c₁, htakes₁, htexts₁, hc⟩ := mem_ends_chars_texts (List.mem_of_head? hc)
    obtain ⟨c₂, h₂, hc⟩ := mem_ends_seq.mp hc
    obtain ⟨word, htakes₂, hreads⟩ := Pattern.reads_of_mem_ends _ h₂
    obtain ⟨call, c₃, htakes₃, htexts₃, hc⟩ := mem_ends_callExpr hc
    obtain ⟨rfl, hfree⟩ := decides_blockedExpr.mem_ends_notAhead.mp hc
    obtain ⟨groups, hliteral, htexts₂⟩ := hreads
    -- Both words are read by alternatives of literals.
    obtain ⟨hword, rfl⟩ : (word, word) ∈ referenceHelper.words ∧ groups = c₁.texts := by
      rcases hliteral with hliteral | hliteral
      all_goals
        obtain ⟨rfl, rfl⟩ := Pattern.reads_literal.mp hliteral
        exact ⟨by decide, rfl⟩
    have htexts : c.texts = [(2, call.name), (1, word)] := by
      rw [htexts₃, htexts₂, htexts₁]
      rfl
    have hgroup : ∀ i, (⟨{ before, after, pos }, c⟩ : Match).group i =
        (List.lookup i [(2, call.name), (1, word)]).getD [] := by
      intro i
      rw [Match.group, ← Cursor.lookup_texts, htexts]
    have hdot : "t.".toList = ['t', '.'] := by decide
    have hcolon : " :".toList = [' ', ':'] := by decide
    have hadded : ", foreign_key: true".toList = referenceHelper.added := by decide
    -- What was captured are the word and the name of the call.
    refine ⟨'t' :: '.' :: (word ++ call.text), by simp, ?_, word ++ call.text, _, rfl, ?_, (word, word),
      hword, call, hfree, rfl, rfl⟩
    · rw [hdot] at htakes₁
      exact htakes₁.trans (htakes₂.trans htakes₃)
    · unfold keyed
      rw [hgroup, hgroup, hdot, hcolon, hadded]
      generalize referenceHelper.added = added
      simp [List.lookup_cons]
  complete := by
    rintro before _ after _ pos ⟨_, _, rfl, -, w, hw, call, hfree, rfl, -⟩
    have hdot : "t.".toList = ['t', '.'] := by decide
    -- Conversely each word is one of the alternatives.
    have hword : ∀ before after, (Expr.group 1 (.alt (.literal "references".toList)
        (.literal "belongs_to".toList))).CanTake before w.1 after := by
      intro before after
      have hcases : w.1 = "references".toList ∨ w.1 = "belongs_to".toList := by
        rcases List.mem_cons.mp hw with rfl | hw
        · exact .inl rfl
        · rw [List.mem_singleton.mp hw]
          exact .inr rfl
      refine canTake_group (canTake_alt ?_)
      rcases hcases with hword | hword
      · rw [hword]
        exact .inl canTake_literal
      · rw [hword]
        exact .inr canTake_literal
    have htake : references.expr.CanTake before ("t.".toList ++ (w.1 ++ call.text)) after := by
      rw [references_expr]
      exact canTake_chars (canTake_seq (hword _ _)
        (canTake_call call (decides_blockedExpr.canTake_notAhead hfree)))
    obtain ⟨c, hc, -⟩ := htake { before, after := 't' :: '.' :: (w.1 ++ call.text) ++ after, pos } rfl
      (by rw [hdot]; rfl)
    exact List.ne_nil_of_mem hc

/-! ### Columns of JSON -/

/-- A column ends at the end of its line, or at a comma. -/
def EndsColumn (s : List Char) : Prop :=
  (∃ run rest, s = run ++ rest ∧ run.all Text.isSpaceOrTab = true ∧ StartsBreak rest) ∨
    ∃ run rest, s = run ++ rest ∧ run.all Text.isBlank = true ∧ rest.head? = some ','

/-- Columns of JSON become binary and get a default. -/
def jsonHelper : Helper where
  words := [("json".toList, "jsonb".toList)]
  option := " default: \x7b".toList
  last := '\x7d'
  words_word := by decide
  words_class := by
    simp only [List.forall_mem_cons]
    exact ⟨Header.tails_class (by decide), List.forall_mem_nil _⟩
  option_plain := by
    simp only [List.forall_mem_cons]
    exact ⟨by decide, by decide, by decide, List.forall_mem_nil _⟩
  last_plain := by decide

def jsonRule : Rewrite := jsonHelper.rule EndsColumn

def columnEndExpr : Expr :=
  .alt (.seq (.star blankSet) (.anchor .lineEnd)) (.seq (.star gapSet) (.one (.single ',')))

theorem jsonColumn_expr :
    jsonColumn.expr = .chars "t.json" (callExpr 1 (.look 0 true columnEndExpr)) :=
  Pattern.expr_fixed String.toList_ofList (by decide)

theorem decides_columnEndExpr : columnEndExpr.Decides EndsColumn := by
  have hdecides := (Pattern.decides_lineEnd.star_seq blankSet).alt
    ((Pattern.decides_single ',').star_seq gapSet)
  rw [show blankSet.mem = Text.isSpaceOrTab from funext mem_blankSet,
    show gapSet.mem = Text.isBlank from funext Gemfile.mem_gapSet] at hdecides
  exact hdecides

/-- The text that is put in place of a column of JSON. -/
def binary (m : Match) : List Char :=
  "t.jsonb :".toList ++ m.group 1 ++ ", default: \x7b\x7d".toList

theorem swaps_jsonColumn : jsonColumn.expr.Swaps binary jsonRule.swap where
  sound := by
    intro before after pos c hc
    rw [jsonColumn_expr] at hc
    obtain ⟨c₁, htakes₁, htexts₁, hc⟩ := mem_ends_chars_texts (List.mem_of_head? hc)
    obtain ⟨call, c₂, htakes₂, htexts₂, hc⟩ := mem_ends_callExpr hc
    obtain ⟨htakes₃, htexts₃, hend⟩ := decides_columnEndExpr.mem_ends_ahead hc
    -- What was captured is the name of the call.
    have hgroup : (⟨{ before, after, pos }, c⟩ : Match).group 1 = call.name := by
      rw [Match.group, ← Cursor.lookup_texts, htexts₃, htexts₂]
      rfl
    have hjson : "t.json".toList = 't' :: '.' :: "json".toList := by decide
    have hjsonb : "t.jsonb :".toList = 't' :: '.' :: ("jsonb".toList ++ [' ', ':']) := by decide
    have hadded : ", default: \x7b\x7d".toList = jsonHelper.added := by decide
    have hafter : c₂.after = c.after := htakes₃.after
    rw [hafter] at hend
    refine ⟨'t' :: '.' :: ("json".toList ++ call.text), by simp, ?_, _, _, rfl, ?_,
      ("json".toList, "jsonb".toList), List.mem_singleton_self _, call, hend, rfl, rfl⟩
    · have htakes := htakes₁.trans (htakes₂.trans htakes₃)
      rwa [List.append_nil, hjson] at htakes
    · unfold binary
      rw [hgroup, hjsonb, hadded]
      generalize jsonHelper.added = added
      generalize "jsonb".toList = word
      simp
  complete := by
    rintro before _ after _ pos ⟨_, _, rfl, -, w, hw, call, hend, rfl, -⟩
    obtain rfl := List.mem_singleton.mp hw
    have hjson : "t.json".toList = 't' :: '.' :: "json".toList := by decide
    have htake : jsonColumn.expr.CanTake before ("t.json".toList ++ call.text) after := by
      rw [jsonColumn_expr]
      exact canTake_chars (canTake_call call (decides_columnEndExpr.canTake_ahead hend))
    obtain ⟨c, hc, -⟩ := htake
      { before, after := 't' :: '.' :: ("json".toList ++ call.text) ++ after, pos } rfl
      (by rw [hjson]; rfl)
    exact List.ne_nil_of_mem hc

/-! ### What is left over -/

/-- Nothing is left to rewrite. -/
def Helper.Done (helper : Helper) (admits : List Char → Prop) (text : List Char) : Prop :=
  ∀ lead rest (call : Call), ∀ w ∈ helper.words,
    text = lead ++ ('t' :: '.' :: (w.1 ++ call.text) ++ rest) → ¬ admits rest

theorem Helper.Done.eq_self {helper : Helper} {admits : List Char → Prop} {text result : List Char}
    (h : helper.Done admits text) (hpass : Pass (helper.rule admits).swap [] text result) :
    result = text := by
  refine hpass.eq_self ?_
  rintro lead _ after _ htext ⟨_, _, rfl, -, w, hw, call, hadmits, rfl, -⟩
  exact absurd hadmits (h lead after call w hw htext)

theorem Helper.dot_notMem (helper : Helper) {w : List Char × List Char} (hw : w ∈ helper.words)
    (call : Call) : '.' ∉ w.1 ++ call.text := by
  simp only [Call.text, List.mem_append, List.mem_cons, not_or]
  exact ⟨notMem_of_word (helper.words_word w hw).1 (by decide), notMem_of_blank call.gap_blank (by decide),
    by decide, notMem_of_word call.name_word (by decide)⟩

/-- What the pass of one helper leaves for another one, or for itself. -/
theorem Helper.done_of_pass {helper helper' : Helper} {admits admits' : List Char → Prop}
    {text result : List Char}
    (hback : ∀ old after new more before x, helper.rule admits old after new →
      Pass (helper.rule admits).swap before after more → admits' (x ++ '.' :: (new ++ more)) →
      admits' (x ++ '.' :: (old ++ after)))
    (hstart : ∀ old after new more rest (call : Call), ∀ w ∈ helper'.words,
      helper.rule admits old after new → new ++ more = (w.1 ++ call.text) ++ rest → ¬ admits' rest)
    (hpass : Pass (helper.rule admits).swap [] text result)
    (hkept : ∀ lead rest (call : Call), ∀ w ∈ helper'.words,
      text = lead ++ ('t' :: '.' :: (w.1 ++ call.text) ++ rest) → admits' rest →
      ∃ taken after new, 't' :: '.' :: (w.1 ++ call.text) ++ rest = taken ++ after ∧
        (helper.rule admits).swap lead.reverse taken after new) : helper'.Done admits' result := by
  intro lead rest call w hw hresult hrest
  have hdot := helper'.dot_notMem hw call
  refine Rewrite.origin (P := admits') (List.cons_ne_nil 't' ('.' :: (w.1 ++ call.text))) ?_ hback
    hpass ?_ ?_ hresult hrest
  -- A call holds no dot but the first, so no other call begins inside of it.
  · intro a b heq
    match a with
    | [] => rfl
    | [_] => exact absurd (List.cons_eq_cons.mp (List.cons_eq_cons.mp heq).2).1 (by decide)
    | _ :: _ :: a =>
      have htail : w.1 ++ call.text = a ++ 't' :: '.' :: b :=
        (List.cons_eq_cons.mp (List.cons_eq_cons.mp heq).2).2
      exact absurd (by rw [htail]; simp) hdot
  · intro lead rest htext hrest hidle
    obtain ⟨taken, after, new, hsplit, hswap⟩ := hkept lead rest call w hw htext hrest
    exact hidle taken after new hsplit (by simpa using hswap)
  -- A call that begins in what was put in begins with it.
  · intro before old after new more lead part rest hrule _ _ hpart hne heq hrest
    by_cases hlead : lead = []
    · subst hlead
      rw [List.nil_append] at hpart
      rw [← hpart] at heq
      obtain ⟨-, heq⟩ := List.cons_eq_cons.mp heq
      obtain ⟨-, heq⟩ := List.cons_eq_cons.mp heq
      exact hstart old after new more rest call w hw hrule heq hrest
    · exact absurd heq (Helper.not_dotted hrule hpart hlead hne)

/-! ### Blocked lines -/

theorem keywords_plain : ∀ k ∈ keywords, k.all Text.isWord = true ∧ 'r' ∈ k ∧ 't' ∉ k := by
  decide

theorem ne_nil_of_mem_keywords {k : List Char} (hk : k ∈ keywords) : k ≠ [] :=
  List.ne_nil_of_mem (keywords_plain k hk).2.1

theorem Blocked.append_right {s : List Char} (h : Blocked s) (t : List Char) : Blocked (s ++ t) := by
  obtain ⟨run, rest, rfl, hrun, k, hk, hrest⟩ := h
  exact ⟨run, rest ++ t, by rw [List.append_assoc], hrun, k, hk, hrest.trans (List.prefix_append _ _)⟩

theorem Blocked.append_left {t : List Char} (h : Blocked t) {s : List Char} (hs : '\n' ∉ s) :
    Blocked (s ++ t) := by
  obtain ⟨run, rest, rfl, hrun, k, hk, hrest⟩ := h
  exact ⟨s ++ run, rest, by rw [List.append_assoc], by simp [hs, hrun], k, hk, hrest⟩

/-- A keyword stands in front of a text that does not begin with a word character, or in it. -/
theorem Blocked.cases {s t : List Char} (h : Blocked (s ++ t)) (ht : t.head?.any Text.isWord = false) :
    Blocked s ∨ ('\n' ∉ s ∧ Blocked t) := by
  obtain ⟨run, rest, hsplit, hrun, k, hk, tail, rfl⟩ := h
  rcases List.append_eq_append_iff.mp hsplit with ⟨mid, rfl, hmid⟩ | ⟨mid, hs, hmid⟩
  · rw [List.mem_append, not_or] at hrun
    exact .inr ⟨hrun.1, mid, k ++ tail, hmid, hrun.2, k, hk, List.prefix_append _ _⟩
  · -- The keyword begins in the first part, so it ends there.
    rcases List.append_eq_append_iff.mp hmid with ⟨rest, hrest, -⟩ | ⟨rest, hkey, ht'⟩
    · exact .inl ⟨run, mid, hs, hrun, k, hk, rest, hrest.symm⟩
    · cases rest with
      | nil =>
        rw [List.append_nil] at hkey
        exact .inl ⟨run, mid, hs, hrun, k, hk, by rw [hkey]⟩
      | cons y rest =>
        rw [ht'] at ht
        have hy := List.all_eq_true.mp (keywords_plain k hk).1 y (by rw [hkey]; simp)
        have hy' : Text.isWord y = false := ht
        rw [hy] at hy'
        cases hy'

theorem Blocked.cases_cons {s t : List Char} {x : Char} (h : Blocked (s ++ x :: t))
    (hx : Text.isWord x = false) : Blocked s ∨ ('\n' ∉ s ∧ Blocked t) := by
  refine (h.cases hx).imp_right fun ⟨hs, run, rest, hsplit, hrun, k, hk, hrest⟩ => ⟨hs, ?_⟩
  cases run with
  | nil =>
    obtain ⟨tail, rfl⟩ := hrest
    obtain ⟨y, key, hkey⟩ := List.exists_cons_of_ne_nil (ne_nil_of_mem_keywords hk)
    rw [hkey] at hsplit
    obtain ⟨rfl, -⟩ := List.cons_eq_cons.mp hsplit
    have hword := List.all_eq_true.mp (keywords_plain k hk).1 x (by rw [hkey]; simp)
    rw [hx] at hword
    cases hword
  | cons y run =>
    obtain ⟨rfl, ht⟩ := List.cons_eq_cons.mp hsplit
    exact ⟨run, rest, ht, fun hmem => hrun (List.mem_cons_of_mem _ hmem), k, hk, hrest⟩

theorem Blocked.keyword_mem {s : List Char} (h : Blocked s) : 'r' ∈ s := by
  obtain ⟨run, rest, rfl, -, k, hk, tail, rfl⟩ := h
  simp [(keywords_plain k hk).2.1]

/-! ### What the passes leave -/

theorem break_notMem_put (name word : List Char) (hname : name.all Text.isWord = true)
    (hword : word.all Text.isWord = true) : '\n' ∉ word ++ ' ' :: ':' :: name := by
  simp only [List.mem_append, List.mem_cons, not_or]
  exact ⟨Helper.notMem_of_word hword (by decide), by decide, by decide,
    Helper.notMem_of_word hname (by decide)⟩

/-- The foreign key that is added blocks the line. -/
theorem blocked_added (more : List Char) : Blocked (referenceHelper.added ++ more) := by
  have hadded : ∃ k ∈ keywords, ∃ rest, referenceHelper.added = [',', ' '] ++ (k ++ rest) :=
    ⟨"foreign_key".toList, by decide, ": true".toList, by decide⟩
  obtain ⟨k, hk, rest, hadded⟩ := hadded
  rw [hadded]
  exact ⟨[',', ' '], k ++ (rest ++ more), by simp, by decide, k, hk, List.prefix_append _ _⟩

/-- The pass for references leaves none to rewrite. -/
theorem not_references_of_pass {text result : List Char} (h : Pass referenceRule.swap [] text result) :
    referenceHelper.Done (fun s => ¬ Blocked s) result := by
  refine Helper.done_of_pass ?_ ?_ h ?_
  · rintro old after _ more before x ⟨w, hw, call, -, -, rfl⟩ - hfree hblocked
    refine hfree ?_
    rcases hblocked.cases_cons (by decide) with hx | ⟨hx, -⟩
    · exact hx.append_right _
    · have hput := break_notMem_put call.name w.2 call.name_word (referenceHelper.words_word w hw).2
      have hsplit : x ++ '.' :: (w.2 ++ ' ' :: ':' :: (call.name ++ referenceHelper.added) ++ more) =
          (x ++ '.' :: (w.2 ++ ' ' :: ':' :: call.name)) ++ (referenceHelper.added ++ more) := by
        simp
      rw [hsplit]
      refine (blocked_added more).append_left ?_
      rw [List.mem_append, List.mem_cons, not_or, not_or]
      exact ⟨hx, by decide, hput⟩
  · rintro old after _ more rest call w hw ⟨w', hw', call', -, -, rfl⟩ heq hfree
    refine hfree ?_
    -- What is found ends in front of the comma.
    have hcomma : ',' ∉ w.1 ++ call.text := by
      simp only [Call.text, List.mem_append, List.mem_cons, not_or]
      exact ⟨Helper.notMem_of_word (referenceHelper.words_word w hw).1 (by decide),
        Helper.notMem_of_blank call.gap_blank (by decide), by decide,
        Helper.notMem_of_word call.name_word (by decide)⟩
    have hput := break_notMem_put call'.name w'.2 call'.name_word (referenceHelper.words_word w' hw').2
    have hsplit : (w.1 ++ call.text) ++ rest = (w'.2 ++ ' ' :: ':' :: call'.name) ++
        ',' :: (referenceHelper.option ++ [referenceHelper.last] ++ more) := by
      rw [← heq]
      simp [Helper.added]
    obtain ⟨part, hpart, rfl⟩ := exists_of_notMem hcomma hsplit
    refine Blocked.append_left (t := referenceHelper.added ++ more) (blocked_added more) fun hmem => ?_
    exact hput (by rw [hpart]; exact List.mem_append_right _ hmem)
  · intro lead rest call w hw _ hfree
    exact ⟨_, rest, _, rfl, _, _, rfl, rfl, w, hw, call, hfree, rfl, rfl⟩

theorem EndsColumn.append {x s : List Char} (h : EndsColumn (x ++ '.' :: s)) (t : List Char) :
    EndsColumn (x ++ t) := by
  have hblank : ∀ {s : List Char}, s.all Text.isSpaceOrTab = true → '.' ∉ s := fun hs hmem =>
    absurd (List.all_eq_true.mp hs _ hmem) (by decide)
  rcases h with ⟨run, rest, hsplit, hrun, hrest⟩ | ⟨run, rest, hsplit, hrun, hrest⟩
  · obtain ⟨part, rfl, rfl⟩ := exists_of_notMem (hblank hrun) hsplit.symm
    cases part with
    | nil =>
      rcases hrest with hnil | ⟨rest, hbreak⟩
      · cases hnil
      · exact absurd (List.cons_eq_cons.mp hbreak).1 (by decide)
    | cons y part =>
      rcases hrest with hnil | ⟨rest, hbreak⟩
      · cases hnil
      · obtain ⟨rfl, -⟩ := List.cons_eq_cons.mp hbreak
        exact .inl ⟨run, '\n' :: (part ++ t), by simp, hrun, .inr ⟨_, rfl⟩⟩
  · obtain ⟨part, rfl, rfl⟩ := exists_of_notMem (Helper.notMem_of_blank hrun (by decide)) hsplit.symm
    cases part with
    | nil => exact absurd (Option.some.inj hrest) (by decide)
    | cons y part =>
      obtain rfl : y = ',' := Option.some.inj hrest
      exact .inr ⟨run, ',' :: (part ++ t), by simp, hrun, rfl⟩

/-- The pass for columns of JSON leaves none to rewrite. -/
theorem not_jsonColumn_of_pass {text result : List Char} (h : Pass jsonRule.swap [] text result) :
    jsonHelper.Done EndsColumn result := by
  refine Helper.done_of_pass (fun _ _ _ _ _ _ _ _ hend => hend.append _) ?_ h ?_
  · rintro old after _ more rest call w hw ⟨w', hw', call', -, -, rfl⟩ heq -
    obtain rfl := List.mem_singleton.mp hw
    obtain rfl := List.mem_singleton.mp hw'
    have hjsonb : "jsonb".toList = "json".toList ++ ['b'] := by decide
    obtain ⟨y, gap, hgap⟩ := List.exists_cons_of_ne_nil call.gap_ne
    simp only [hjsonb, Call.text, hgap, List.append_assoc] at heq
    obtain ⟨rfl, -⟩ := List.cons_eq_cons.mp (List.append_cancel_left heq)
    exact Helper.notMem_of_blank call.gap_blank (x := 'b') (by decide) (by rw [hgap]; simp)
  · intro lead rest call w hw _ hend
    exact ⟨_, rest, _, rfl, _, _, rfl, rfl, w, hw, call, hend, rfl, rfl⟩

theorem EndsColumn.head? {s : List Char} (h : EndsColumn s) : s.head?.any Text.isWord = false := by
  have hgo : ∀ {run rest : List Char}, run.all Text.isBlank = true →
      rest.head?.any Text.isWord = false → (run ++ rest).head?.any Text.isWord = false := by
    intro run rest hrun hrest
    by_cases hne : run = []
    · rw [hne]
      exact hrest
    · exact head?_of_all hrun hne (fun _ => Text.isWord_eq_false_of_isBlank) _
  rcases h with ⟨run, rest, rfl, hrun, hrest⟩ | ⟨run, rest, rfl, hrun, hrest⟩
  · refine hgo ?_ ?_
    · exact List.all_eq_true.mpr fun x hx =>
        (Text.isBlank_of_isSpaceOrTab (List.all_eq_true.mp hrun x hx)).1
    · rcases hrest with rfl | ⟨rest, rfl⟩
      · rfl
      · rfl
  · refine hgo hrun ?_
    rw [hrest]
    rfl

/-- A column of JSON hides no keyword. -/
theorem blocked_of_json {old after new more : List Char} (hrule : jsonRule old after new)
    (hmore : Blocked after → Blocked more) (h : Blocked (old ++ after)) : Blocked (new ++ more) := by
  obtain ⟨w, hw, call, hend, rfl, rfl⟩ := hrule
  obtain rfl := List.mem_singleton.mp hw
  have hfront : ¬ Blocked ("json".toList ++ call.gap) := fun hblocked => by
    have hmem := hblocked.keyword_mem
    rw [List.mem_append] at hmem
    exact hmem.elim (by decide) (Helper.notMem_of_blank call.gap_blank (by decide))
  have hsplit : ("json".toList ++ call.text) ++ after =
      ("json".toList ++ call.gap) ++ ':' :: (call.name ++ after) := by simp [Call.text]
  rw [hsplit] at h
  obtain ⟨-, hblocked⟩ := (h.cases_cons (by decide)).resolve_left hfront
  have hput : "jsonb".toList ++ ' ' :: ':' :: (call.name ++ jsonHelper.added) ++ more =
      ("jsonb".toList ++ [' ', ':']) ++ (call.name ++ (jsonHelper.added ++ more)) := by simp
  rw [hput]
  refine Blocked.append_left ?_ (by decide)
  rcases hblocked.cases hend.head? with hname | ⟨-, hafter⟩
  · exact hname.append_right _
  · refine ((hmore hafter).append_left (by decide)).append_left ?_
    exact Helper.notMem_of_word call.name_word (by decide)

/-- The pass for columns of JSON keeps a line blocked. -/
theorem Blocked.pass_json {before text result : List Char} (hpass : Pass jsonRule.swap before text result)
    (h : Blocked text) : Blocked result := by
  induction hpass with
  | done before => exact h
  | @keep before text result x idle hmore ih =>
    obtain ⟨run, rest, hsplit, hrun, k, hk, tail, rfl⟩ := h
    cases run with
    | nil =>
      -- No column begins in a keyword.
      have hwhole := Pass.keep idle hmore
      rw [hsplit, List.nil_append] at hwhole
      obtain ⟨more, hresult, -⟩ := hwhole.skip fun lead part taken after new hpart hne htaken hswap => by
        obtain ⟨_, _, rfl, -, -⟩ := hswap
        obtain ⟨y, part, rfl⟩ := List.exists_cons_of_ne_nil hne
        obtain ⟨rfl, -⟩ := List.cons_eq_cons.mp htaken
        exact (keywords_plain k hk).2.2 (by rw [hpart]; simp)
      exact ⟨[], _, hresult, by simp, k, hk, List.prefix_append _ _⟩
    | cons y run =>
      obtain ⟨rfl, hrest⟩ := List.cons_eq_cons.mp hsplit
      rw [List.mem_cons, not_or] at hrun
      refine Blocked.append_left (s := [x]) (ih ⟨run, _, hrest, hrun.2, k, hk, List.prefix_append _ _⟩) ?_
      simpa using hrun.1
  | @hit before taken after new result hne hswap hmore ih =>
    obtain ⟨old, new, rfl, rfl, hrule⟩ := hswap
    rcases Blocked.cases_cons (s := ['t']) (x := '.') h (by decide) with hcontra | ⟨-, hblocked⟩
    · exact absurd hcontra.keyword_mem (by decide)
    · exact (blocked_of_json hrule ih hblocked).append_left (s := ['t', '.']) (by decide)

/-- The pass for columns of JSON leaves no reference to rewrite if there was none before. -/
theorem not_references_of_json {text result : List Char} (h : Pass jsonRule.swap [] text result)
    (hdone : referenceHelper.Done (fun s => ¬ Blocked s) text) :
    referenceHelper.Done (fun s => ¬ Blocked s) result := by
  refine Helper.done_of_pass ?_ ?_ h ?_
  · intro old after new more before x hrule hpass hfree hblocked
    refine hfree ?_
    rcases hblocked.cases_cons (by decide) with hx | ⟨hx, hold⟩
    · exact hx.append_right _
    · refine (Blocked.append_left (s := ['.']) ?_ (by decide)).append_left hx
      exact blocked_of_json hrule (Blocked.pass_json hpass) hold
  · rintro old after _ more rest call w hw ⟨w', hw', call', -, -, rfl⟩ heq -
    obtain rfl := List.mem_singleton.mp hw'
    have hjsonb : "jsonb".toList = 'j' :: "sonb".toList := by decide
    have hhead : ∀ w ∈ referenceHelper.words, ∃ y word, w.1 = y :: word ∧ y ≠ 'j' := by
      intro w hw
      rcases List.mem_cons.mp hw with rfl | hw
      · exact ⟨'r', "eferences".toList, by decide, by decide⟩
      · rw [List.mem_singleton.mp hw]
        exact ⟨'b', "elongs_to".toList, by decide, by decide⟩
    obtain ⟨y, word, hword, hy⟩ := hhead w hw
    rw [hword, hjsonb] at heq
    exact hy (List.cons_eq_cons.mp heq).1.symm
  · intro lead rest call w hw htext hfree
    exact absurd hfree (hdone lead rest call w hw htext)

end Migration

end RailsUpgrade
