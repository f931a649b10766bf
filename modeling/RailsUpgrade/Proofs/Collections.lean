import RailsUpgrade.Proofs.StockSwaps

/-!
# `RailsUpgrade.Proofs.Collections`: names that are asked for their presence

The repair that leaves out blank members looks at the whole text: only names that are used like a
collection somewhere are changed. A second run looks at the text that the first one has made, and
finds no new uses there.

* `Continues`, `found_collectionUse_iff`: how a text goes on behind a name that is used so;
* `word_cases`: a pass keeps a word, up to the name in front of a question that it has answered;
* `used_of_pass`: a use in the result was there before;
* `presence_settles`: the second run changes nothing.
-/

set_option autoImplicit false

namespace RailsUpgrade.Catalogue

open Pattern (Expr Cursor Pass Meets Settling framed noChar mem_ends_seq mem_ends_anchor
  mem_ends_literal mem_ends_star canTake_seq canTake_alt canTake_star found_of_canTake
  suffix_append_cases not_meets_suffix canTake_literal)

/-! ### Uses of a collection -/

/-- How a text goes on behind a name that is used like a collection. -/
def Continues (rest : List Char) : Prop :=
  (∃ gap more, gap.all Text.isBlank = true ∧ rest = gap ++ ("<<".toList ++ more)) ∨
    (∃ method ∈ ["each".toList, "map".toList], ∃ more, more.head?.any Text.isWord = false ∧
      rest = '.' :: (method ++ more)) ∨
    ∃ more, rest = '[' :: more

theorem Continues.head {rest : List Char} (h : Continues rest) :
    rest.head?.any Text.isWord = false ∧ rest.head? ≠ some '(' ∧ rest.head? ≠ some '?' := by
  rcases h with ⟨gap, more, hgap, rfl⟩ | ⟨method, -, more, -, rfl⟩ | ⟨more, rfl⟩
  · cases gap with
    | nil => exact ⟨show Text.isWord '<' = false by decide, by simp, by simp⟩
    | cons x gap =>
      have hx : Text.isBlank x = true := List.all_eq_true.mp hgap x List.mem_cons_self
      refine ⟨Text.isWord_eq_false_of_isBlank hx, ?_, ?_⟩
      all_goals
        rintro ⟨⟩
        exact absurd hx (by decide)
  · exact ⟨show Text.isWord '.' = false by decide, by simp, by simp⟩
  · exact ⟨show Text.isWord '[' = false by decide, by simp, by simp⟩

/-- Behind a dot only the two methods are uses. -/
theorem Continues.dot {rest : List Char} (h : Continues ('.' :: rest)) :
    rest.head? = some 'e' ∨ rest.head? = some 'm' := by
  rcases h with ⟨gap, more, hgap, heq⟩ | ⟨method, hmethod, more, -, heq⟩ | ⟨more, heq⟩
  · cases gap with
    | nil => exact absurd (List.cons_eq_cons.mp heq).1 (by decide)
    | cons x gap =>
      have hx : Text.isBlank x = true := List.all_eq_true.mp hgap x List.mem_cons_self
      rw [← (List.cons_eq_cons.mp heq).1] at hx
      exact absurd hx (by decide)
  · obtain rfl := (List.cons_eq_cons.mp heq).2
    obtain rfl | rfl : method = "each".toList ∨ method = "map".toList := by simpa using hmethod
    · exact .inl rfl
    · exact .inr rfl
  · exact absurd (List.cons_eq_cons.mp heq).1 (by decide)

section

variable {name : List Char}

theorem head?_word_append (hne : name ≠ []) (hname : name.all Text.isWord = true) (t : List Char) :
    (name ++ t).head?.any Text.isWord = true := by
  obtain ⟨x, name, rfl⟩ := List.exists_cons_of_ne_nil hne
  exact List.all_eq_true.mp hname x List.mem_cons_self

/-- A name with an edge in front, and how the pattern goes on behind it. -/
def namedExpr (name : List Char) (e : Expr) : Expr :=
  .seq (.anchor (.wordEdge false)) (.seq (.literal name) e)

/-- A method with an edge behind it. -/
def methodExpr (method : String) : Expr :=
  .seq (.literal method.toList) (.anchor (.wordEdge false))

theorem collectionUse_eq (name : List Char) :
    collectionUse name = .alt (namedExpr name (.seq (.star blanks) (.literal "<<".toList)))
      (.alt (namedExpr name (methodExpr ".each")) (.alt (namedExpr name (methodExpr ".map"))
        (namedExpr name (.literal "[".toList)))) := rfl

theorem mem_ends_namedExpr {e : Expr} {c c' : Cursor} (hne : name ≠ [])
    (hname : name.all Text.isWord = true) (h : c' ∈ (namedExpr name e).ends c) :
    c.before.head?.any Text.isWord = false ∧ ∃ mid, c.Takes name mid ∧ c' ∈ e.ends mid := by
  obtain ⟨hedge, h⟩ := mem_ends_seq_anchor.mp h
  obtain ⟨mid, hmid, h⟩ := mem_ends_seq.mp h
  have htakes := (mem_ends_literal hmid).1
  refine ⟨before_of_wordEdge hedge ?_, mid, htakes, h⟩
  rw [htakes.after]
  exact head?_word_append hne hname _

theorem canTake_namedExpr {e : Expr} {before s after : List Char} (hne : name ≠ [])
    (hname : name.all Text.isWord = true) (hbefore : before.head?.any Text.isWord = false)
    (he : e.CanTake (name.reverse ++ before) s after) :
    (namedExpr name e).CanTake before (name ++ s) after := by
  refine canTake_seq (s := []) (canTake_wordStart hbefore ?_) (canTake_seq canTake_literal he)
  show ((name ++ s) ++ after).head?.any Text.isWord = true
  rw [List.append_assoc]
  exact head?_word_append hne hname _

theorem mem_ends_methodExpr {method : String} {c c' : Cursor}
    (hlast : method.toList.reverse.head?.any Text.isWord = true)
    (h : c' ∈ (methodExpr method).ends c) :
    ∃ more, more.head?.any Text.isWord = false ∧ c.after = method.toList ++ more := by
  obtain ⟨mid, hmid, h⟩ := mem_ends_seq.mp h
  have htakes := (mem_ends_literal hmid).1
  refine ⟨mid.after, after_of_wordEdge (mem_ends_anchor.mp h).2 ?_, htakes.after⟩
  rw [htakes.before]
  exact any_head_append hlast _

theorem canTake_methodExpr {method : String} {before after : List Char}
    (hlast : method.toList.reverse.head?.any Text.isWord = true)
    (hafter : after.head?.any Text.isWord = false) :
    (methodExpr method).CanTake before method.toList after := by
  rw [← List.append_nil method.toList]
  refine canTake_seq ?_ (canTake_wordEnd (any_head_append hlast _) hafter)
  exact canTake_literal

/-- A name is found to be used where no word character stands in front of it and the text goes on
like that. -/
theorem found_collectionUse_iff (hne : name ≠ []) (hname : name.all Text.isWord = true)
    (text : List Char) : (collectionUse name).found text = true ↔ ∃ lead rest,
      text = lead ++ (name ++ rest) ∧ lead.reverse.head?.any Text.isWord = false ∧ Continues rest := by
  rw [collectionUse_eq]
  constructor
  · intro hfound
    obtain ⟨lead, rest, c, rfl, hc⟩ := Pattern.exists_ends_of_found hfound
    -- The three ways of using a collection differ in what stands behind its name.
    obtain ⟨e, hend, hcontinues⟩ : ∃ e : Expr, c ∈ (namedExpr name e).ends
        { before := lead.reverse, after := rest, pos := lead.length } ∧
        ∀ mid, c ∈ e.ends mid → Continues mid.after := by
      simp only [Pattern.mem_ends_alt] at hc
      rcases hc with hc | hc | hc | hc
      · refine ⟨_, hc, fun mid h => .inl ?_⟩
        obtain ⟨mid', hmid', h⟩ := mem_ends_seq.mp h
        obtain ⟨gap, hgap, hgapTakes, -⟩ := mem_ends_star hmid'
        rw [all_blanks_eq] at hgap
        exact ⟨gap, _, hgap, by rw [hgapTakes.after, (mem_ends_literal h).1.after]⟩
      · refine ⟨_, hc, fun mid h => .inr (.inl ?_)⟩
        obtain ⟨more, hmore, hafter⟩ := mem_ends_methodExpr (by decide) h
        exact ⟨_, List.mem_cons_self, more, hmore, hafter⟩
      · refine ⟨_, hc, fun mid h => .inr (.inl ?_)⟩
        obtain ⟨more, hmore, hafter⟩ := mem_ends_methodExpr (by decide) h
        exact ⟨_, List.mem_cons_of_mem _ List.mem_cons_self, more, hmore, hafter⟩
      · exact ⟨_, hc, fun mid h => .inr (.inr ⟨_, (mem_ends_literal h).1.after⟩)⟩
    obtain ⟨hedge, mid, htakes, hmid⟩ := mem_ends_namedExpr hne hname hend
    exact ⟨lead, mid.after, congrArg (lead ++ ·) htakes.after, hedge, hcontinues mid hmid⟩
  · rintro ⟨lead, rest, rfl, hedge, hrest⟩
    have hfound : ∀ {s after : List Char}, rest = s ++ after →
        (collectionUse name).CanTake lead.reverse (name ++ s) after →
        (collectionUse name).found (lead ++ (name ++ rest)) = true := by
      intro s after hsplit htake
      rw [hsplit, ← List.append_assoc name]
      exact found_of_canTake htake
    rw [← collectionUse_eq]
    -- Each way is the name with one of the alternatives behind it.
    rcases hrest with ⟨gap, more, hgap, rfl⟩ | ⟨method, hmethod, more, hmore, rfl⟩ | ⟨more, rfl⟩
    · rw [← all_blanks_eq] at hgap
      refine hfound (List.append_assoc _ _ _).symm (canTake_alt (.inl ?_))
      exact canTake_namedExpr hne hname hedge (canTake_seq (canTake_star hgap) canTake_literal)
    · obtain rfl | rfl : method = "each".toList ∨ method = "map".toList := by simpa using hmethod
      · refine hfound (s := ".each".toList) rfl (canTake_alt (.inr (canTake_alt (.inl ?_))))
        exact canTake_namedExpr hne hname hedge (canTake_methodExpr (by decide) hmore)
      · refine hfound (s := ".map".toList) rfl
          (canTake_alt (.inr (canTake_alt (.inr (canTake_alt (.inl ?_))))))
        exact canTake_namedExpr hne hname hedge (canTake_methodExpr (by decide) hmore)
    · refine hfound (s := "[".toList) rfl
        (canTake_alt (.inr (canTake_alt (.inr (canTake_alt (.inr ?_))))))
      exact canTake_namedExpr hne hname hedge canTake_literal

end

/-! ### What a pass keeps of words -/

/-- What stands behind the name in an answer: the answer proper, or the question that was left. -/
def Answer (gap z : List Char) : Prop :=
  z = "reject(&:blank?).present?".toList ∨ z = "present?".toList ++ gap

section

variable {used used' : List Char → Bool} {before before' text result taken new : List Char}

/-- Question and answer begin with the name and a dot. -/
theorem Asked.cases (h : Asked used taken new) : ∃ name gap z, name ≠ [] ∧
    name.all Text.isWord = true ∧ gap.all Text.isSpaceOrTab = true ∧ Answer gap z ∧
      taken = name ++ (".present?".toList ++ gap) ∧ new = name ++ '.' :: z := by
  obtain ⟨name, gap, hne, hname, hgap, rfl, rfl⟩ := h
  by_cases hused : used name = true
  · exact ⟨name, gap, _, hne, hname, hgap, .inl rfl, rfl, if_pos hused⟩
  · exact ⟨name, gap, _, hne, hname, hgap, .inr rfl, rfl, if_neg hused⟩

/-- Question and answer begin with the same word character. -/
theorem Asked.heads (h : Asked used taken new) (q : Char → Bool) :
    new ≠ [] ∧ taken.head?.any q = new.head?.any q := by
  obtain ⟨name, gap, z, hne, -, -, -, rfl, rfl⟩ := h.cases
  obtain ⟨x, name, rfl⟩ := List.exists_cons_of_ne_nil hne
  exact ⟨by simp, rfl⟩

/-- No answer begins in a text without word characters. -/
theorem Asked.not_meets (h : Asked used taken new) {s tail : List Char}
    (hs : ∀ x ∈ s, Text.isWord x = false) (htail : tail <:+ s) (hne : tail ≠ []) :
    ¬ Meets tail new := by
  obtain ⟨name, gap, z, hnameNe, hname, -, -, -, rfl⟩ := h.cases
  obtain ⟨x, name, rfl⟩ := List.exists_cons_of_ne_nil hnameNe
  refine not_meets_suffix (fun hmem => ?_) htail hne
  have hx := List.all_eq_true.mp hname x List.mem_cons_self
  rw [hs x hmem] at hx
  cases hx

/-- A margin has no word characters. -/
theorem isWord_of_mem_margin {gap : List Char} (hgap : gap.all Text.isSpaceOrTab = true) :
    ∀ x ∈ gap, Text.isWord x = false := fun x hx =>
  Text.isWord_eq_false_of_isBlank
    (Text.isBlank_of_isSpaceOrTab (List.all_eq_true.mp hgap x hx)).1

theorem head?_notWord {x : Char} (hx : Text.isWord x = false) (rest : List Char) :
    (x :: rest).head?.any Text.isWord = false := hx

/-- A pass keeps a word, or the word ends in a name that was asked for. -/
theorem word_cases {word rest : List Char}
    (h : Pass (framed noChar onLine (Asked used)) before text (word ++ rest))
    (hword : word.all Text.isWord = true) (hrest : rest.head?.any Text.isWord = false) :
    (∃ rest', text = word ++ rest' ∧
      Pass (framed noChar onLine (Asked used)) (word.reverse ++ before) rest' rest) ∨
    ∃ gap after z more, gap.all Text.isSpaceOrTab = true ∧ after.head?.any onLine = false ∧
      Answer gap z ∧ text = word ++ (".present?".toList ++ (gap ++ after)) ∧
      rest = '.' :: (z ++ more) := by
  induction word generalizing before text with
  | nil => exact .inl ⟨text, rfl, h⟩
  | cons x word ih =>
    generalize hresult : (x :: word) ++ rest = result at h
    cases h with
    | done => cases hresult
    | keep _ hmore =>
      obtain ⟨rfl, rfl⟩ := List.cons_eq_cons.mp hresult
      rw [List.all_cons, Bool.and_eq_true] at hword
      rcases ih hmore hword.2 with ⟨rest', rfl, hpass⟩ | ⟨gap, after, z, more, hgap, hafter, hz, rfl, hr⟩
      · exact .inl ⟨rest', rfl, by simpa using hpass⟩
      · exact .inr ⟨gap, after, z, more, hgap, hafter, hz, rfl, hr⟩
    | @hit _ _ after _ more _ hswap _ =>
      obtain ⟨name, gap, z, hne, hname, hgap, hz, rfl, rfl⟩ := hswap.1.cases
      rw [List.append_assoc] at hresult
      obtain ⟨rfl, rfl⟩ := Text.span_unique hword hname hrest (head?_notWord (by decide) _) hresult
      exact .inr ⟨gap, after, z, more, hgap, hswap.2.2, hz, by simp, rfl⟩

/-- An answered question was one before, if it begins in a word that was kept. -/
theorem question_of_pass {word gap after : List Char}
    (h : Pass (framed noChar onLine (Asked used)) before text
      (word ++ (".present?".toList ++ (gap ++ after))))
    (hword : word.all Text.isWord = true) (hgap : gap.all Text.isSpaceOrTab = true)
    (hafter : after.head?.any onLine = false) :
    ∃ gap' after', gap'.all Text.isSpaceOrTab = true ∧ after'.head?.any onLine = false ∧
      text = word ++ (".present?".toList ++ (gap' ++ after')) := by
  rcases word_cases h hword (head?_notWord (x := '.') (by decide) _) with
    ⟨rest, rfl, hdot⟩ | ⟨gap', after', -, -, hgap', hafter', -, rfl, -⟩
  · -- The question itself was kept as well: its word does not end in a name.
    obtain ⟨rest, rfl, hpresent⟩ := Pass.of_append (s := ['.']) hdot fun _ _ _ _ hswap tail =>
      hswap.1.not_meets (List.forall_mem_singleton.mpr (by decide))
    have hpresent' : Pass _ _ rest ("present".toList ++ '?' :: (gap ++ after)) := hpresent
    rcases word_cases hpresent' (by decide) (head?_notWord (by decide) _) with
      ⟨rest, rfl, hmark⟩ | ⟨_, _, _, _, -, -, -, -, hend⟩
    · have hquestion : ∀ x ∈ '?' :: gap, Text.isWord x = false := by
        intro x hx
        rcases List.mem_cons.mp hx with rfl | hx
        · decide
        · exact isWord_of_mem_margin hgap x hx
      obtain ⟨after', rfl, hpass⟩ := Pass.of_append (s := '?' :: gap) hmark fun _ _ _ _ hswap tail =>
        hswap.1.not_meets hquestion
      refine ⟨gap, after', hgap, ?_, rfl⟩
      rw [hpass.any_head fun _ _ _ _ hswap => hswap.1.heads onLine, hafter]
    · exact absurd (List.cons_eq_cons.mp hend).1 (by decide)
  · exact ⟨gap', after', hgap', hafter', rfl⟩

/-- A use behind a name that was kept was there before. -/
theorem continues_of_pass {rest : List Char}
    (h : Pass (framed noChar onLine (Asked used)) before text rest) (hrest : Continues rest) :
    Continues text := by
  rcases hrest with ⟨gap, more, hgap, rfl⟩ | ⟨method, hmethod, more, hmore, rfl⟩ | ⟨more, rfl⟩
  · have hnot : ∀ x ∈ gap ++ "<<".toList, Text.isWord x = false := by
      intro x hx
      rcases List.mem_append.mp hx with hx | hx
      · exact Text.isWord_eq_false_of_isBlank (List.all_eq_true.mp hgap x hx)
      · obtain rfl : x = '<' := by simpa using hx
        decide
    rw [← List.append_assoc] at h
    obtain ⟨more', rfl, -⟩ := h.of_append fun _ _ _ _ hswap tail => hswap.1.not_meets hnot
    exact .inl ⟨gap, more', hgap, List.append_assoc _ _ _⟩
  · obtain ⟨rest, rfl, hpass⟩ := Pass.of_append (s := ['.']) h fun _ _ _ _ hswap tail =>
      hswap.1.not_meets (List.forall_mem_singleton.mpr (by decide))
    have hword : ∀ method ∈ ["each".toList, "map".toList], method.all Text.isWord = true := by
      decide
    rcases word_cases hpass (hword method hmethod) hmore with
      ⟨more', rfl, hbehind⟩ | ⟨gap, after, -, -, -, -, -, rfl, -⟩
    · refine .inr (.inl ⟨method, hmethod, more', ?_, rfl⟩)
      rw [hbehind.any_head fun _ _ _ _ hswap => hswap.1.heads Text.isWord, hmore]
    · exact .inr (.inl ⟨method, hmethod, _, head?_notWord (x := '.') (by decide) _, rfl⟩)
  · obtain ⟨more', rfl, -⟩ := Pass.of_append (s := ['[']) h fun _ _ _ _ hswap tail =>
      hswap.1.not_meets (List.forall_mem_singleton.mpr (by decide))
    exact .inr (.inr ⟨more', rfl⟩)

/-! ### Words in an answer -/

/-- Behind every word of a text, wherever one begins to read it, stands a bracket or a question
mark. -/
def Quiet (s : List Char) : Prop :=
  ∀ tail, tail <:+ s → tail.head?.any Text.isWord = true →
    (tail.dropWhile Text.isWord).head? = some '(' ∨ (tail.dropWhile Text.isWord).head? = some '?'

theorem quiet_of_tails {s : List Char} (h : ∀ tail ∈ s.tails, tail.head?.any Text.isWord = true →
    (tail.dropWhile Text.isWord).head? = some '(' ∨ (tail.dropWhile Text.isWord).head? = some '?') :
    Quiet s := fun tail htail => h tail ((List.mem_tails _ _).mpr htail)

theorem Quiet.append {s gap : List Char} (h : Quiet s) (hgap : ∀ x ∈ gap, Text.isWord x = false) :
    Quiet (s ++ gap) := by
  intro tail htail hword
  rcases suffix_append_cases htail with hin | ⟨u, hu, hne, rfl⟩
  · cases tail with
    | nil => cases hword
    | cons x tail =>
      have hx : Text.isWord x = true := hword
      rw [hgap x (hin.subset List.mem_cons_self)] at hx
      cases hx
  · have hhead : u.head?.any Text.isWord = true := by
      obtain ⟨x, u, rfl⟩ := List.exists_cons_of_ne_nil hne
      exact hword
    -- The word ends in front of the gap.
    have hsome := h u hu hhead
    have hdrop : (u ++ gap).dropWhile Text.isWord = u.dropWhile Text.isWord ++ gap := by
      rw [List.dropWhile_append, if_neg]
      intro hempty
      rw [List.isEmpty_iff.mp hempty] at hsome
      simp at hsome
    rw [hdrop]
    cases hrest : u.dropWhile Text.isWord with
    | nil =>
      rw [hrest] at hsome
      simp at hsome
    | cons y rest =>
      rw [hrest] at hsome
      exact hsome

/-- What an answer has behind its name is quiet. -/
theorem Answer.quiet {gap z : List Char} (h : Answer gap z)
    (hgap : gap.all Text.isSpaceOrTab = true) : Quiet ('.' :: z) := by
  rcases h with rfl | rfl
  · exact quiet_of_tails (by decide)
  · have hquestion : Quiet ".present?".toList := quiet_of_tails (by decide)
    exact hquestion.append (isWord_of_mem_margin hgap)

/-- A name that begins in a quiet text is followed by a bracket or a question mark. -/
theorem Quiet.name {s tail more name rest : List Char} (h : Quiet s) (htail : tail <:+ s)
    (htailNe : tail ≠ []) (hne : name ≠ []) (hname : name.all Text.isWord = true)
    (hrest : rest.head?.any Text.isWord = false) (heq : tail ++ more = name ++ rest) :
    rest.head? = some '(' ∨ rest.head? = some '?' := by
  have hhead : tail.head?.any Text.isWord = true := by
    rw [← Settling.any_head_append htailNe more, heq]
    exact head?_word_append hne hname rest
  have hsome := h tail htail hhead
  have hsplit : tail.takeWhile Text.isWord ++ (tail.dropWhile Text.isWord ++ more) = name ++ rest := by
    rw [← List.append_assoc, List.takeWhile_append_dropWhile, heq]
  -- The word at the end of the part would go on in what follows, so what stops it is in the part.
  cases hbehind : tail.dropWhile Text.isWord with
  | nil =>
    rw [hbehind] at hsome
    simp at hsome
  | cons y behind =>
    rw [hbehind] at hsome hsplit
    have hy : Text.isWord y = false := by
      rcases hsome with hsome | hsome
      · rw [Option.some.inj hsome]
        decide
      · rw [Option.some.inj hsome]
        decide
    have hall : (tail.takeWhile Text.isWord).all Text.isWord = true :=
      List.all_eq_true.mpr fun x hx => List.mem_takeWhile_imp hx
    obtain ⟨-, rfl⟩ := Text.span_unique hall hname (head?_notWord hy _) hrest hsplit
    exact hsome

/-- A name that begins in an answer is the end of the name asked for, or something is called or asked
for behind it. -/
theorem name_in_answer {asked z tail more name rest : List Char} (hasked : asked.all Text.isWord = true)
    (hquiet : Quiet ('.' :: z)) (htail : tail <:+ asked ++ '.' :: z) (htailNe : tail ≠ [])
    (hne : name ≠ []) (hname : name.all Text.isWord = true)
    (hrest : rest.head?.any Text.isWord = false) (heq : tail ++ more = name ++ rest) :
    rest.head? = some '(' ∨ rest.head? = some '?' ∨ rest = '.' :: (z ++ more) := by
  rcases suffix_append_cases htail with hin | ⟨u, hu, -, rfl⟩
  · exact (hquiet.name hin htailNe hne hname hrest heq).imp_right .inl
  · have hword : u.all Text.isWord = true :=
      List.all_eq_true.mpr fun x hx => List.all_eq_true.mp hasked x (hu.subset hx)
    rw [List.append_assoc] at heq
    obtain ⟨rfl, rfl⟩ := Text.span_unique hword hname (head?_notWord (x := '.') (by decide) _) hrest heq
    exact .inr (.inr rfl)

/-- An answer is no use of its name. -/
theorem Answer.not_continues {gap z : List Char} (h : Answer gap z) (more : List Char) :
    ¬ Continues ('.' :: (z ++ more)) := fun hcontinues => by
  rcases h with rfl | rfl
  · rcases hcontinues.dot with hhead | hhead
    · exact absurd (Option.some.inj hhead) (by decide)
    · exact absurd (Option.some.inj hhead) (by decide)
  · rcases hcontinues.dot with hhead | hhead
    · exact absurd (Option.some.inj hhead) (by decide)
    · exact absurd (Option.some.inj hhead) (by decide)

/-! ### Uses in the result -/

/-- Behind a question and its answer no word goes on. -/
theorem Asked.lasts (h : Asked used taken new) (before before' : List Char) :
    (taken.reverse ++ before).head?.any Text.isWord = false ∧
      (new.reverse ++ before').head?.any Text.isWord = false := by
  have hmark : ∀ (s : List Char) {gap : List Char} (before : List Char),
      gap.all Text.isSpaceOrTab = true →
      ((s ++ '?' :: gap).reverse ++ before).head?.any Text.isWord = false := by
    intro s gap before hgap
    rcases List.eq_nil_or_concat' gap with rfl | ⟨gap, x, rfl⟩
    · simpa using show Text.isWord '?' = false by decide
    · simpa using isWord_of_mem_margin hgap x (by simp)
  obtain ⟨name, gap, z, -, -, hgap, hz, rfl, rfl⟩ := h.cases
  have htaken : name ++ (".present?".toList ++ gap) = (name ++ ".present".toList) ++ '?' :: gap := by
    simp
  refine ⟨by rw [htaken]; exact hmark _ _ hgap, ?_⟩
  rcases hz with rfl | rfl
  · have hnew : name ++ '.' :: "reject(&:blank?).present?".toList =
        (name ++ ".reject(&:blank?).present".toList) ++ '?' :: [] := by simp
    rw [hnew]
    exact hmark _ _ rfl
  · exact htaken ▸ hmark _ _ hgap

/-- A use in the result was there before. -/
theorem used_of_pass {name lead rest : List Char} (hne : name ≠ [])
    (hname : name.all Text.isWord = true)
    (h : Pass (framed noChar onLine (Asked used)) before text result)
    (hbefore : before.head?.any Text.isWord = before'.head?.any Text.isWord)
    (heq : result = lead ++ (name ++ rest))
    (hedge : (lead.reverse ++ before').head?.any Text.isWord = false) (hrest : Continues rest) :
    ∃ lead₀ rest₀, text = lead₀ ++ (name ++ rest₀) ∧
      (lead₀.reverse ++ before).head?.any Text.isWord = false ∧ Continues rest₀ := by
  induction h generalizing before' lead with
  | done => simp [hne] at heq
  | @keep before more result x _ hmore ih =>
    cases lead with
    | nil =>
      obtain ⟨y, name, rfl⟩ := List.exists_cons_of_ne_nil hne
      obtain ⟨rfl, rfl⟩ := List.cons_eq_cons.mp heq
      rw [List.all_cons, Bool.and_eq_true] at hname
      rcases word_cases hmore hname.2 hrest.head.1 with
        ⟨rest₀, rfl, hbehind⟩ | ⟨gap, -, z, more', -, -, hz, -, rfl⟩
      · exact ⟨[], rest₀, rfl, hbefore.trans hedge, continues_of_pass hbehind hrest⟩
      · exact absurd hrest (hz.not_continues more')
    | cons y lead =>
      obtain ⟨rfl, rfl⟩ := List.cons_eq_cons.mp heq
      obtain ⟨lead₀, rest₀, rfl, hedge₀, hrest₀⟩ := ih
        (show (x :: before).head?.any Text.isWord = (x :: before').head?.any Text.isWord from rfl) rfl
        (by simpa using hedge)
      exact ⟨x :: lead₀, rest₀, rfl, by simpa using hedge₀, hrest₀⟩
  | @hit before taken after new more _ hswap _ ih =>
    rcases List.append_eq_append_iff.mp heq with ⟨lead', rfl, hmore⟩ | ⟨tail, hnew, htail⟩
    · -- The use stands behind the answer.
      obtain ⟨hlast, hlast'⟩ := hswap.1.lasts before before'
      obtain ⟨lead₀, rest₀, rfl, hedge₀, hrest₀⟩ := ih (hlast.trans hlast'.symm) hmore
        (by simpa using hedge)
      exact ⟨taken ++ lead₀, rest₀, by simp, by simpa using hedge₀, hrest₀⟩
    · by_cases htailNe : tail = []
      · -- It stands right behind the answer.
        subst htailNe
        rw [List.append_nil] at hnew
        obtain ⟨hlast, hlast'⟩ := hswap.1.lasts before before'
        obtain ⟨lead₀, rest₀, rfl, hedge₀, hrest₀⟩ := ih (hlast.trans hlast'.symm)
          (show more = [] ++ (name ++ rest) from htail.symm) (by simpa [← hnew] using hlast')
        exact ⟨taken ++ lead₀, rest₀, by simp, by simpa using hedge₀, hrest₀⟩
      · -- No use begins in the answer.
        obtain ⟨hword, hcall, hquestion⟩ := hrest.head
        obtain ⟨asked, gap, z, -, hasked, hgap, hz, -, rfl⟩ := hswap.1.cases
        rcases name_in_answer hasked (hz.quiet hgap) ⟨lead, hnew.symm⟩ htailNe hne hname hword htail.symm
          with hhead | hhead | rfl
        · exact absurd hhead hcall
        · exact absurd hhead hquestion
        · exact absurd hrest (hz.not_continues more)

/-! ### The second run -/

/-- Two questions at one place are the same. -/
theorem question_unique {name name' gap gap' after after' : List Char}
    (hname : name.all Text.isWord = true) (hname' : name'.all Text.isWord = true)
    (hgap : gap.all Text.isSpaceOrTab = true) (hgap' : gap'.all Text.isSpaceOrTab = true)
    (hafter : after.head?.any onLine = false) (hafter' : after'.head?.any onLine = false)
    (h : name ++ (".present?".toList ++ (gap ++ after)) =
      name' ++ (".present?".toList ++ (gap' ++ after'))) : name = name' ∧ gap = gap' ∧ after = after' := by
  have hstop : ∀ {s : List Char}, s.head?.any onLine = false →
      s.head?.any Text.isSpaceOrTab = false := by
    intro s hs
    cases s with
    | nil => rfl
    | cons x s =>
      obtain rfl : x = '\n' := by simpa [onLine] using hs
      exact show Text.isSpaceOrTab '\n' = false by decide
  obtain ⟨rfl, hrest⟩ := Text.span_unique hname hname' (head?_notWord (x := '.') (by decide) _)
    (head?_notWord (x := '.') (by decide) _) h
  have hrest' : ".present?".toList ++ (gap ++ after) = ".present?".toList ++ (gap' ++ after') := hrest
  obtain ⟨rfl, rfl⟩ := Text.span_unique hgap hgap' (hstop hafter) (hstop hafter')
    (List.append_cancel_left hrest')
  exact ⟨rfl, rfl, rfl⟩

/-- A second pass goes over an answer, if the names that it counts as used are among those that the
first one did. -/
theorem pass_over_answer (hused : ∀ name, name ≠ [] → name.all Text.isWord = true →
      used' name = true → used name = true) {after more result' : List Char}
    (hasked : Asked used taken new) (hafter : after.head?.any onLine = false)
    (hpass : Pass (framed noChar onLine (Asked used)) before after more)
    (hagain : Pass (framed noChar onLine (Asked used')) before' (new ++ more) result') :
    ∃ more', result' = new ++ more' ∧
      Pass (framed noChar onLine (Asked used')) (new.reverse ++ before') more more' := by
  have hmore : more.head?.any onLine = false := by
    rw [← hpass.any_head fun _ _ _ _ hswap => hswap.1.heads onLine, hafter]
  obtain ⟨name, gap, hne, hname, hgap, rfl, hnew⟩ := hasked
  by_cases hname_used : used name = true
  · -- The name was answered for. Nothing is asked in the answer.
    rw [if_pos hname_used] at hnew
    subst hnew
    refine hagain.skip fun lead tail taken' after' new' hsplit htailNe htext hswap => ?_
    obtain ⟨name', gap', hne', hname', -, rfl, -⟩ := hswap.1
    rw [List.append_assoc] at htext
    have hanswer : Answer gap "reject(&:blank?).present?".toList := .inl rfl
    have hquiet := hanswer.quiet hgap
    rcases name_in_answer hname hquiet ⟨lead, hsplit.symm⟩ htailNe hne' hname'
        (head?_notWord (x := '.') (by decide) _) htext with hhead | hhead | hrest
    · exact absurd (Option.some.inj hhead) (by decide)
    · exact absurd (Option.some.inj hhead) (by decide)
    · exact absurd (show some 'p' = some 'r' from congrArg (·.tail.head?) hrest) (by decide)
  · -- The question was left, and is left again.
    rw [if_neg hname_used] at hnew
    subst hnew
    have hname_used' : ¬ used' name = true := fun h => hname_used (hused name hne hname h)
    generalize htext : (name ++ (".present?".toList ++ gap)) ++ more = text at hagain
    cases hagain with
    | done => simp [hne] at htext
    | keep idle _ =>
      exact absurd ⟨⟨name, gap, hne, hname, hgap, rfl, rfl⟩, by simp, hmore⟩ (idle _ _ _ htext.symm)
    | hit _ swapped hrest =>
      obtain ⟨⟨name', gap', -, hname', hgap', rfl, rfl⟩, -, hafter'⟩ := swapped
      simp only [List.append_assoc] at htext
      obtain ⟨rfl, rfl, rfl⟩ := question_unique hname hname' hgap hgap' hmore hafter' htext
      rw [if_neg hname_used']
      exact ⟨_, rfl, hrest⟩

/-- Asking for the presence of names twice changes nothing the second time. -/
theorem presence_settles (text : List Char) :
    presenceRepair.apply (presenceRepair.apply text) = presenceRepair.apply text := by
  have hpass := Pattern.pass_replaceAll (swaps_presence text) text
  have hagain := Pattern.pass_replaceAll (swaps_presence (presenceRepair.apply text))
    (presenceRepair.apply text)
  -- What is a collection in the new text has been one in the old text.
  have hused : ∀ name, name ≠ [] → name.all Text.isWord = true →
      (collectionUse name).found (presenceRepair.apply text) = true →
      (collectionUse name).found text = true := by
    intro name hne hname hfound
    rw [found_collectionUse_iff hne hname] at hfound ⊢
    obtain ⟨lead, rest, heq, hedge, hrest⟩ := hfound
    obtain ⟨lead₀, rest₀, htext, hedge₀, hrest₀⟩ := used_of_pass hne hname hpass
      (show ([] : List Char).head?.any Text.isWord = ([] : List Char).head?.any Text.isWord from rfl)
      heq (by simpa using hedge) hrest
    exact ⟨lead₀, rest₀, htext, by simpa using hedge₀, hrest₀⟩
  -- So a question that was left alone is left alone again, and one that was answered is none.
  refine Pass.settles (fun _ _ => True) (fun _ _ _ _ => trivial) ?_ ?_ hpass trivial hagain
  · intro before before' rest more x _ hmore hidle taken after new heq hswap
    obtain ⟨⟨name, gap, hne, hname, hgap, rfl, -⟩, -, hafter⟩ := hswap
    obtain ⟨y, name, rfl⟩ := List.exists_cons_of_ne_nil hne
    simp only [List.cons_append, List.append_assoc] at heq
    obtain ⟨rfl, rfl⟩ := List.cons_eq_cons.mp heq
    rw [List.all_cons, Bool.and_eq_true] at hname
    obtain ⟨gap', after', hgap', hafter', rfl⟩ := question_of_pass hmore hname.2 hgap hafter
    refine hidle (x :: name ++ (".present?".toList ++ gap')) after' _ (by simp)
      ⟨⟨x :: name, gap', hne, ?_, hgap', rfl, rfl⟩, by simp, hafter'⟩
    rw [List.all_cons, hname.1, hname.2]
    rfl
  · intro before before' taken after new more result' _ hswap hmore hagain
    exact ⟨trivial, pass_over_answer hused hswap.1 hswap.2.2 hmore hagain⟩

end

end RailsUpgrade.Catalogue
