import RailsUpgrade.Proofs.Reading

/-!
# `RailsUpgrade.Proofs.Replacing`: one pass over a text

`Expr.replaceAll` works on cursors, pieces and matches. `Pass` says what it does to a text without
them: it goes from left to right, keeps a character where nothing can be swapped, and else puts the
new text in place of what was taken.

* `Expr.CanTake`: a pattern can take a text that stands somewhere, with one rule for every part that
  patterns are made of;
* `Expr.Swaps` ties a pattern and its replacement to a `Swap`, a relation on texts: what the pattern
  takes is swapped, and where something can be swapped the pattern finds it;
* `pass_replaceAll`: replacing all matches is one pass;
* `Pass.eq_self`: a pass changes nothing if everything is swapped for itself;
* `Pass.skip`: a pass keeps a part in which nothing can be swapped;
* `Pass.reflects`: what a pass has made, from a place on that it kept, was there before;
* `Pass.first`: a pass that finds something keeps all that stands before it;
* `found_iff`: a pattern is found exactly where something can be swapped.
-/

set_option autoImplicit false

namespace RailsUpgrade.Pattern

/-! ### What a pattern can take -/

/-- Wherever `taken` stands between `before`, nearest character first, and `after`, the pattern has an
end behind it, though perhaps not its preferred one. -/
def Expr.CanTake (e : Expr) (before taken after : List Char) : Prop :=
  ∀ c : Cursor, c.before = before → c.after = taken ++ after → ∃ c' ∈ e.ends c, c.Takes taken c'

section

variable {p q : Expr} {set : CharSet} {before after s t : List Char}

theorem canTake_seq (hp : p.CanTake before s (t ++ after))
    (hq : q.CanTake (s.reverse ++ before) t after) :
    (Expr.seq p q).CanTake before (s ++ t) after := by
  intro c hbefore hafter
  obtain ⟨c₁, h₁, htakes₁⟩ := hp c hbefore (by rw [hafter, List.append_assoc])
  have hafter₁ : c₁.after = t ++ after := by
    have hsame := htakes₁.after
    rw [hafter, List.append_assoc] at hsame
    exact (List.append_cancel_left hsame).symm
  obtain ⟨c₂, h₂, htakes₂⟩ := hq c₁ (by rw [htakes₁.before, hbefore]) hafter₁
  exact ⟨c₂, mem_ends_seq.mpr ⟨c₁, h₁, h₂⟩, htakes₁.trans htakes₂⟩

/-- One of two patterns is enough. -/
theorem canTake_alt (h : p.CanTake before s after ∨ q.CanTake before s after) :
    (Expr.alt p q).CanTake before s after := by
  intro c hbefore hafter
  obtain h | h := h
  · obtain ⟨c', hc', htakes⟩ := h c hbefore hafter
    exact ⟨c', mem_ends_alt.mpr (.inl hc'), htakes⟩
  · obtain ⟨c', hc', htakes⟩ := h c hbefore hafter
    exact ⟨c', mem_ends_alt.mpr (.inr hc'), htakes⟩

theorem canTake_one {x : Char} (hx : set.mem x = true) : (Expr.one set).CanTake before [x] after := by
  intro c hbefore hafter
  have hafter' : c.after = x :: after := hafter
  refine ⟨c.advance x after, by simp [Expr.ends, hafter', hx], ?_⟩
  exact ⟨by simp [Cursor.advance, hafter'], rfl, rfl⟩

/-- The place behind a text is the one that lies as many characters further to the right. -/
theorem takes_shift_length {c : Cursor} (hafter : c.after = s ++ after) :
    c.Takes s (c.shift s.length) := by
  have htakes := Cursor.takes_shift (c := c) (n := s.length) (by simp [hafter])
  rwa [hafter, List.take_left] at htakes

theorem canTake_literal : (Expr.literal s).CanTake before s after := by
  intro c _ hafter
  refine ⟨c.shift s.length, ?_, takes_shift_length hafter⟩
  rw [ends_literal, if_pos (by rw [hafter]; exact List.prefix_append _ _)]
  exact List.mem_singleton_self _

theorem canTake_chars {text : String} (h : p.CanTake (text.toList.reverse ++ before) s after) :
    (Expr.chars text p).CanTake before (text.toList ++ s) after := by
  unfold Expr.chars
  generalize text.toList = text at h ⊢
  induction text generalizing before with
  | nil => exact h
  | cons x text ih =>
    have hone : (Expr.one (.single x)).CanTake before [x] ((text ++ s) ++ after) :=
      canTake_one (by simp)
    exact canTake_seq (s := [x]) hone (ih (by simpa using h))

/-- Members of a set that come next belong to the run of the set. -/
theorem length_le_run {c : Cursor} (hs : s.all set.mem = true) (hafter : c.after = s ++ after) :
    s.length ≤ set.run c := by
  rw [CharSet.run, hafter, List.takeWhile_append_of_pos (List.all_eq_true.mp hs), List.length_append]
  omega

theorem canTake_star (hs : s.all set.mem = true) : (Expr.star set).CanTake before s after := by
  intro c _ hafter
  have hle := length_le_run hs hafter
  refine ⟨c.shift s.length, ?_, takes_shift_length hafter⟩
  rw [ends_star]
  exact List.mem_map_of_mem (by simp only [List.mem_reverse, List.mem_range]; omega)

theorem canTake_plus (hs : s.all set.mem = true) (hne : s ≠ []) :
    (Expr.plus set).CanTake before s after := by
  intro c _ hafter
  have hle := length_le_run hs hafter
  have hpos : s.length ≠ 0 := by simpa using hne
  refine ⟨c.shift s.length, ?_, takes_shift_length hafter⟩
  rw [ends_plus]
  refine List.mem_map.mpr ⟨s.length - 1, by simp only [List.mem_reverse, List.mem_range]; omega, ?_⟩
  rw [Nat.sub_add_cancel (by omega)]

theorem canTake_anchor {a : Anchor}
    (h : ∀ c : Cursor, c.before = before → c.after = after → a.holds c = true) :
    (Expr.anchor a).CanTake before [] after := by
  intro c hbefore hafter
  exact ⟨c, mem_ends_anchor.mpr ⟨rfl, h c hbefore hafter⟩, .refl c⟩

theorem canTake_group {i : Nat} (h : p.CanTake before s after) :
    (Expr.group i p).CanTake before s after := by
  intro c hbefore hafter
  obtain ⟨c', hc', htakes⟩ := h (c.enter i) hbefore hafter
  refine ⟨c'.capture i c, ?_, ⟨htakes.after, htakes.before, htakes.pos⟩⟩
  rw [Expr.ends]
  exact List.mem_map_of_mem hc'

/-- A character that must not stand in front of a match: at most the character right before it
counts. -/
theorem ends_notBehind (set : CharSet) (c : Cursor) :
    (Expr.look 1 false (.one set)).ends c = if c.before.head?.any set.mem then [] else [c] := by
  rw [Expr.ends]
  cases hbefore : c.before with
  | nil => simp [Cursor.back?, hbefore]
  | cons x left =>
    by_cases hx : set.mem x = true
    · simp [Cursor.back?, hbefore, Expr.ends, hx]
    · simp [Cursor.back?, hbefore, Expr.ends, hx]

end

/-! ### One pass -/

/-- Which text may be put in place of which: between `before`, nearest character first, and `after`
the text `taken` is swapped for `new`. -/
abbrev Swap := (before taken after new : List Char) → Prop

/-- One pass over a text, from left to right. -/
inductive Pass (swap : Swap) : (before text result : List Char) → Prop
  | done (before : List Char) : Pass swap before [] []
  | keep {before rest result : List Char} {x : Char}
      (idle : ∀ taken after new, x :: rest = taken ++ after → ¬ swap before taken after new)
      (more : Pass swap (x :: before) rest result) : Pass swap before (x :: rest) (x :: result)
  | hit {before taken after new result : List Char} (takes : taken ≠ [])
      (swapped : swap before taken after new)
      (more : Pass swap (taken.reverse ++ before) after result) :
      Pass swap before (taken ++ after) (new ++ result)

/-- What a pattern takes at a cursor without groups, up to its preferred end, is swapped for what `f`
makes of the match, and it finds something wherever something can be swapped. -/
structure Expr.Swaps (e : Expr) (f : Match → List Char) (swap : Swap) : Prop where
  sound : ∀ {before after : List Char} {pos : Nat} {c : Cursor},
    (e.ends { before, after, pos }).head? = some c → ∃ taken, taken ≠ [] ∧
      Cursor.Takes { before, after, pos } taken c ∧
      swap before taken c.after (f ⟨{ before, after, pos }, c⟩)
  complete : ∀ {before taken after new : List Char} (pos : Nat), swap before taken after new →
    e.ends { before, after := taken ++ after, pos } ≠ []

section

variable {e : Expr} {f : Match → List Char} {swap : Swap}

/-- Where nothing can be swapped there is no match. -/
theorem matchesAt_eq_nil {c : Cursor} (hends : e.ends c = []) : e.matchesAt c = [] := by
  simp [Expr.matchesAt, run_eq_findSome?, hends]

/-- Where something can be swapped there is one match, and it takes something. -/
theorem Expr.Swaps.exists_matchesAt (h : e.Swaps f swap) {before text : List Char} {pos : Nat}
    (hends : e.ends { before, after := text, pos } ≠ []) :
    ∃ taken after c, taken ≠ [] ∧ text = taken ++ after ∧
      swap before taken after (f ⟨{ before, after := text, pos }, c⟩) ∧
      e.matchesAt { before, after := text, pos } = [⟨{ before, after := text, pos }, c⟩] ∧
      (⟨{ before, after := text, pos }, c⟩ : Match).width = taken.length := by
  obtain ⟨c, others, hc⟩ := List.exists_cons_of_ne_nil hends
  obtain ⟨taken, hne, htakes, hswap⟩ := h.sound (by rw [hc, List.head?_cons])
  have hpos : c.pos = pos + taken.length := htakes.pos
  have hlength : taken.length ≠ 0 := by simpa using hne
  have hmoved : (c.pos == pos) = false := by
    simp only [beq_eq_false_iff_ne, ne_eq]
    omega
  refine ⟨taken, c.after, c, hne, htakes.after, hswap, ?_, ?_⟩
  · simp [Expr.matchesAt, run_eq_findSome?, hc, hmoved]
  · show c.pos - pos = taken.length
    omega

/-- The pieces from a place on, once the rest of the match before it is passed over. -/
theorem pass_piecesIn (h : e.Swaps f swap) (before text : List Char) (pos skip : Nat)
    (hskip : skip ≤ text.length) :
    Pass swap ((text.take skip).reverse ++ before) (text.drop skip)
      ((e.piecesIn before pos skip text).flatMap (Piece.replaced f)) := by
  have hhits : ∀ ms : List Match, (ms.map Piece.hit).flatMap (Piece.replaced f) = ms.flatMap f := by
    intro ms
    rw [List.flatMap_map]
    rfl
  induction text generalizing before pos skip with
  | nil =>
    obtain rfl : skip = 0 := Nat.le_zero.mp hskip
    -- At the end of a text there is nothing to take.
    have hnone : e.ends { before, after := [], pos } = [] := by
      by_contra hends
      obtain ⟨taken, after, c, hne, htext, -⟩ := h.exists_matchesAt hends
      exact hne (List.append_eq_nil_iff.mp htext.symm).1
    simpa [Expr.piecesIn, matchesAt_eq_nil hnone] using Pass.done before
  | cons x rest ih =>
    cases skip with
    | succ n =>
      have hnext := ih (x :: before) (pos + 1) n (Nat.le_of_succ_le_succ hskip)
      simpa [Expr.piecesIn] using hnext
    | zero =>
      rw [Expr.piecesIn]
      by_cases hends : e.ends { before, after := x :: rest, pos } = []
      · have hnext := ih (x :: before) (pos + 1) 0 (Nat.zero_le _)
        have hnone : ∀ taken after new, x :: rest = taken ++ after → ¬ swap before taken after new := by
          intro taken after new htext hswap
          rw [htext] at hends
          exact h.complete pos hswap hends
        simpa [matchesAt_eq_nil hends, Piece.replaced] using Pass.keep hnone (by simpa using hnext)
      · obtain ⟨taken, after, c, hne, htext, hswap, hmatches, hwidth⟩ := h.exists_matchesAt hends
        obtain ⟨y, more, rfl⟩ := List.exists_cons_of_ne_nil hne
        obtain ⟨rfl, rfl⟩ : x = y ∧ rest = more ++ after := by simpa using htext
        have hnext := ih (x :: before) (pos + 1) more.length (by simp)
        have hpass := Pass.hit hne hswap (by simpa using hnext)
        simpa [hmatches, hwidth, hhits, Piece.replaced] using hpass

/-- Replacing all matches is one pass. -/
theorem pass_replaceAll (h : e.Swaps f swap) (text : List Char) :
    Pass swap [] text (e.replaceAll f text) := by
  simpa [Expr.replaceAll, Expr.pieces] using pass_piecesIn h [] text 0 0 (Nat.zero_le _)

/-- A pattern that has an end somewhere in a text is found there. -/
theorem found_of_ends {lead rest : List Char}
    (hends : e.ends { before := lead.reverse, after := rest, pos := lead.length } ≠ []) :
    e.found (lead ++ rest) = true := by
  -- The search may stop earlier, but it does not pass over the place.
  have hsearch : ∀ (lead before : List Char) (pos : Nat),
      e.ends { before := lead.reverse ++ before, after := rest, pos := pos + lead.length } ≠ [] →
      (e.searchIn before pos (lead ++ rest)).isSome = true := by
    intro lead
    induction lead with
    | nil =>
      intro before pos hends
      have hsome : (e.matchAt { before, after := rest, pos }).isSome = true := by
        obtain ⟨c, others, hc⟩ := List.exists_cons_of_ne_nil hends
        simp only [List.reverse_nil, List.nil_append, List.length_nil, Nat.add_zero] at hc
        simp [Expr.matchAt, run_eq_findSome?, hc]
      cases rest with
      | nil => exact hsome
      | cons x rest =>
        obtain ⟨m, hm⟩ := Option.isSome_iff_exists.mp hsome
        simp [Expr.searchIn, hm]
    | cons x lead ih =>
      intro before pos hends
      rw [List.cons_append, Expr.searchIn]
      cases e.matchAt { before, after := x :: (lead ++ rest), pos } with
      | some m => rfl
      | none =>
        have hpos : pos + (x :: lead).length = pos + 1 + lead.length := by
          rw [List.length_cons]
          omega
        rw [hpos] at hends
        exact ih (x :: before) (pos + 1) (by simpa using hends)
  exact hsearch lead [] 0 (by simpa using hends)

/-- A pattern is found in a text exactly if something in the text can be swapped. -/
theorem found_iff (h : e.Swaps f swap) (text : List Char) :
    e.found text = true ↔ ∃ lead taken after new, text = lead ++ (taken ++ after) ∧
      swap lead.reverse taken after new := by
  constructor
  · intro hfound
    obtain ⟨lead, rest, c, htext, hc⟩ := exists_head?_of_found hfound
    obtain ⟨taken, -, htakes, hswap⟩ := h.sound hc
    exact ⟨lead, taken, c.after, _, by rw [htext, ← htakes.after], hswap⟩
  · rintro ⟨lead, taken, after, new, rfl, hswap⟩
    exact found_of_ends (h.complete lead.length hswap)

end

namespace Pass

variable {swap : Swap} {before text result : List Char}

/-- There is nothing to do at the end of a text. -/
theorem eq_nil (h : Pass swap before [] result) : result = [] := by
  generalize htext : ([] : List Char) = text at h
  cases h with
  | done => rfl
  | keep => cases htext
  | hit takes =>
    obtain ⟨rfl, -⟩ := List.append_eq_nil_iff.mp htext.symm
    exact absurd rfl takes

/-- A pass changes nothing if all that it can swap is swapped for itself. -/
theorem eq_self (h : Pass swap before text result)
    (hself : ∀ lead taken after new, text = lead ++ (taken ++ after) →
      swap (lead.reverse ++ before) taken after new → new = taken) : result = text := by
  induction h with
  | done before => rfl
  | @keep before rest result x _ _ ih =>
    have hrest : result = rest := by
      apply ih
      intro lead taken after new htext hswap
      exact hself (x :: lead) taken after new (by simp [htext]) (by simpa using hswap)
    rw [hrest]
  | @hit before taken after new result _ swapped _ ih =>
    have hnew : new = taken := hself [] taken after new rfl swapped
    have hrest : result = after := by
      apply ih
      intro lead taken' after' new' htext hswap
      exact hself (taken ++ lead) taken' after' new' (by simp [htext]) (by simpa using hswap)
    rw [hnew, hrest]

/-- A pass makes no characters that neither its text nor anything that it puts in has. -/
theorem notMem {c : Char} (h : Pass swap before text result) (htext : c ∉ text)
    (hnew : ∀ before taken after new, swap before taken after new → c ∉ new) : c ∉ result := by
  induction h with
  | done before => exact htext
  | keep _ _ ih =>
    rw [List.mem_cons, not_or] at htext ⊢
    exact ⟨htext.1, ih htext.2⟩
  | hit _ swapped _ ih =>
    rw [List.mem_append, not_or] at htext ⊢
    exact ⟨hnew _ _ _ _ swapped, ih htext.2⟩

/-- A pass finds nothing and changes nothing, or it keeps all that stands before the first place
where something can be swapped. -/
theorem first (h : Pass swap before text result) :
    ((∀ lead taken after new, text = lead ++ (taken ++ after) → taken ≠ [] →
        ¬ swap (lead.reverse ++ before) taken after new) ∧ result = text) ∨
      ∃ lead taken after new more, text = lead ++ (taken ++ after) ∧
        swap (lead.reverse ++ before) taken after new ∧ result = lead ++ (new ++ more) := by
  induction h with
  | done before =>
    refine .inl ⟨fun lead taken after new htext hne => ?_, rfl⟩
    exact absurd (List.append_eq_nil_iff.mp (List.append_eq_nil_iff.mp htext.symm).2).1 hne
  | @keep before rest result x idle _ ih =>
    rcases ih with ⟨hnone, hsame⟩ | ⟨lead, taken, after, new, more, htext, hswap, hresult⟩
    · refine .inl ⟨fun lead taken after new htext hne hswap => ?_, by rw [hsame]⟩
      cases lead with
      | nil => exact idle taken after new htext hswap
      | cons y lead =>
        obtain ⟨rfl, hrest⟩ := List.cons_eq_cons.mp htext
        exact hnone lead taken after new hrest hne (by simpa using hswap)
    · exact .inr ⟨x :: lead, taken, after, new, more, by simp [htext], by simpa using hswap,
        by simp [hresult]⟩
  | @hit before taken after new result _ swapped _ _ =>
    exact .inr ⟨[], taken, after, new, result, rfl, swapped, rfl⟩

/-- A pass keeps a character where nothing can be swapped. -/
theorem keeps {x : Char} {rest : List Char} (h : Pass swap before (x :: rest) result)
    (hidle : ∀ taken after new, x :: rest = taken ++ after → ¬ swap before taken after new) :
    ∃ more, result = x :: more ∧ Pass swap (x :: before) rest more := by
  generalize htext : x :: rest = text at h
  cases h with
  | done => cases htext
  | keep idle more =>
    cases htext
    exact ⟨_, rfl, more⟩
  | hit takes swapped more => exact absurd swapped (hidle _ _ _ htext)

/-- A pass keeps a part in which nothing can be swapped, and goes on behind it. -/
theorem skip {part rest : List Char} (h : Pass swap before (part ++ rest) result)
    (hidle : ∀ lead more taken after new, part = lead ++ more → more ≠ [] →
      more ++ rest = taken ++ after → ¬ swap (lead.reverse ++ before) taken after new) :
    ∃ more, result = part ++ more ∧ Pass swap (part.reverse ++ before) rest more := by
  induction part generalizing before result with
  | nil => exact ⟨result, rfl, h⟩
  | cons x part ih =>
    obtain ⟨result', rfl, hmore⟩ := h.keeps fun taken after new htext hswap =>
      hidle [] (x :: part) taken after new rfl (by simp) htext hswap
    obtain ⟨more, rfl, hpass⟩ := ih hmore fun lead more taken after new hpart hne htext hswap =>
      hidle (x :: lead) more taken after new (by simp [hpart]) hne htext (by simpa using hswap)
    exact ⟨more, rfl, by simpa using hpass⟩

/-- What a pass has made, from a place on that it kept, was there before, if this holds where a
replacement begins in it. The shape of what is looked for may depend on what follows it. -/
theorem reflects {shape : (found rest : List Char) → Prop} {kept : List Char}
    (h : Pass swap (kept.reverse ++ before) text result) (hkept : kept ≠ [])
    (hhit : ∀ kept taken after new more found rest, kept ≠ [] → taken ++ after <:+ text →
      swap (kept.reverse ++ before) taken after new →
      Pass swap ((kept ++ taken).reverse ++ before) after more →
      kept ++ (new ++ more) = found ++ rest → shape found rest →
      ∃ found' rest', kept ++ (taken ++ after) = found' ++ rest' ∧ shape found' rest')
    {found rest : List Char} (heq : kept ++ result = found ++ rest) (hfound : shape found rest) :
    ∃ found' rest', kept ++ text = found' ++ rest' ∧ shape found' rest' := by
  generalize hlead : kept.reverse ++ before = lead at h
  induction h generalizing kept with
  | done _ => exact ⟨found, rest, heq, hfound⟩
  | @keep lead more result x _ _ ih =>
    subst hlead
    have hlonger : ∃ found' rest', (kept ++ [x]) ++ more = found' ++ rest' ∧ shape found' rest' :=
      ih (by simp)
        (fun kept' taken after new more' found' rest' hne hsuffix =>
          hhit kept' taken after new more' found' rest' hne (hsuffix.trans (List.suffix_cons _ _)))
        (by simpa using heq) (by simp)
    simpa using hlonger
  | @hit lead taken after new result _ hswap hmore _ =>
    subst hlead
    exact hhit kept taken after new result found rest hkept (List.suffix_refl _) hswap
      (by simpa using hmore) heq hfound

end Pass

end RailsUpgrade.Pattern
