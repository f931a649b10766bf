import Mathlib.Data.Finset.Max
import Mathlib.Data.List.Lex
import RailsUpgrade.Proofs.Comments
import RailsUpgrade.Proofs.Unsupported

/-!
# `RailsUpgrade.Proofs.CommentedCalls`: what an update keeps of lines that are commented out

Edits of lines leave the lines that are commented out alone. The pin of Rails does not look at where a
call stands, so a call that begins on such a line is pinned as well.

* `pinnedLine_or_newlyPinned`: the pin leaves a line exactly if every call that begins on it is the pin;
* `forall₂_pass`: the lines that are commented out before and after the pin correspond to each other,
  though calls before them may take several lines;
* `pinPlaces`: an order of lines in which a line that is pinned comes before the result, so lines cannot
  change places with each other (`eq_of_count_le`);
* `KeepsComments`: what the edits and the added lines keep, and do not add;
* `update_comments_iff`: when an update keeps every line that is commented out.
-/

set_option autoImplicit false

namespace RailsUpgrade.Gemfile

open Pattern (Pass)
open Text (StartsBreak OnComment comments isCommented behindBreaks behindCommentBreaks firstLine
  firstLine_isPrefix splitChar_eq_map comments_eq_map mem_behindBreaks_iff isCommented_firstLine firstLine_append
  isCommented_append_of_solid isCommented_append_cons isCommented_gap
  behindBreaks_append behindBreaks_of_notMem laterLines splitChar_eq_cons splitChar)
open scoped List

variable {pin : Pin} {before text result s s' : List Char}

/-! ### The pin on one line -/

/-- Every call that begins on the first line of a text is the pin. -/
def PinnedLine (pin : Pin) (s : List Char) : Prop :=
  ∀ (lead : List Char) (call : RailsCall) (rest : List Char),
    s = lead ++ (call.text ++ rest) → '\n' ∉ lead → call.text = pin.text

/-- A call on the first line of a text, not the pin, has become the pin. -/
def NewlyPinned (pin : Pin) (s s' : List Char) : Prop :=
  ∃ (lead : List Char) (call : RailsCall) (rest rest' : List Char), s = lead ++ (call.text ++ rest) ∧
    s' = lead ++ (pin.text ++ rest') ∧ '\n' ∉ lead ∧ call.text ≠ pin.text

/-- The pin leaves the first line of a text exactly if every call that begins on it is the pin. -/
theorem pinnedLine_or_newlyPinned (h : Pass (pinned pin) before s s') :
    (PinnedLine pin s ∧ firstLine s' = firstLine s) ∨ NewlyPinned pin s s' := by
  induction h with
  | done =>
    refine .inl ⟨fun lead call rest heq _ => ?_, rfl⟩
    have hnil := (List.append_eq_nil_iff.mp heq.symm).2
    exact absurd (List.append_eq_nil_iff.mp hnil).1 call.text_ne_nil
  | @keep before s s' x idle more ih =>
    have hnone : ∀ (call : RailsCall) (rest : List Char), x :: s ≠ call.text ++ rest := fun call rest heq =>
      idle call.text rest pin.text heq ⟨⟨call, rfl⟩, rfl⟩
    by_cases hx : x = '\n'
    · subst hx
      refine .inl ⟨fun lead call rest heq hlead => ?_, by simp [firstLine]⟩
      cases lead with
      | nil => exact absurd heq (hnone call rest)
      | cons y lead =>
        obtain ⟨rfl, -⟩ := List.cons_eq_cons.mp heq
        exact absurd List.mem_cons_self hlead
    · rcases ih with ⟨hpinned, hfirst⟩ | ⟨lead, call, rest, rest', rfl, rfl, hlead, hne⟩
      · have hline : '\n' ∉ [x] := by simpa [eq_comm] using hx
        refine .inl ⟨fun lead call rest heq hlead => ?_, ?_⟩
        · cases lead with
          | nil => exact absurd heq (hnone call rest)
          | cons y lead =>
            exact hpinned lead call rest (List.cons_eq_cons.mp heq).2 fun hmem =>
              hlead (List.mem_cons_of_mem _ hmem)
        · rw [← List.singleton_append, ← List.singleton_append (l := s), firstLine_append hline,
            firstLine_append hline, hfirst]
      · refine .inr ⟨x :: lead, call, rest, rest', rfl, rfl, ?_, hne⟩
        rw [List.mem_cons, not_or]
        exact ⟨fun h => hx h.symm, hlead⟩
  | @hit before taken after new result _ swapped more ih =>
    obtain ⟨⟨call, rfl⟩, rfl⟩ := swapped
    by_cases hcall : call.text = pin.text
    · rw [hcall]
      rcases ih with ⟨hpinned, hfirst⟩ | ⟨lead, call', rest, rest', rfl, rfl, hlead, hne⟩
      · refine .inl ⟨fun lead call' rest heq hlead => ?_, ?_⟩
        · cases lead with
          | nil =>
            have hcall : pin.call.text ++ after = call'.text ++ rest := heq
            exact (RailsCall.text_unique hcall).1.symm
          | cons y lead =>
            -- The only letter `g` of the pin is its first one.
            obtain ⟨inner, rfl, hafter⟩ := exists_of_notMem pin.g_notMem (List.cons_eq_cons.mp heq).2
            exact hpinned inner call' rest hafter fun hmem => hlead (by simp [hmem])
        · rw [firstLine_append pin.solid, firstLine_append pin.solid, hfirst]
      · refine .inr ⟨pin.text ++ lead, call', rest, rest', by simp, by simp, ?_, hne⟩
        rw [List.mem_append, not_or]
        exact ⟨pin.solid, hlead⟩
    · exact .inr ⟨[], call, after, result, rfl, rfl, by simp, hcall⟩

/-- No line that is commented out begins in a part that goes on with a quote behind each break. -/
theorem isCommented_behindBreak (h : BreaksQuoted s) {u : List Char} (hu : u ∈ behindBreaks s)
    (t : List Char) : isCommented (u ++ t) = false := by
  obtain ⟨lead, heq⟩ := mem_behindBreaks_iff.mp hu
  obtain ⟨gap, quote, more, rfl, hgap, hquote⟩ := h lead u heq
  rw [List.append_assoc, List.cons_append]
  exact isCommented_gap hgap (isBlank_eq_false_of_isQuote hquote) (ne_of_holds hquote (by decide)).symm

theorem behindCommentBreaks_append (h : BreaksQuoted s) (t : List Char) :
    behindCommentBreaks (s ++ t) = behindCommentBreaks t := by
  have hnone : ((behindBreaks s).map (· ++ t)).filter isCommented = [] := by
    rw [List.filter_eq_nil_iff]
    intro u hu
    obtain ⟨v, hv, rfl⟩ := List.mem_map.mp hu
    rw [isCommented_behindBreak h hv]
    exact Bool.false_ne_true
  rw [behindCommentBreaks, behindBreaks_append, List.filter_append, hnone, List.nil_append,
    behindCommentBreaks]

/-- Where it takes a call and where it does not, the pin leaves a line commented out or not. -/
theorem isCommented_of_pass (h : Pass (pinned pin) before s s') : isCommented s' = isCommented s := by
  rcases pinnedLine_or_newlyPinned h with ⟨-, hfirst⟩ | ⟨lead, call, rest, rest', rfl, rfl, -, -⟩
  · rw [← isCommented_firstLine, hfirst, isCommented_firstLine]
  · have hletter : ∀ t, isCommented (lead ++ 'g' :: t) = isCommented lead := fun t =>
      isCommented_append_of_solid (by decide) (by decide)
    exact (hletter _).trans (hletter _).symm

/-- The pin takes nothing at a line that is commented out but on this line. -/
theorem forall₂_pass (h : Pass (pinned pin) before text result) :
    List.Forall₂ (fun s s' => ∃ before, Pass (pinned pin) before s s')
      (behindCommentBreaks text) (behindCommentBreaks result) := by
  induction h with
  | done => exact .nil
  | @keep before s s' x idle more ih =>
    rw [behindCommentBreaks, behindCommentBreaks, behindBreaks, behindBreaks]
    split
    · rw [List.filter_cons, List.filter_cons, isCommented_of_pass more]
      split
      · exact .cons ⟨_, more⟩ ih
      · exact ih
    · exact ih
  | @hit before taken after new result _ swapped more ih =>
    obtain ⟨⟨call, rfl⟩, rfl⟩ := swapped
    rw [behindCommentBreaks_append (IsCall.breaksQuoted (.inl ⟨call, rfl⟩)),
      behindCommentBreaks_append (breaksQuoted_of_notMem pin.solid)]
    exact ih

/-! ### Where the pin stands in a line -/

/-- Whether the pin begins, at each place of a text. -/
def pinPlaces (pin : Pin) (s : List Char) : List Bool := s.tails.map pin.text.isPrefixOf

theorem pinPlaces_cons (x : Char) (s : List Char) :
    pinPlaces pin (x :: s) = pin.text.isPrefixOf (x :: s) :: pinPlaces pin s := by
  rw [pinPlaces, List.tails_cons, List.map_cons, pinPlaces]

/-- Where a `g` is the first difference, the text in which the pin begins there comes last. -/
theorem pinPlaces_lt {x y : List Char} (hx : ¬ pin.text <+: 'g' :: x) (hy : pin.text <+: 'g' :: y)
    (lead : List Char) : pinPlaces pin (lead ++ 'g' :: x) < pinPlaces pin (lead ++ 'g' :: y) := by
  induction lead with
  | nil =>
    rw [← List.isPrefixOf_iff_prefix, Bool.not_eq_true] at hx
    rw [← List.isPrefixOf_iff_prefix] at hy
    rw [List.nil_append, List.nil_append, pinPlaces_cons, pinPlaces_cons, List.cons_lt_cons_iff, hx, hy]
    exact .inl (by decide)
  | cons z lead ih =>
    -- Before the `g` the pin ends, if it begins there.
    have hends : ∀ {t : List Char}, pin.text <+: z :: lead ++ 'g' :: t → pin.text <+: z :: lead := by
      intro t h
      rcases Text.prefix_append_cases h with hshort | ⟨more, hpin, hmore⟩
      · exact hshort
      · cases more with
        | nil => exact ⟨[], by simpa using hpin⟩
        | cons w more =>
          obtain ⟨rfl, -⟩ := List.cons_prefix_cons.mp hmore
          have htail : pin.call.front ++ (pin.version ++ ['\'']) = lead ++ 'g' :: more :=
            (List.cons_eq_cons.mp hpin).2
          exact absurd (htail ▸ by simp) pin.g_notMem
    have hsame : pin.text.isPrefixOf (z :: lead ++ 'g' :: x) = pin.text.isPrefixOf (z :: lead ++ 'g' :: y) := by
      rw [Bool.eq_iff_iff, List.isPrefixOf_iff_prefix, List.isPrefixOf_iff_prefix]
      exact ⟨fun h => (hends h).trans (List.prefix_append _ _),
        fun h => (hends h).trans (List.prefix_append _ _)⟩
    rw [List.cons_append, List.cons_append, pinPlaces_cons, pinPlaces_cons, List.cons_lt_cons_iff]
    exact .inr ⟨hsame, ih⟩

theorem NewlyPinned.pinPlaces_lt (h : NewlyPinned pin s s') :
    pinPlaces pin (firstLine s) < pinPlaces pin (firstLine s') := by
  obtain ⟨lead, call, rest, rest', rfl, rfl, hlead, hne⟩ := h
  have hletter : ∀ t, firstLine ('g' :: t) = 'g' :: firstLine t :=
    firstLine_append (show '\n' ∉ ['g'] by decide)
  rw [firstLine_append hlead, firstLine_append hlead, RailsCall.text, List.cons_append, hletter]
  refine Gemfile.pinPlaces_lt (fun hpin => hne ?_) ?_ lead
  · rw [← hletter] at hpin
    obtain ⟨after, hafter⟩ := hpin.trans (firstLine_isPrefix _)
    have hcall : pin.call.text ++ after = call.text ++ rest := hafter
    exact (RailsCall.text_unique hcall).1.symm
  · show pin.text <+: firstLine (pin.text ++ rest')
    rw [firstLine_append pin.solid]
    exact List.prefix_append _ _

section

variable {α β : Type} [LinearOrder β] [BEq α] [LawfulBEq α] {key : α → β} {xs ys : List α}

theorem count_le_count {l : α} (h : List.Forall₂ (fun x y => y = l → x = l) xs ys) :
    ys.count l ≤ xs.count l := by
  induction h with
  | nil => rfl
  | @cons x y xs ys hxy _ ih =>
    rw [List.count_cons, List.count_cons]
    by_cases hy : y = l
    · simp [hy, hxy hy, ih]
    · simp [hy]
      omega

/-- An element that has been changed at one place, and that nothing has been changed to, is counted
less often. -/
theorem count_lt_count {l : α} (h : List.Forall₂ (fun x y => y = l → x = l) xs ys)
    (hchanged : ∃ p ∈ xs.zip ys, p.1 = l ∧ p.2 ≠ l) : ys.count l < xs.count l := by
  induction h with
  | nil => simp at hchanged
  | @cons x y xs ys hxy hrest ih =>
    obtain ⟨p, hp, hfst, hsnd⟩ := hchanged
    rw [List.count_cons, List.count_cons]
    rcases List.mem_cons.mp hp with rfl | hp
    · have hle := count_le_count hrest
      simp only at hfst hsnd
      simp [hfst, hsnd]
      omega
    · have hlt := ih ⟨p, hp, hfst, hsnd⟩
      by_cases hy : y = l
      · simpa [hy, hxy hy] using hlt
      · simp [hy]
        omega

/-- Lists are the same if what differs between them has a greater key in the second one, and none of it
is counted less often there. -/
theorem eq_of_count_le {p : α → Prop} (h : List.Forall₂ (fun x y => x = y ∨ p x ∧ key x < key y) xs ys)
    (hcount : ∀ x, p x → xs.count x ≤ ys.count x) : xs = ys := by
  classical
  by_contra hne
  have hchanged : ∃ c ∈ xs.zip ys, c.1 ≠ c.2 := by
    by_contra hnone
    simp only [not_exists, not_and, not_not] at hnone
    refine hne ?_
    rw [← List.forall₂_eq_eq_eq]
    exact List.forall₂_iff_zip.mpr ⟨h.length_eq, fun hc => hnone _ hc⟩
  -- Of what differs, the element with the least key.
  obtain ⟨c, hc, hleast⟩ := Finset.exists_min_image ((xs.zip ys).filter (fun c => c.1 ≠ c.2)).toFinset
    (fun c => key c.1) (by
      obtain ⟨c, hc, hdiff⟩ := hchanged
      exact ⟨c, by simpa using ⟨hc, hdiff⟩⟩)
  simp only [List.mem_toFinset, List.mem_filter, decide_eq_true_eq] at hc hleast
  have hkept : List.Forall₂ (fun x y => y = c.1 → x = c.1) xs ys := by
    refine List.forall₂_iff_zip.mpr ⟨h.length_eq, fun {x y} hxy hy => ?_⟩
    by_contra hx
    rcases (List.forall₂_iff_zip.mp h).2 hxy with rfl | ⟨-, hlt⟩
    · exact hx hy
    · have hle := hleast (x, y) ⟨hxy, fun heq => hx (heq.trans hy)⟩
      rw [hy] at hlt
      exact absurd hlt (not_lt_of_ge hle)
  obtain ⟨hp, -⟩ := ((List.forall₂_iff_zip.mp h).2 hc.1).resolve_left hc.2
  exact absurd (hcount c.1 hp) (not_le_of_gt (count_lt_count hkept ⟨c, hc.1, rfl, hc.2.symm⟩))

end

/-! ### What the edits keep -/

/-- Lines from which no commented one has gone, and to which none has come but harmless ones. -/
structure KeepsComments (lines lines' : List (List Char)) : Prop where
  kept : lines.filter isCommented <+ lines'
  added : ∀ l, isCommented l = true → ¬ Harmless l → lines'.count l ≤ lines.count l

namespace KeepsComments

variable {lines lines' lines'' block : List (List Char)} {l : List Char}

theorem refl (lines : List (List Char)) : KeepsComments lines lines :=
  ⟨List.filter_sublist, fun _ _ _ => le_rfl⟩

theorem trans (h : KeepsComments lines lines') (h' : KeepsComments lines' lines'') :
    KeepsComments lines lines'' where
  kept := by
    have hfilter := h.kept.filter isCommented
    rw [List.filter_filter] at hfilter
    simp only [Bool.and_self] at hfilter
    exact hfilter.trans h'.kept
  added l hl hharmless := (h'.added l hl hharmless).trans (h.added l hl hharmless)

theorem cons (h : KeepsComments lines lines') (l : List Char) : KeepsComments (l :: lines) (l :: lines') where
  kept := by
    rw [List.filter_cons]
    split
    · exact h.kept.cons_cons l
    · exact h.kept.cons l
  added l' hl' hharmless := by
    rw [List.count_cons, List.count_cons]
    exact Nat.add_le_add_right (h.added l' hl' hharmless) _

/-- Lines that are not commented out may go. -/
theorem without (h : KeepsComments lines lines') (hblock : ∀ l ∈ block, isCommented l = false) :
    KeepsComments (block ++ lines) lines' where
  kept := by
    have hnone : block.filter isCommented = [] :=
      List.filter_eq_nil_iff.mpr fun l hl => by simp [hblock l hl]
    rw [List.filter_append, hnone, List.nil_append]
    exact h.kept
  added l hl hharmless := by
    rw [List.count_append]
    exact (h.added l hl hharmless).trans (Nat.le_add_left _ _)

/-- Harmless lines may come. -/
theorem with_cons (h : KeepsComments lines lines') (hl : isCommented l = true → Harmless l) :
    KeepsComments lines (l :: lines') where
  kept := h.kept.cons l
  added l' hl' hharmless := by
    have hne : l ≠ l' := by
      rintro rfl
      exact hharmless (hl hl')
    rw [List.count_cons_of_ne hne]
    exact h.added l' hl' hharmless

theorem append (lines : List (List Char)) (hblock : ∀ l ∈ block, isCommented l = true → Harmless l) :
    KeepsComments lines (lines ++ block) where
  kept := List.filter_sublist.trans (List.sublist_append_left _ _)
  added l hl hharmless := by
    have hnone : block.count l = 0 := List.count_eq_zero.mpr fun hmem => hharmless (hblock l hmem hl)
    rw [List.count_append, hnone, Nat.add_zero]

end KeepsComments

/-- An edit keeps the lines that are commented out. -/
theorem keepsComments_pass {e : Edit} (he : e.isPlain = true) (h : Pass (lineSwap e) before s s') :
    KeepsComments (laterLines s) (laterLines s') ∧
      (¬ StartsBreak before → firstLine s' = firstLine s) ∧
      (StartsBreak before → KeepsComments (splitChar '\n' s) (splitChar '\n' s')) := by
  induction h with
  | done => exact ⟨.refl _, fun _ => rfl, fun _ => .refl _⟩
  | @keep before s s' x idle more ih =>
    obtain ⟨hlater, hfirst, hall⟩ := ih
    have hkept : KeepsComments (laterLines (x :: s)) (laterLines (x :: s')) ∧
        firstLine (x :: s') = firstLine (x :: s) := by
      by_cases hx : x = '\n'
      · subst hx
        have hlines : ∀ t, laterLines ('\n' :: t) = splitChar '\n' t := fun t => (splitChar_eq_map t).symm
        rw [hlines, hlines]
        exact ⟨hall (.inr ⟨_, rfl⟩), rfl⟩
      · have hline : '\n' ∉ [x] := by simpa [eq_comm] using hx
        have hnot : ¬ StartsBreak (x :: before) := by
          rw [Pattern.startsBreak_cons]
          exact hx
        have hlines : ∀ t, laterLines (x :: t) = laterLines t := fun t => by
          rw [laterLines, behindBreaks, if_neg hx, laterLines]
        have hhead : ∀ t, firstLine (x :: t) = x :: firstLine t := fun t =>
          firstLine_append hline t
        rw [hlines, hlines, hhead, hhead, hfirst hnot]
        exact ⟨hlater, rfl⟩
    refine ⟨hkept.1, fun _ => hkept.2, fun _ => ?_⟩
    rw [splitChar_eq_cons, splitChar_eq_cons, hkept.2]
    exact hkept.1.cons _
  | @hit before taken after new result _ swapped more ih =>
    obtain ⟨hlater, hfirst, -⟩ := ih
    have hnot := (closed_lineSwap he swapped before).1
    obtain ⟨hstart, hafter, line, rfl, rfl⟩ := swapped
    -- The lines that are taken are not commented out, and the new one is harmless.
    have hbroken := line.breaksQuoted (Edit.isPlain.gem_solid he)
    have hnew := line.solid_replacement he
    have hharmless : Harmless (line.margin ++ e.replacement.toList) :=
      (Edit.isPlain.harmless he).margin (all_isBlank_of_margin line.margin_blank)
    have hopening : isCommented (firstLine (line.text ++ after)) = false := by
      rw [isCommented_firstLine, line.text_eq, List.append_assoc, GemCall.text, List.append_assoc,
        List.cons_append, isCommented_append_cons line.margin_blank (by decide)]
      rfl
    have hblock : ∀ l ∈ (behindBreaks line.text).map fun u => firstLine (u ++ after),
        isCommented l = false := by
      intro l hl
      obtain ⟨u, hu, rfl⟩ := List.mem_map.mp hl
      rw [isCommented_firstLine, isCommented_behindBreak hbroken hu]
    have htakenLines : laterLines (line.text ++ after) =
        (behindBreaks line.text).map (fun u => firstLine (u ++ after)) ++ laterLines after := by
      rw [laterLines, behindBreaks_append, List.map_append, List.map_map]
      rfl
    have hnewLines : laterLines (line.margin ++ e.replacement.toList ++ result) = laterLines result := by
      rw [laterLines, behindBreaks_append, behindBreaks_of_notMem hnew]
      rfl
    have hresult : firstLine result = [] := by
      rw [hfirst (mt Pattern.atMargin_of_startsBreak hnot)]
      rcases hafter with rfl | ⟨rest, rfl⟩ <;> rfl
    have hkept : KeepsComments (laterLines (line.text ++ after)) (laterLines result) :=
      htakenLines ▸ hlater.without hblock
    rw [splitChar_eq_cons, splitChar_eq_cons, hnewLines, firstLine_append hnew, hresult, List.append_nil]
    refine ⟨hkept, fun hnone => absurd hstart hnone, fun _ => ?_⟩
    have hwithout : KeepsComments ([firstLine (line.text ++ after)] ++ laterLines (line.text ++ after))
        (laterLines result) := hkept.without (by simpa using hopening)
    exact hwithout.with_cons fun _ => hharmless

theorem keepsComments_foldl {edits : List Edit} (hplain : ∀ e ∈ edits, e.isPlain = true)
    (text : List Char) : KeepsComments (splitChar '\n' text)
      (splitChar '\n' (edits.foldl (fun text e => e.rewrite text) text)) := by
  induction edits generalizing text with
  | nil => exact .refl _
  | cons e edits ih =>
    have hfirst := (keepsComments_pass (hplain e List.mem_cons_self) (pass_rewrite e text)).2.2 (.inl rfl)
    exact hfirst.trans (ih (fun e' he' => hplain e' (List.mem_cons_of_mem e he')) (e.rewrite text))

/-! ### What is added -/

theorem harmless_added : ∀ l ∈ [] :: bootsnapBlock, isCommented l = true → Harmless l := by
  have hall : ∀ l ∈ [] :: bootsnapBlock, isCommented l = true → isHarmless l = true := by decide +kernel
  exact fun l hl hcomment => harmless_of_isHarmless (hall l hl hcomment)

/-- The gem that speeds up the start is added on lines of its own. -/
theorem splitChar_addBootsnap (text : List Char) : ∃ block ⊆ [] :: bootsnapBlock,
    splitChar '\n' (addBootsnap text) = splitChar '\n' text ++ block := by
  have hlines : bootsnapLines = '\n' :: Text.join ['\n'] bootsnapBlock := by decide
  have hblock : splitChar '\n' (Text.join ['\n'] bootsnapBlock) = bootsnapBlock := by decide
  unfold addBootsnap
  split
  · exact ⟨[], by simp, by simp⟩
  · rw [hlines]
    split
    · exact ⟨bootsnapBlock, List.subset_cons_self _ _, by rw [Text.splitChar_append_cons, hblock]⟩
    · refine ⟨[] :: bootsnapBlock, List.Subset.refl _, ?_⟩
      rw [Text.splitChar_append_cons, Text.splitChar_append_cons, hblock, List.append_assoc]
      rfl

/-- Once Rails is pinned, an update keeps the lines that are commented out. -/
theorem keepsComments_updateTo {line : ReleaseLine} (hline : line ∈ releaseLines) (target : String)
    (text : List Char) : KeepsComments (splitChar '\n' (withPin hline text))
      (splitChar '\n' (updateTo line target text)) := by
  obtain ⟨version, hparts⟩ := updateTo_eq_parts hline target text
  rw [hparts]
  set edited := (editsFor target version).foldl (fun text e => e.rewrite text) (withPin hline text)
  -- Rails has been pinned. The edits, the block and the line for Ruby are added one after the other.
  have hedited := keepsComments_foldl (compatible_editsFor target version).plain (withPin hline text)
  have hbootsnap : KeepsComments (splitChar '\n' edited) (splitChar '\n' (withBootsnap line edited)) := by
    unfold withBootsnap
    split
    · obtain ⟨block, hblock, hadded⟩ := splitChar_addBootsnap edited
      rw [hadded]
      exact .append _ fun l hl => harmless_added l (hblock hl)
    · exact .refl _
  have hruby : ∀ (text : List Char) (hasRuby : Bool),
      KeepsComments (splitChar '\n' text) (splitChar '\n' (withRuby line hasRuby text)) := by
    intro text hasRuby
    cases hasRuby with
    | true => exact .refl _
    | false =>
      have hmem : rubyLine line ∈ addedLines := List.mem_append_right _ (List.mem_map_of_mem hline)
      rw [withRuby_false, Text.splitChar_append_cons,
        Text.splitChar_of_notMem (addedLines_spec _ hmem).1]
      exact (KeepsComments.refl _).with_cons fun _ =>
        harmless_of_isHarmless (asked_rubyLine line hline).2.2
  exact (hedited.trans hbootsnap).trans (hruby _ _)

/-! ### The lines that are commented out -/

/-- No call begins on a harmless line. -/
theorem NewlyPinned.not_harmless (h : NewlyPinned pin s s') : ¬ Harmless (firstLine s) := by
  obtain ⟨lead, call, rest, rest', rfl, rfl, hlead, -⟩ := h
  have hsplit : firstLine (call.text ++ rest) ++ (call.text ++ rest).dropWhile (· != '\n') =
      call.text ++ rest := List.takeWhile_append_dropWhile
  rw [firstLine_append hlead]
  exact fun hharmless => hharmless.not_begins (List.suffix_append _ _) (Text.startsBreak_dropWhile _)
    (.inl ⟨call, rfl⟩) hsplit

/-- The lines that are commented out are the same after the pin exactly if every call that begins on
one of them is the pin. -/
theorem map_firstLine_eq_iff {zs zs' : List (List Char)}
    (h : List.Forall₂ (fun s s' => ∃ before, Pass (pinned pin) before s s') zs zs') :
    zs.map firstLine = zs'.map firstLine ↔ ∀ s ∈ zs, PinnedLine pin s := by
  induction h with
  | nil => simp
  | @cons s s' zs zs' hpass _ ih =>
    obtain ⟨before, hpass⟩ := hpass
    have hfirst : firstLine s = firstLine s' ↔ PinnedLine pin s := by
      rcases pinnedLine_or_newlyPinned hpass with ⟨hpinned, hsame⟩ | hnew
      · exact iff_of_true hsame.symm hpinned
      · refine iff_of_false (fun hsame => ?_) fun hpinned => ?_
        · exact lt_irrefl _ (hsame ▸ hnew.pinPlaces_lt)
        · obtain ⟨lead, call, rest, rest', heq, -, hlead, hne⟩ := hnew
          exact hne (hpinned lead call rest heq hlead)
    rw [List.map_cons, List.map_cons, List.cons_eq_cons, hfirst, ih, List.forall_mem_cons]

theorem forall_pinnedLine_iff : (∀ s ∈ behindCommentBreaks ('\n' :: text), PinnedLine pin s) ↔
    ∀ call : RailsCall, OnComment call.text text → call.text = pin.text := by
  have hletter : ∀ (line : List Char) (call : RailsCall) (rest : List Char),
      isCommented (line ++ (call.text ++ rest)) = isCommented line := fun line call rest =>
    isCommented_append_of_solid (by decide) (by decide)
  constructor
  · rintro h call ⟨lead, line, rest, htext, hline, hcomment⟩
    have hmem : line ++ (call.text ++ rest) ∈ behindCommentBreaks ('\n' :: text) :=
      List.mem_filter.mpr ⟨mem_behindBreaks_iff.mpr ⟨lead, htext⟩, by rw [hletter, hcomment]⟩
    exact h _ hmem line call rest rfl hline
  · rintro h s hs line call rest rfl hline
    obtain ⟨hbehind, hcomment⟩ := List.mem_filter.mp hs
    obtain ⟨lead, htext⟩ := mem_behindBreaks_iff.mp hbehind
    exact h call ⟨lead, line, rest, htext, hline, by rwa [hletter] at hcomment⟩

theorem comments_sublist_iff {line : ReleaseLine} (hline : line ∈ releaseLines) (target : String)
    (text : List Char) : comments text <+ splitChar '\n' (updateTo line target text) ↔
      ∀ call : RailsCall, OnComment call.text text → call.text = (pinOf hline).text := by
  have hkeeps := keepsComments_updateTo hline target text
  have hpass := pass_withPin hline text
  have hpasses : List.Forall₂ (fun s s' => ∃ before, Pass (pinned (pinOf hline)) before s s')
      (behindCommentBreaks ('\n' :: text)) (behindCommentBreaks ('\n' :: withPin hline text)) := by
    rw [behindCommentBreaks, behindCommentBreaks, behindBreaks, behindBreaks, if_pos rfl, if_pos rfl,
      List.filter_cons, List.filter_cons, isCommented_of_pass hpass]
    split
    · exact .cons ⟨[], hpass⟩ (forall₂_pass hpass)
    · exact forall₂_pass hpass
  rw [← forall_pinnedLine_iff, ← map_firstLine_eq_iff hpasses, ← comments_eq_map, ← comments_eq_map]
  constructor
  · intro hsub
    have hchanges : List.Forall₂ (fun l l' => l = l' ∨ (isCommented l = true ∧ ¬ Harmless l) ∧
        pinPlaces (pinOf hline) l < pinPlaces (pinOf hline) l')
        (comments text) (comments (withPin hline text)) := by
      rw [comments_eq_map, comments_eq_map, List.forall₂_map_left_iff, List.forall₂_map_right_iff]
      refine List.forall₂_iff_zip.mpr ⟨hpasses.length_eq, fun {s s'} hs => ?_⟩
      obtain ⟨before, hpass⟩ := (List.forall₂_iff_zip.mp hpasses).2 hs
      have hcomment : isCommented s = true := (List.mem_filter.mp (List.of_mem_zip hs).1).2
      rcases pinnedLine_or_newlyPinned hpass with ⟨-, hfirst⟩ | hnew
      · exact .inl hfirst.symm
      · exact .inr ⟨⟨by rw [isCommented_firstLine, hcomment], hnew.not_harmless⟩, hnew.pinPlaces_lt⟩
    refine eq_of_count_le hchanges fun l hl => ?_
    -- What is not harmless was not added behind the pin.
    calc (comments text).count l ≤ (splitChar '\n' (updateTo line target text)).count l :=
          hsub.count_le l
      _ ≤ (splitChar '\n' (withPin hline text)).count l := hkeeps.added l hl.1 hl.2
      _ = (comments (withPin hline text)).count l := (List.count_filter hl.1).symm
  · intro hsame
    rw [hsame]
    exact hkeeps.kept

/-- An update to a target without a number that is too long keeps all lines that are commented out, in
their order, exactly if every call for Rails that begins on one of them is the pin of the release. The
target may belong to no release. -/
theorem update_comments_iff {target : String} (htarget : Version.overlong? target = none)
    (text : List Char) : ∃ result, update target text = .ok result ∧
      (comments text <+ splitChar '\n' result ↔ ∀ line, releaseLine? target = some line →
        ∀ call : RailsCall, OnComment call.text text →
          call.text = "gem 'rails', '".toList ++ line.railsPin.toList ++ "'".toList) := by
  refine ⟨updated target text, by rw [update, htarget], ?_⟩
  unfold updated
  cases hrelease : releaseLine? target with
  | none => exact iff_of_true List.filter_sublist fun line hline => by cases hline
  | some line =>
    have hline : line ∈ releaseLines := List.mem_of_find?_eq_some hrelease
    rw [comments_sublist_iff hline target text, ← text_pinOf hline]
    refine ⟨fun h line' hline' => ?_, fun h => h line rfl⟩
    rw [← Option.some.inj hline']
    exact h

/-- A call for Rails that is commented out is pinned like any other. -/
theorem update_commentedCall :
    update "7.0.0" "ruby '3.0.0'\n# gem 'rails', '~> 5.2'\n".toList =
      .ok "ruby '3.0.0'\n# gem 'rails', '~> 7.0.0'\n".toList ∧
    ¬ comments "ruby '3.0.0'\n# gem 'rails', '~> 5.2'\n".toList <+
      splitChar '\n' "ruby '3.0.0'\n# gem 'rails', '~> 7.0.0'\n".toList := by
  decide +kernel

theorem update_comments_iff_kept : Version.overlong? "7.0.0" = none ∧
    ∃ result, update "7.0.0" "\t# old\ngem 'rails', '5.2'\n  # rails".toList = .ok result ∧
      comments "\t# old\ngem 'rails', '5.2'\n  # rails".toList <+ splitChar '\n' result := by
  have htarget : Version.overlong? "7.0.0" = none := by decide
  obtain ⟨result, hupdate, hiff⟩ :=
    update_comments_iff htarget "\t# old\ngem 'rails', '5.2'\n  # rails".toList
  refine ⟨htarget, result, hupdate, hiff.mpr fun line _ call hcall => ?_⟩
  -- No call begins on a line without its first letter.
  obtain ⟨l, hl, hmem⟩ := OnComment.exists_comment hcall (by decide)
  have hnone : ∀ l ∈ comments "\t# old\ngem 'rails', '5.2'\n  # rails".toList, 'g' ∉ l := by decide
  exact absurd hmem (hnone l hl)

end RailsUpgrade.Gemfile
