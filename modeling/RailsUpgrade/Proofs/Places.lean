import RailsUpgrade.Proofs.Comments

/-!
# `RailsUpgrade.Proofs.Places`: how often a line has something, and passes over lines

* `Text.places`: how many places of a text begin with something; `Text.inFront` counts those in the first
  of two parts (`places_append`);
* `Text.IsOpaque`, `Text.IsSolid`: words that cannot reach from one part of a text into the next;
* `Pass.chunks`: what holds of a pass because of each replacement and of the rest behind it;
* `Pass.single`: a pass that can swap at one place only;
* `Pass.forall₂_lines`: a pass that swaps parts of lines works on the lines of a text on their own.
-/

set_option autoImplicit false

namespace RailsUpgrade

namespace Text

/-! ### Counting places -/

/-- How many places of a text begin with something. -/
@[grind =] def places (p : List Char → Bool) : List Char → Nat
  | [] => 0
  | c :: s => (if p (c :: s) then 1 else 0) + places p s

/-- How many places of a text that goes on with `s` begin with something. -/
@[grind =] def inFront (p : List Char → Bool) : (a s : List Char) → Nat
  | [], _ => 0
  | c :: a, s => (if p (c :: (a ++ s)) then 1 else 0) + inFront p a s

section

variable {p : List Char → Bool} {a b s s' : List Char}

theorem places_append (p : List Char → Bool) (a s : List Char) :
    places p (a ++ s) = inFront p a s + places p s := by
  induction a with
  | nil => rw [List.nil_append, inFront, Nat.zero_add]
  | cons c a ih => rw [List.cons_append, places, inFront, ih, Nat.add_assoc]

theorem inFront_append (p : List Char → Bool) (a b s : List Char) :
    inFront p (a ++ b) s = inFront p a (b ++ s) + inFront p b s := by
  have h := places_append p (a ++ b) s
  rw [List.append_assoc, places_append, places_append] at h
  omega

theorem places_le_append (p : List Char → Bool) (a s : List Char) : places p s ≤ places p (a ++ s) := by
  rw [places_append]
  exact Nat.le_add_left _ _

theorem inFront_le {q : List Char → Bool}
    (h : ∀ t, t <:+ a → t ≠ [] → p (t ++ s) = true → q (t ++ s') = true) :
    inFront p a s ≤ inFront q a s' := by
  induction a with
  | nil => exact Nat.le_refl _
  | cons c a ih =>
    have hfirst : p (c :: (a ++ s)) = true → q (c :: (a ++ s')) = true :=
      h (c :: a) (List.suffix_refl _) (by simp)
    rw [inFront, inFront]
    refine Nat.add_le_add ?_ (ih fun t ht => h t (ht.trans (List.suffix_cons c a)))
    split
    · rename_i hp
      rw [if_pos (hfirst hp)]
    · exact Nat.zero_le _

theorem inFront_congr (h : ∀ t, t <:+ a → t ≠ [] → p (t ++ s) = p (t ++ s')) :
    inFront p a s = inFront p a s' :=
  Nat.le_antisymm (inFront_le fun t ht hne hp => by rwa [← h t ht hne])
    (inFront_le fun t ht hne hp => by rwa [h t ht hne])

theorem inFront_eq_zero (h : ∀ t, t <:+ a → t ≠ [] → p (t ++ s) = false) : inFront p a s = 0 := by
  induction a with
  | nil => rfl
  | cons c a ih =>
    have hfirst : p (c :: (a ++ s)) = false := h (c :: a) (List.suffix_refl _) (by simp)
    rw [inFront, hfirst, ih fun t ht => h t (ht.trans (List.suffix_cons c a))]
    rfl

theorem places_eq_inFront (p : List Char → Bool) (a : List Char) : places p a = inFront p a [] := by
  have h := places_append p a []
  rwa [List.append_nil, places, Nat.add_zero] at h

theorem places_pos (hs : p s = true) (hne : s ≠ []) (lead : List Char) : 1 ≤ places p (lead ++ s) := by
  refine Nat.le_trans ?_ (places_le_append p lead s)
  obtain ⟨c, s, rfl⟩ := List.exists_cons_of_ne_nil hne
  rw [places, if_pos hs]
  exact Nat.le_add_right _ _

/-- If something is nowhere but at one place, then it is there. -/
theorem only_place {lead : List Char} {c : Char} (hfront : inFront p a (c :: b) = 0)
    (hback : places p b = 0) (heq : a ++ c :: b = lead ++ s) (hs : p s = true) (hne : s ≠ []) :
    lead = a := by
  rcases List.append_eq_append_iff.mp heq with ⟨m, rfl, hm⟩ | ⟨m, rfl, rfl⟩
  · cases m with
    | nil => rw [List.append_nil]
    | cons x m =>
      have hsplit : b = m ++ s := (List.cons_eq_cons.mp hm).2
      have hpos := places_pos hs hne m
      rw [← hsplit, hback] at hpos
      omega
  · cases m with
    | nil => rw [List.append_nil]
    | cons x m =>
      rw [inFront_append, inFront, if_pos (show p (x :: (m ++ c :: b)) = true from hs)] at hfront
      omega

/-- What is at one place at most, and is here, is nowhere else. -/
theorem nowhere_else {c : Char} (hone : places p (a ++ c :: b) ≤ 1) (hp : p (c :: b) = true) :
    inFront p a (c :: b) = 0 ∧ places p b = 0 := by
  rw [places_append, places, if_pos hp] at hone
  omega

/-- If something is at one place at most, then at one place. -/
theorem eq_of_places_le_one {line lead lead' : List Char} (hone : places p line ≤ 1)
    (heq : line = lead ++ s) (heq' : line = lead' ++ s') (hs : p s = true) (hs' : p s' = true)
    (hne : s ≠ []) (hne' : s' ≠ []) : lead = lead' := by
  obtain ⟨c, s, rfl⟩ := List.exists_cons_of_ne_nil hne
  obtain ⟨hfront, hback⟩ := nowhere_else (heq ▸ hone) hs
  exact (only_place hfront hback (heq.symm.trans heq') hs' hne').symm

end

/-! ### Words at the border of two parts -/

/-- Nothing but all of a word reaches into a text that begins with `front`. -/
def IsOpaque (w front : List Char) : Prop :=
  ∀ u ∈ w.tail.tails, u ≠ [] → ¬ u <+: front ∧ ¬ front <+: u

/-- A word that begins in a text ends in it. -/
def IsSolid (w a : List Char) : Prop := ∀ t ∈ a.tails, t ≠ [] → t <+: w → t = w

instance (w front : List Char) : Decidable (IsOpaque w front) :=
  inferInstanceAs (Decidable (∀ u ∈ w.tail.tails, u ≠ [] → ¬ u <+: front ∧ ¬ front <+: u))

instance (w a : List Char) : Decidable (IsSolid w a) :=
  inferInstanceAs (Decidable (∀ t ∈ a.tails, t ≠ [] → t <+: w → t = w))

section

variable {w a t front s : List Char}

/-- A word that begins in front of an opaque text ends there. -/
theorem IsOpaque.ends (h : IsOpaque w front) (ht : t ≠ []) (hw : w <+: t ++ (front ++ s)) : w <+: t := by
  rcases prefix_append_cases hw with hw | ⟨u, rfl, hu⟩
  · exact hw
  · by_cases hnil : u = []
    · rw [hnil, List.append_nil]
    · obtain ⟨x, t, rfl⟩ := List.exists_cons_of_ne_nil ht
      have hmem : u ∈ ((x :: t) ++ u).tail.tails := by
        rw [List.mem_tails]
        exact List.suffix_append t u
      obtain ⟨hshort, hlong⟩ := h u hmem hnil
      rcases List.prefix_or_prefix_of_prefix hu (List.prefix_append front s) with hu | hu
      · exact absurd hu hshort
      · exact absurd hu hlong

theorem IsSolid.ends (h : IsSolid w a) (hsuffix : t <:+ a) (ht : t ≠ []) (hw : w <+: t ++ s) : w <+: t := by
  rcases prefix_append_cases hw with hw | ⟨u, rfl, -⟩
  · exact hw
  · have hsame := h t ((List.mem_tails _ _).mpr hsuffix) ht (List.prefix_append t u)
    rw [← hsame]

theorem isPrefixOf_append (h : w <+: t ++ s → w <+: t) : w.isPrefixOf (t ++ s) = w.isPrefixOf t := by
  rw [Bool.eq_iff_iff, List.isPrefixOf_iff_prefix, List.isPrefixOf_iff_prefix]
  exact ⟨h, fun hw => hw.trans (List.prefix_append t s)⟩

theorem IsOpaque.inFront_eq (h : IsOpaque w front) (a s : List Char) :
    inFront w.isPrefixOf a (front ++ s) = places w.isPrefixOf a := by
  rw [places_eq_inFront]
  refine inFront_congr fun t _ ht => ?_
  rw [List.append_nil]
  exact isPrefixOf_append (h.ends ht)

theorem IsSolid.inFront_eq (h : IsSolid w a) (s : List Char) :
    inFront w.isPrefixOf a s = places w.isPrefixOf a := by
  rw [places_eq_inFront]
  refine inFront_congr fun t hsuffix ht => ?_
  rw [List.append_nil]
  exact isPrefixOf_append (h.ends hsuffix ht)

/-- What stands in front makes no word disappear. -/
theorem places_add_le (w a s : List Char) :
    places w.isPrefixOf a + places w.isPrefixOf s ≤ places w.isPrefixOf (a ++ s) := by
  rw [places_append, places_eq_inFront w.isPrefixOf a]
  refine Nat.add_le_add_right (inFront_le fun t _ _ hw => ?_) _
  rw [List.append_nil, List.isPrefixOf_iff_prefix] at hw
  exact List.isPrefixOf_iff_prefix.mpr (hw.trans (List.prefix_append t s))

theorem places_eq_zero_iff (hne : w ≠ []) : places w.isPrefixOf s = 0 ↔ ¬ w <:+: s := by
  constructor
  · rintro hzero ⟨lead, rest, rfl⟩
    have hpos := places_pos (p := w.isPrefixOf) (s := w ++ rest)
      (List.isPrefixOf_iff_prefix.mpr (List.prefix_append _ _)) (by simp [hne]) lead
    rw [← List.append_assoc] at hpos
    omega
  · intro hnot
    rw [places_eq_inFront]
    refine inFront_eq_zero fun t ht _ => ?_
    rw [List.append_nil, ← Bool.not_eq_true, List.isPrefixOf_iff_prefix]
    exact fun hw => hnot (hw.isInfix.trans ht.isInfix)

theorem places_pos_iff (hne : w ≠ []) : 1 ≤ places w.isPrefixOf s ↔ w <:+: s := by
  rw [Nat.one_le_iff_ne_zero, ne_eq, places_eq_zero_iff hne, not_not]

/-- A text that lacks the first character of a word has it nowhere. -/
theorem inFront_of_notMem {x : Char} {w : List Char} (h : x ∉ a) (s : List Char) :
    inFront (x :: w).isPrefixOf a s = 0 := by
  refine inFront_eq_zero fun t ht hne => ?_
  obtain ⟨y, t, rfl⟩ := List.exists_cons_of_ne_nil hne
  rw [← Bool.not_eq_true, List.isPrefixOf_iff_prefix]
  intro hw
  obtain ⟨rfl, -⟩ := List.cons_prefix_cons.mp hw
  exact h (ht.subset List.mem_cons_self)

end

/-! ### The first line and the later ones -/

theorem firstLine_break (s : List Char) : firstLine ('\n' :: s) = [] := rfl

theorem laterLines_break (s : List Char) : laterLines ('\n' :: s) = firstLine s :: laterLines s := by
  rw [laterLines, behindBreaks, if_pos rfl, List.map_cons, laterLines]

theorem firstLine_cons {x : Char} (hx : x ≠ '\n') (s : List Char) :
    firstLine (x :: s) = x :: firstLine s :=
  firstLine_append (show '\n' ∉ [x] by simpa using hx.symm) s

theorem laterLines_append {line : List Char} (hline : '\n' ∉ line) (s : List Char) :
    laterLines (line ++ s) = laterLines s := by
  rw [laterLines, behindBreaks_append, behindBreaks_of_notMem hline]
  rfl

theorem break_notMem_firstLine (s : List Char) : '\n' ∉ firstLine s := fun hmem => by
  simpa using List.mem_takeWhile_imp hmem

end Text

namespace Pattern

open Text (StartsBreak firstLine laterLines firstLine_break firstLine_cons laterLines_break laterLines_append
  break_notMem_firstLine)

variable {swap : Swap} {before text result : List Char}

/-! ### Passes -/

/-- What holds of texts that a pass leaves alone, and of a replacement and what stands in front of it if
it holds of the rest, holds of all passes. -/
theorem Pass.chunks {motive : (text result : List Char) → Prop} (h : Pass swap before text result)
    (same : ∀ s, motive s s)
    (hit : ∀ {before taken after new result} (lead : List Char), swap before taken after new →
      motive after result → motive (lead ++ (taken ++ after)) (lead ++ (new ++ result))) :
    motive text result := by
  have hlead : ∀ lead, motive (lead ++ text) (lead ++ result) := by
    induction h with
    | done => exact fun lead => same _
    | @keep before rest result x _ _ ih =>
      intro lead
      simpa using ih (lead ++ [x])
    | hit _ swapped _ ih => exact fun lead => hit lead swapped (by simpa using ih [])
  simpa using hlead []

/-- A pass that can swap at one place only leaves its text alone, or swaps there and nowhere else. -/
theorem Pass.single (h : Pass swap before text result)
    (hone : ∀ {lead taken after new lead' taken' after' new'}, text = lead ++ (taken ++ after) →
      swap (lead.reverse ++ before) taken after new → text = lead' ++ (taken' ++ after') →
      swap (lead'.reverse ++ before) taken' after' new' → lead = lead') :
    (result = text ∧ ∀ lead taken after new, text = lead ++ (taken ++ after) → taken ≠ [] →
      ¬ swap (lead.reverse ++ before) taken after new) ∨
    ∃ lead taken after new, text = lead ++ (taken ++ after) ∧
      swap (lead.reverse ++ before) taken after new ∧ result = lead ++ (new ++ after) := by
  induction h with
  | done before =>
    refine .inl ⟨rfl, fun lead taken after new htext hne => ?_⟩
    exact absurd (List.append_eq_nil_iff.mp (List.append_eq_nil_iff.mp htext.symm).2).1 hne
  | @keep before rest result x idle _ ih =>
    have hrest : ∀ {lead taken after new lead' taken' after' new'}, rest = lead ++ (taken ++ after) →
        swap (lead.reverse ++ (x :: before)) taken after new → rest = lead' ++ (taken' ++ after') →
        swap (lead'.reverse ++ (x :: before)) taken' after' new' → lead = lead' := by
      intro lead taken after new lead' taken' after' new' heq hswap heq' hswap'
      have hplace : x :: rest = (x :: lead) ++ (taken ++ after) := by rw [heq]; rfl
      have hplace' : x :: rest = (x :: lead') ++ (taken' ++ after') := by rw [heq']; rfl
      exact (List.cons_eq_cons.mp
        (hone hplace (by simpa using hswap) hplace' (by simpa using hswap'))).2
    rcases ih hrest with ⟨rfl, hnone⟩ | ⟨lead, taken, after, new, rfl, hswap, rfl⟩
    · refine .inl ⟨rfl, fun lead taken after new htext hne hswap => ?_⟩
      cases lead with
      | nil => exact idle taken after new htext hswap
      | cons y lead =>
        obtain ⟨rfl, hrest⟩ := List.cons_eq_cons.mp htext
        exact hnone lead taken after new hrest hne (by simpa using hswap)
    · exact .inr ⟨x :: lead, taken, after, new, rfl, by simpa using hswap, rfl⟩
  | @hit before taken after new result takes swapped more _ =>
    -- Behind the first place there is no other one.
    have hsame : result = after := by
      refine more.eq_self fun lead taken' after' new' htext hswap => ?_
      have hfirst : taken ++ after = [] ++ (taken ++ after) := rfl
      have hsecond : taken ++ after = (taken ++ lead) ++ (taken' ++ after') := by
        rw [htext, List.append_assoc]
      have hlead := hone hfirst swapped hsecond (by simpa using hswap)
      exact absurd (List.append_eq_nil_iff.mp hlead.symm).1 takes
    exact .inr ⟨[], taken, after, new, rfl, swapped, by rw [hsame]; rfl⟩

/-! ### Passes over lines -/

/-- What may be swapped does not depend on what stands in front. -/
def Swap.Free (swap : Swap) : Prop :=
  ∀ {before taken after new}, swap before taken after new → ∀ before', swap before' taken after new

theorem Pass.free (h : Pass swap before text result) (hfree : swap.Free) (before' : List Char) :
    Pass swap before' text result := by
  induction h generalizing before' with
  | done => exact .done before'
  | keep idle _ ih =>
    exact .keep (fun taken after new htext hswap => idle taken after new htext (hfree hswap _)) (ih _)
  | hit takes swapped _ ih => exact .hit takes (hfree swapped _) (ih _)

/-- All that may be swapped in a text stands on one line, and may be swapped there if the text ends with
this line. -/
structure Swap.OnLines (swap : Swap) (text : List Char) : Prop where
  solid : ∀ {lead taken after new}, text = lead ++ (taken ++ after) → swap [] taken after new →
    '\n' ∉ taken ∧ '\n' ∉ new
  ends : ∀ {lead taken after new}, text = lead ++ (taken ++ after) → swap [] taken after new →
    swap [] taken (firstLine after) new

/-- What may be swapped at the end of a text may be swapped if other lines follow. -/
def Swap.Extends (swap : Swap) : Prop :=
  ∀ {before taken line behind new}, swap before taken line new → '\n' ∉ line → StartsBreak behind →
    swap before taken (line ++ behind) new

theorem Swap.OnLines.of_suffix {s : List Char} (h : swap.OnLines text) (hs : s <:+ text) :
    swap.OnLines s := by
  obtain ⟨front, rfl⟩ := hs
  have hlonger : ∀ {lead taken after : List Char}, s = lead ++ (taken ++ after) →
      front ++ s = (front ++ lead) ++ (taken ++ after) := by
    intro lead taken after htext
    rw [htext, List.append_assoc]
  exact ⟨fun htext hswap => h.solid (hlonger htext) hswap,
    fun htext hswap => h.ends (hlonger htext) hswap⟩

/-- A pass that swaps parts of lines works on the lines of a text on their own. -/
theorem Pass.forall₂_lines (h : Pass swap before text result) (hfree : swap.Free)
    (hextends : swap.Extends) (hlines : swap.OnLines text) :
    List.Forall₂ (Pass swap []) (Text.splitChar '\n' text) (Text.splitChar '\n' result) := by
  have hsplit : Pass swap before (firstLine text) (firstLine result) ∧
      List.Forall₂ (Pass swap []) (laterLines text) (laterLines result) := by
    induction h with
    | done before => exact ⟨.done before, .nil⟩
    | @keep before rest result x idle more ih =>
      obtain ⟨hfirst, hlater⟩ := ih (hlines.of_suffix (List.suffix_cons x rest))
      by_cases hx : x = '\n'
      · subst hx
        rw [firstLine_break, firstLine_break, laterLines_break, laterLines_break]
        exact ⟨.done before, .cons (hfirst.free hfree []) hlater⟩
      · have hline : '\n' ∉ [x] := by simpa using Ne.symm hx
        rw [firstLine_cons hx, firstLine_cons hx]
        refine ⟨.keep (fun taken after new htext hswap => ?_) hfirst, ?_⟩
        · -- What could be swapped on the line could be swapped in the text.
          have hsolid : '\n' ∉ x :: firstLine rest := by
            rw [List.mem_cons, not_or]
            exact ⟨fun h => hx h.symm, break_notMem_firstLine rest⟩
          rw [htext, List.mem_append, not_or] at hsolid
          refine idle taken (after ++ rest.dropWhile (· != '\n')) new ?_
            (hextends hswap hsolid.2 (Text.startsBreak_dropWhile rest))
          rw [← List.append_assoc, ← htext, List.cons_append]
          exact congrArg (x :: ·) List.takeWhile_append_dropWhile.symm
        · have hlater' : ∀ s, laterLines (x :: s) = laterLines s := laterLines_append hline
          rw [hlater', hlater']
          exact hlater
    | @hit before taken after new result takes swapped more ih =>
      obtain ⟨hfirst, hlater⟩ := ih (hlines.of_suffix (List.suffix_append taken after))
      have hplace : taken ++ after = [] ++ (taken ++ after) := rfl
      obtain ⟨htaken, hnew⟩ := hlines.solid hplace (hfree swapped [])
      have hends := hlines.ends hplace (hfree swapped [])
      rw [Text.firstLine_append htaken, Text.firstLine_append hnew, laterLines_append htaken,
        laterLines_append hnew]
      exact ⟨.hit takes (hfree hends before) hfirst, hlater⟩
  rw [Text.splitChar_eq_cons, Text.splitChar_eq_cons]
  exact .cons (hsplit.1.free hfree []) hsplit.2

end Pattern

end RailsUpgrade
