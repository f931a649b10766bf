import Mathlib.Data.List.Infix
import RailsUpgrade.Proofs.Replacing

/-!
# `RailsUpgrade.Proofs.Framed`: passes that leave nothing to do

Most patterns ask for a text and, at most, for one character less on either side of it. `framed` is
the swap of such a pattern: `shape` says what is put in place of what, and two sets say which
character must not stand right before it or right behind it.

* `swaps_framed`: what a pattern needs for its swap to be a framed one;
* `Meets`: two texts agree as far as both go, so they may begin at one place of a text;
* `Pass.of_append`: a pass has kept what no replacement can begin in;
* `Pass.past`: a pass keeps a character that nothing is swapped for;
* `Pass.settles`: a second pass changes nothing if it finds nothing new at the characters that were
  kept, and passes over what was put in;
* `Settling`: what a shape needs for this. No replacement begins inside what is taken, and what may
  begin in a replacement is all of it and is swapped for itself;
* `Settling.replaceAll_replaceAll`: then replacing all matches twice is replacing them once;
* `settling_listed`: for fixed texts this can be checked.
-/

set_option autoImplicit false

namespace RailsUpgrade.Pattern

/-! ### What a match takes -/

/-- What a match takes is read from the text, if no group was set before. -/
theorem reads_match {e : Expr} {m : Match} (hnone : m.first.groups = [])
    (hlast : m.last ∈ e.ends m.first) :
    m.first.Takes m.text m.last ∧
      ∃ g, e.Reads [] m.text g ∧ ∀ i, m.group i = (g.lookup i).getD [] := by
  obtain ⟨s, hs, hread⟩ := reads_of_mem_ends e hlast
  have htexts : m.first.texts = [] := by rw [Cursor.texts, hnone]; rfl
  have htext : m.text = s := hs.textTo
  rw [htext]
  refine ⟨hs, m.last.texts, by rwa [htexts] at hread, fun i => ?_⟩
  rw [Cursor.lookup_texts, Match.group]

/-- A pattern is found wherever it can take something. -/
theorem found_of_canTake {e : Expr} {lead s after : List Char}
    (h : e.CanTake lead.reverse s after) : e.found (lead ++ (s ++ after)) = true := by
  obtain ⟨c', hc', -⟩ := h { before := lead.reverse, after := s ++ after, pos := lead.length } rfl rfl
  exact found_of_ends (List.ne_nil_of_mem hc')

/-! ### Framed swaps -/

/-- `shape` relates what is taken and what is put in its place. Right before it no `p` may stand, and
right behind it no `q`. -/
def framed (p q : Char → Bool) (shape : List Char → List Char → Prop) : Swap :=
  fun before taken after new =>
    shape taken new ∧ before.head?.any p = false ∧ after.head?.any q = false

/-- No character at all. -/
def noChar : Char → Bool := fun _ => false

@[simp] theorem any_noChar (x : Option Char) : x.any noChar = false := by
  cases x <;> rfl

section

variable {e : Expr} {f : Match → List Char} {p q : Char → Bool}
  {shape : List Char → List Char → Prop}

/-- What a pattern needs for its swap to be a framed one. The pattern may be given in a form that is
easier to read. -/
theorem swaps_framed {e' : Expr} (hexpr : e = e')
    (hsound : ∀ m : Match, m.first.groups = [] → m.last ∈ e'.ends m.first →
      shape m.text (f m) ∧ m.first.before.head?.any p = false ∧ m.last.after.head?.any q = false)
    (hne : ∀ taken new, shape taken new → taken ≠ [])
    (hcan : ∀ before taken after new, framed p q shape before taken after new →
      e'.CanTake before taken after) : e.Swaps f (framed p q shape) := by
  subst hexpr
  constructor
  · intro before after pos c hc
    have hlast := List.mem_of_head? hc
    obtain ⟨htakes, -⟩ := reads_match (m := ⟨{ before, after, pos }, c⟩) rfl hlast
    have hframed := hsound ⟨{ before, after, pos }, c⟩ rfl hlast
    exact ⟨_, hne _ _ hframed.1, htakes, hframed⟩
  · intro before taken after new pos hswap
    obtain ⟨c', hc', -⟩ := hcan before taken after new hswap { before, after := taken ++ after, pos }
      rfl rfl
    exact List.ne_nil_of_mem hc'

end

/-- Where replacing all matches changes a text, something is swapped for something else. -/
theorem exists_swap_of_ne {e : Expr} {f : Match → List Char} {swap : Swap} (h : e.Swaps f swap)
    {text : List Char} (hne : e.replaceAll f text ≠ text) : ∃ lead taken after new,
      text = lead ++ (taken ++ after) ∧ swap lead.reverse taken after new ∧ new ≠ taken := by
  by_contra hnone
  refine hne ((pass_replaceAll h text).eq_self fun lead taken after new htext hswap => ?_)
  by_contra hnew
  exact hnone ⟨lead, taken, after, new, htext, by simpa using hswap, hnew⟩

/-- Where replacing all matches changes a text, the pattern is found. -/
theorem found_of_replaceAll_ne {e : Expr} {f : Match → List Char} {text : List Char}
    (hne : e.replaceAll f text ≠ text) : e.found text = true := by
  by_contra hnone
  -- Without a match no text is related to anything but itself.
  refine hne (@replaceAll_rel e f text (· = ·) (fun _ => rfl) (fun _ _ _ _ => by rintro rfl rfl; rfl)
    fun m hit => ?_).symm
  obtain ⟨before, after, rfl, hfirst⟩ := hit.first
  have hends := List.ne_nil_of_mem hit.last
  rw [hfirst] at hends
  exact absurd (found_of_ends hends) hnone

/-! ### Texts that may begin at one place -/

/-- Two texts agree as far as both go. -/
def Meets (s t : List Char) : Prop := s <+: t ∨ t <+: s

instance (s t : List Char) : Decidable (Meets s t) := inferInstanceAs (Decidable (_ ∨ _))

section

variable {s t r m : List Char}

theorem meets_of_append_eq (h : s ++ r = t ++ m) : Meets s t :=
  List.prefix_or_prefix_of_prefix (List.prefix_append s r) (h ▸ List.prefix_append t m)

theorem Meets.of_append (h : Meets (s ++ r) (t ++ m)) : Meets s t :=
  h.elim
    (fun h => List.prefix_or_prefix_of_prefix ((List.prefix_append s r).trans h)
      (List.prefix_append t m))
    (fun h => List.prefix_or_prefix_of_prefix (List.prefix_append s r)
      ((List.prefix_append t m).trans h))

/-- A text in which another one does not even begin. -/
theorem not_meets_cons {x : Char} (hx : x ∉ s) (hs : s ≠ []) : ¬ Meets s (x :: t) := by
  obtain ⟨y, s, rfl⟩ := List.exists_cons_of_ne_nil hs
  have hne : x ≠ y := fun h => hx (h ▸ List.mem_cons_self)
  rintro (h | h)
  · exact hne (List.cons_prefix_cons.mp h).1.symm
  · exact hne (List.cons_prefix_cons.mp h).1

/-- Of the characters of one kind, both texts have the same one first. -/
theorem Meets.find?_eq {p : Char → Bool} {x y : Char} (h : Meets s t) (hs : s.find? p = some x)
    (ht : t.find? p = some y) : x = y := by
  rcases h with h | h
  · exact Option.some.inj ((h.find?_eq_some hs).symm.trans ht)
  · exact Option.some.inj (hs.symm.trans (h.find?_eq_some ht))

end

section

variable {s t u tail : List Char}

/-- A text that ends another one ends its last part, or begins before it. -/
theorem suffix_append_cases (h : tail <:+ s ++ t) :
    tail <:+ t ∨ ∃ u, u <:+ s ∧ u ≠ [] ∧ tail = u ++ t := by
  obtain ⟨lead, h⟩ := h
  rcases List.append_eq_append_iff.mp h with ⟨u, rfl, rfl⟩ | ⟨u, rfl, rfl⟩
  · by_cases hu : u = []
    · subst hu
      exact .inl (by simp)
    · exact .inr ⟨u, List.suffix_append _ _, hu, rfl⟩
  · exact .inl (List.suffix_append _ _)

/-- No text begins behind the only place where its first character stands. -/
theorem not_meets_suffix {x : Char} (hx : x ∉ s) (htail : tail <:+ s) (hne : tail ≠ []) :
    ¬ Meets tail (x :: t) :=
  not_meets_cons (fun hmem => hx (htail.subset hmem)) hne

theorem not_meets_append {x : Char} (hx : x ∉ s) (htail : tail <:+ s) (hne : tail ≠ [])
    (more : List Char) : ¬ Meets (tail ++ more) (x :: t) := fun h =>
  not_meets_suffix (t := []) hx htail hne (Meets.of_append (s := tail) (t := [x]) h)

theorem meets_cancel (h : Meets (s ++ t) (s ++ u)) : Meets t u :=
  h.imp (List.prefix_append_right_inj s).mp (List.prefix_append_right_inj s).mp

/-- What meets a text that begins with a character is all of a text that has it in front only. -/
theorem eq_of_meets_cons {x : Char} (hx : x ∉ s) (htail : tail <:+ x :: s) (hne : tail ≠ [])
    (h : Meets tail (x :: t)) : tail = x :: s :=
  (List.suffix_cons_iff.mp htail).resolve_right fun htail => not_meets_suffix hx htail hne h

theorem exists_of_meets (h : Meets s t) : ∃ r m, s ++ r = t ++ m := by
  rcases h with ⟨r, h⟩ | ⟨m, h⟩
  · exact ⟨r, [], by rw [h, List.append_nil]⟩
  · exact ⟨[], m, by rw [h, List.append_nil]⟩

end

/-! ### What a pass keeps -/

namespace Pass

variable {swap swap' : Swap} {before before' text result result' : List Char}

/-- A pass has kept what no replacement can begin in. -/
theorem of_append {s more : List Char} (h : Pass swap before text (s ++ more))
    (hapart : ∀ before taken after new, swap before taken after new →
      ∀ tail, tail <:+ s → tail ≠ [] → ¬ Meets tail new) :
    ∃ rest, text = s ++ rest ∧ Pass swap (s.reverse ++ before) rest more := by
  induction s generalizing before text with
  | nil => exact ⟨text, rfl, h⟩
  | cons x s ih =>
    generalize hresult : (x :: s) ++ more = result at h
    cases h with
    | done => cases hresult
    | keep _ hmore =>
      obtain ⟨rfl, rfl⟩ := List.cons_eq_cons.mp hresult
      obtain ⟨rest, rfl, hpass⟩ := ih hmore fun before taken after new hswap tail htail =>
        hapart before taken after new hswap tail (htail.trans (List.suffix_cons x s))
      exact ⟨rest, rfl, by simpa using hpass⟩
    | hit _ hswap _ =>
      exact absurd (meets_of_append_eq hresult)
        (hapart _ _ _ _ hswap _ (List.suffix_refl _) (by simp))

/-- If what is taken and what is put in begin alike, then so do the text and the result. -/
theorem any_head {q : Char → Bool} (h : Pass swap before text result)
    (hq : ∀ before taken after new, swap before taken after new →
      new ≠ [] ∧ taken.head?.any q = new.head?.any q) :
    text.head?.any q = result.head?.any q := by
  cases h with
  | done => rfl
  | keep => rfl
  | hit takes swapped _ =>
    obtain ⟨hne, halike⟩ := hq _ _ _ _ swapped
    obtain ⟨x, s, rfl⟩ := List.exists_cons_of_ne_nil takes
    obtain ⟨y, t, rfl⟩ := List.exists_cons_of_ne_nil hne
    exact halike

/-- A pass makes a character only out of the same one. -/
theorem mem_of_mem {x : Char} (h : Pass swap before text result)
    (hswap : ∀ before taken after new, swap before taken after new → x ∈ new → x ∈ taken)
    (hx : x ∈ result) : x ∈ text := by
  induction h with
  | done => exact hx
  | keep _ _ ih =>
    rw [List.mem_cons] at hx ⊢
    exact hx.imp_right ih
  | hit _ swapped _ ih =>
    rw [List.mem_append] at hx ⊢
    exact hx.imp (hswap _ _ _ _ swapped) ih

/-- A pass keeps a character that nothing is swapped for, and goes on behind it. -/
theorem past {x : Char} {part rest : List Char} (h : Pass swap before (part ++ x :: rest) result)
    (hswap : ∀ before taken after new, swap before taken after new → x ∉ taken) :
    ∃ part' rest', result = part' ++ x :: rest' ∧
      Pass swap ((part ++ [x]).reverse ++ before) rest rest' ∧
      ((∀ before taken after new, swap before taken after new → x ∉ new) → x ∉ part → x ∉ part') := by
  generalize htext : part ++ x :: rest = text at h
  induction h generalizing part with
  | done => simp at htext
  | @keep before more result y _ hmore ih =>
    cases part with
    | nil =>
      obtain ⟨rfl, rfl⟩ := List.cons_eq_cons.mp htext
      exact ⟨[], result, rfl, hmore, fun _ h => h⟩
    | cons z part =>
      obtain ⟨rfl, hrest⟩ := List.cons_eq_cons.mp htext
      obtain ⟨part', rest', rfl, hpass, hnot⟩ := ih hrest
      refine ⟨z :: part', rest', rfl, by simpa using hpass, fun hnew hpart => ?_⟩
      rw [List.mem_cons, not_or] at hpart ⊢
      exact ⟨hpart.1, hnot hnew hpart.2⟩
  | @hit before taken after new result _ swapped hmore ih =>
    -- The character stands behind what is taken.
    obtain ⟨part, rfl, hafter⟩ : ∃ more, part = taken ++ more ∧ more ++ x :: rest = after := by
      rcases List.append_eq_append_iff.mp htext with ⟨more, rfl, hrest⟩ | ⟨more, rfl, rfl⟩
      · cases more with
        | nil => exact ⟨[], by simp, by simpa using hrest⟩
        | cons y more =>
          obtain ⟨rfl, -⟩ := List.cons_eq_cons.mp hrest
          exact absurd (by simp) (hswap _ _ _ _ swapped)
      · exact ⟨more, rfl, rfl⟩
    obtain ⟨part', rest', rfl, hpass, hnot⟩ := ih hafter
    refine ⟨new ++ part', rest', by simp, by simpa using hpass, fun hnew hpart => ?_⟩
    rw [List.mem_append, not_or] at hpart ⊢
    exact ⟨hnew _ _ _ _ swapped, hnot hnew hpart.2⟩

/-- A second pass changes nothing if it finds nothing at the characters that the first one has kept,
and passes over what the first one has put in. `Alike` relates what precedes a place before and after
the first pass. -/
theorem settles (Alike : List Char → List Char → Prop)
    (halike : ∀ before before' x, Alike before before' → Alike (x :: before) (x :: before'))
    (hkeep : ∀ before before' rest more x, Alike before before' → Pass swap (x :: before) rest more →
      (∀ taken after new, x :: rest = taken ++ after → ¬ swap before taken after new) →
      ∀ taken after new, x :: more = taken ++ after → ¬ swap' before' taken after new)
    (hhit : ∀ before before' taken after new more result', Alike before before' →
      swap before taken after new → Pass swap (taken.reverse ++ before) after more →
      Pass swap' before' (new ++ more) result' →
      Alike (taken.reverse ++ before) (new.reverse ++ before') ∧
        ∃ more', result' = new ++ more' ∧ Pass swap' (new.reverse ++ before') more more')
    (h : Pass swap before text result) (hbefore : Alike before before')
    (hagain : Pass swap' before' result result') : result' = result := by
  induction h generalizing before' result' with
  | done => exact hagain.eq_nil
  | keep idle more ih =>
    obtain ⟨more', rfl, hmore'⟩ := hagain.keeps (hkeep _ _ _ _ _ hbefore more idle)
    rw [ih (halike _ _ _ hbefore) hmore']
  | hit _ swapped more ih =>
    obtain ⟨hafter, more', rfl, hmore'⟩ := hhit _ _ _ _ _ _ _ hbefore swapped more hagain
    rw [ih hafter hmore']

end Pass

/-! ### Shapes that settle -/

/-- What a shape needs so that a pass with its framed swap leaves nothing to do. -/
structure Settling (p q : Char → Bool) (shape : List Char → List Char → Prop) : Prop where
  /-- No text is empty. -/
  taken_ne : ∀ {taken new}, shape taken new → taken ≠ []
  new_ne : ∀ {taken new}, shape taken new → new ≠ []
  /-- The same may stand behind what was taken and what is put in. -/
  lasts : ∀ {taken new}, shape taken new → new.getLast?.any p = taken.getLast?.any p
  /-- The same may stand in front of what was taken and what is put in. -/
  heads : ∀ {taken new}, shape taken new → new.head?.any q = taken.head?.any q
  /-- No replacement begins inside what is taken. -/
  inside : ∀ {taken new taken' new' tail}, shape taken new → shape taken' new' →
    tail <:+ taken.tail → tail ≠ [] → ¬ Meets tail new'
  /-- What begins in a replacement is all of it, and is swapped for itself. -/
  fresh : ∀ {taken new taken' new' tail}, shape taken new → shape taken' new' →
    tail <:+ new → tail ≠ [] → Meets tail taken' → tail = new ∧ taken' = new ∧ new' = new

namespace Settling

variable {p q : Char → Bool} {shape : List Char → List Char → Prop}
  {before before' taken after new rest more result' : List Char} {x : Char}

theorem any_head_append {s : List Char} (hs : s ≠ []) (t : List Char) (q : Char → Bool) :
    (s ++ t).head?.any q = s.head?.any q := by
  obtain ⟨x, s, rfl⟩ := List.exists_cons_of_ne_nil hs
  rfl

/-- What begins at a character that was kept has begun there before. -/
theorem not_framed_of_keep (h : Settling p q shape) (hbefore : before.head?.any p = before'.head?.any p)
    (hpass : Pass (framed p q shape) (x :: before) rest more)
    (hidle : ∀ taken after new, x :: rest = taken ++ after →
      ¬ framed p q shape before taken after new)
    (hmore : x :: more = taken ++ after) : ¬ framed p q shape before' taken after new := by
  rintro ⟨hshape, hleft, hright⟩
  obtain ⟨y, s, rfl⟩ := List.exists_cons_of_ne_nil (h.taken_ne hshape)
  obtain ⟨rfl, rfl⟩ := List.cons_eq_cons.mp hmore
  -- What is taken behind the first character was kept as well.
  obtain ⟨rest', rfl, hpass'⟩ := hpass.of_append fun _ _ _ _ hswap _ htail hne =>
    h.inside hshape hswap.1 htail hne
  have hheads : rest'.head?.any q = after.head?.any q :=
    hpass'.any_head fun _ _ _ _ hswap => ⟨h.new_ne hswap.1, (h.heads hswap.1).symm⟩
  exact hidle (x :: s) rest' new rfl ⟨hshape, hbefore.trans hleft, hheads.trans hright⟩

/-- A pass goes over what was put in. -/
theorem pass_over (h : Settling p q shape) (hshape : shape taken new)
    (hagain : Pass (framed p q shape) before' (new ++ more) result') :
    ∃ more', result' = new ++ more' ∧ Pass (framed p q shape) (new.reverse ++ before') more more' := by
  by_cases hself : ∃ new', framed p q shape before' new more new'
  · -- All of it is found again.
    obtain ⟨new', hswap⟩ := hself
    generalize htext : new ++ more = text at hagain
    cases hagain with
    | done => exact absurd (List.append_eq_nil_iff.mp htext).1 (h.new_ne hshape)
    | keep idle _ => exact absurd hswap (idle _ _ _ htext.symm)
    | hit _ swapped hmore =>
      obtain ⟨-, rfl, rfl⟩ := h.fresh hshape swapped.1 (List.suffix_refl _) (h.new_ne hshape)
        (meets_of_append_eq htext)
      obtain rfl := List.append_cancel_left htext
      exact ⟨_, rfl, hmore⟩
  · refine hagain.skip fun lead tail taken' after' new' hnew hne htext hswap => ?_
    obtain ⟨htail, rfl, rfl⟩ := h.fresh hshape hswap.1 ⟨lead, hnew.symm⟩ hne
      (meets_of_append_eq htext)
    obtain rfl : lead = [] := by rwa [← htail, List.self_eq_append_left] at hnew
    rw [htail] at htext
    obtain rfl := List.append_cancel_left htext
    exact hself ⟨_, hswap⟩

/-- A second pass changes nothing. -/
theorem settles (h : Settling p q shape) {text result : List Char}
    (hpass : Pass (framed p q shape) before text result)
    (hbefore : before.head?.any p = before'.head?.any p)
    (hagain : Pass (framed p q shape) before' result result') : result' = result := by
  refine Pass.settles (fun before before' => before.head?.any p = before'.head?.any p)
    (fun _ _ _ _ => rfl) ?_ ?_ hpass hbefore hagain
  · intro before before' rest more x hbefore hmore hidle taken after new htext hswap
    exact h.not_framed_of_keep hbefore hmore hidle htext hswap
  · intro before before' taken after new more result' hbefore hswap _ hagain
    refine ⟨?_, h.pass_over hswap.1 hagain⟩
    rw [any_head_append (by simpa using h.taken_ne hswap.1),
      any_head_append (by simpa using h.new_ne hswap.1), List.head?_reverse, List.head?_reverse,
      h.lasts hswap.1]

/-- Replacing all matches twice is replacing them once. -/
theorem replaceAll_replaceAll (h : Settling p q shape) {e : Expr} {f : Match → List Char}
    (hswaps : e.Swaps f (framed p q shape)) (text : List Char) :
    e.replaceAll f (e.replaceAll f text) = e.replaceAll f text :=
  h.settles (pass_replaceAll hswaps text) rfl (pass_replaceAll hswaps _)

end Settling

/-! ### Fixed texts -/

/-- Some texts and what is put in place of each. -/
def Listed (pairs : List (List Char × List Char)) (taken new : List Char) : Prop :=
  (taken, new) ∈ pairs

/-- What `Settling` asks for can be checked on a list. -/
theorem settling_listed {p q : Char → Bool} {pairs : List (List Char × List Char)}
    (h : ∀ x ∈ pairs, x.1 ≠ [] ∧ x.2 ≠ [] ∧ x.2.getLast?.any p = x.1.getLast?.any p ∧
      x.2.head?.any q = x.1.head?.any q ∧
      ∀ y ∈ pairs, (∀ tail ∈ x.1.tail.tails, tail ≠ [] → ¬ Meets tail y.2) ∧
        ∀ tail ∈ x.2.tails, tail ≠ [] → ¬ Meets tail y.1) : Settling p q (Listed pairs) where
  taken_ne hx := (h _ hx).1
  new_ne hx := (h _ hx).2.1
  lasts hx := (h _ hx).2.2.1
  heads hx := (h _ hx).2.2.2.1
  inside hx hy htail := ((h _ hx).2.2.2.2 _ hy).1 _ ((List.mem_tails _ _).mpr htail)
  fresh hx hy htail hne hmeets :=
    absurd hmeets (((h _ hx).2.2.2.2 _ hy).2 _ ((List.mem_tails _ _).mpr htail) hne)

end RailsUpgrade.Pattern
