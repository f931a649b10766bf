import RailsUpgrade.Proofs.Framed
import RailsUpgrade.Proofs.OnLine

/-!
# `RailsUpgrade.Proofs.LineStarts`: what a pass keeps, and where it stands in its line

A pass may change what stands in front of a place. If neither what it takes nor what it puts in ends in
the margin of a line, then it does not change whether the place is the start of a line, or stands
behind nothing but the margin of its line.

* `AtMargin`, `Alike`: where a place lies in its line, and places that lie alike;
* `Swap.Closed`: swaps that end in no margin;
* `Swap.Apart`, `Pass.origin`: a part in which no replacement begins was there before, at a place that
  lies alike, or begins itself in a replacement;
* `Swap.Leaves`, `Pass.keeps_part`: a part at the start of a line that no swap can touch stays at the
  start of a line;
* `BeginsLine`, `Pass.keeps_beginning`: the same, for all of a text.
-/

set_option autoImplicit false

namespace RailsUpgrade.Pattern

open Text (StartsBreak)

/-! ### Places in a line -/

/-- In front of a place, nearest character first, stands nothing but the margin of its line. -/
def AtMargin (before : List Char) : Prop :=
  ∃ margin more, before = margin ++ more ∧ margin.all Text.isSpaceOrTab = true ∧ StartsBreak more

theorem startsBreak_cons {x : Char} {before : List Char} : StartsBreak (x :: before) ↔ x = '\n' := by
  simp [StartsBreak]

theorem atMargin_of_startsBreak {before : List Char} (h : StartsBreak before) : AtMargin before :=
  ⟨[], before, rfl, rfl, h⟩

theorem atMargin_cons {x : Char} {before : List Char} :
    AtMargin (x :: before) ↔ x = '\n' ∨ Text.isSpaceOrTab x = true ∧ AtMargin before := by
  constructor
  · rintro ⟨margin, more, heq, hmargin, hmore⟩
    cases margin with
    | nil =>
      obtain rfl : x :: before = more := heq
      exact .inl (startsBreak_cons.mp hmore)
    | cons y margin =>
      obtain ⟨rfl, rfl⟩ := List.cons_eq_cons.mp heq
      rw [List.all_cons, Bool.and_eq_true] at hmargin
      exact .inr ⟨hmargin.1, margin, more, rfl, hmargin.2, hmore⟩
  · rintro (rfl | ⟨hx, margin, more, rfl, hmargin, hmore⟩)
    · exact atMargin_of_startsBreak (startsBreak_cons.mpr rfl)
    · exact ⟨x :: margin, more, rfl, by rw [List.all_cons, hx, hmargin]; rfl, hmore⟩

/-- What stands in front of a line does not count. -/
theorem atMargin_append_break {s t : List Char} : AtMargin (s ++ '\n' :: t) ↔ AtMargin s := by
  induction s with
  | nil => exact iff_of_true (atMargin_cons.mpr (.inl rfl)) (atMargin_of_startsBreak (.inl rfl))
  | cons x s ih => rw [List.cons_append, atMargin_cons, atMargin_cons, ih]

/-- The margin in front of a place, as it stands in the text. -/
theorem atMargin_reverse_iff {lead : List Char} : AtMargin lead.reverse ↔
    ∃ front margin, lead = front ++ margin ∧ margin.all Text.isSpaceOrTab = true ∧
      StartsBreak front.reverse := by
  constructor
  · rintro ⟨margin, more, heq, hmargin, hmore⟩
    refine ⟨more.reverse, margin.reverse, ?_, by simpa using hmargin, by simpa using hmore⟩
    rw [← List.reverse_append, ← heq, List.reverse_reverse]
  · rintro ⟨front, margin, rfl, hmargin, hfront⟩
    exact ⟨margin.reverse, front.reverse, by simp, by simpa using hmargin, hfront⟩

/-- The start of a line behind a text is the start of the text or stands behind its last character. -/
theorem exists_concat_of_startsBreak {lead before : List Char} (hne : lead ≠ [])
    (h : StartsBreak (lead.reverse ++ before)) : ∃ front, lead = front ++ ['\n'] := by
  obtain ⟨front, x, rfl⟩ := (List.eq_nil_or_concat' lead).resolve_left hne
  rw [List.reverse_append, List.reverse_singleton, List.singleton_append, List.cons_append,
    startsBreak_cons] at h
  exact ⟨front, by rw [h]⟩

/-- In a text without a break, only the front of it can be the start of a line. -/
theorem eq_nil_of_startsBreak {front inner tail new : List Char} (hnew : new = inner ++ tail)
    (hsolid : '\n' ∉ new) (h : StartsBreak (front ++ inner).reverse) : inner = [] := by
  by_contra hne
  rw [List.reverse_append] at h
  obtain ⟨front', rfl⟩ := exists_concat_of_startsBreak hne h
  exact hsolid (hnew ▸ by simp)

/-- Two places that lie alike in their lines. -/
structure Alike (before out : List Char) : Prop where
  start : StartsBreak before ↔ StartsBreak out
  margin : AtMargin before ↔ AtMargin out

variable {before out text result : List Char} {swap : Swap}

theorem Alike.refl (before : List Char) : Alike before before := ⟨Iff.rfl, Iff.rfl⟩

theorem Alike.cons (h : Alike before out) (x : Char) : Alike (x :: before) (x :: out) :=
  ⟨by rw [startsBreak_cons, startsBreak_cons], by rw [atMargin_cons, atMargin_cons, h.margin]⟩

/-- Behind a text that does not end in a margin. -/
theorem Alike.of_not (hbefore : ¬ AtMargin before) (hout : ¬ AtMargin out) : Alike before out :=
  ⟨iff_of_false (mt atMargin_of_startsBreak hbefore) (mt atMargin_of_startsBreak hout),
    iff_of_false hbefore hout⟩

/-- A text that has a character that is no blank on its last line does not end in a margin. -/
theorem not_atMargin {s t : List Char} {x : Char} (hx : Text.isSpaceOrTab x = false) (hbreak : x ≠ '\n')
    (ht : '\n' ∉ t) (out : List Char) : ¬ AtMargin ((s ++ x :: t).reverse ++ out) := by
  have hlast : ∀ u : List Char, '\n' ∉ u → ¬ AtMargin (u ++ (x :: (s.reverse ++ out))) := by
    intro u hu
    induction u with
    | nil =>
      rw [List.nil_append, atMargin_cons, hx]
      simpa using hbreak
    | cons y u ih =>
      rw [List.mem_cons, not_or] at hu
      rw [List.cons_append, atMargin_cons, not_or, not_and]
      exact ⟨fun h => hu.1 h.symm, fun _ => ih hu.2⟩
  have hreverse : (s ++ x :: t).reverse ++ out = t.reverse ++ (x :: (s.reverse ++ out)) := by simp
  rw [hreverse]
  exact hlast _ (by simpa using ht)

/-- Neither what is taken nor what is put in ends in a margin. -/
def Swap.Closed (swap : Swap) : Prop :=
  ∀ {before taken after new}, swap before taken after new → ∀ out,
    ¬ AtMargin (taken.reverse ++ out) ∧ ¬ AtMargin (new.reverse ++ out)

theorem Swap.Closed.alike (h : swap.Closed) {taken after new : List Char}
    (hswap : swap before taken after new) (before' out : List Char) :
    Alike (taken.reverse ++ before') (new.reverse ++ out) :=
  .of_not (h hswap before').1 (h hswap out).2

/-! ### Where a part comes from -/

/-- No replacement begins inside a part. -/
def Swap.Apart (swap : Swap) (part : List Char) : Prop :=
  ∀ {front tail before taken after new}, part = front ++ tail → front ≠ [] → tail ≠ [] →
    swap (front.reverse ++ before) taken after new → ¬ Meets tail new

/-- A pass has kept a part, from a character on that it kept, in which no replacement begins. -/
theorem Pass.of_kept (kept : List Char) {part rest : List Char}
    (h : Pass swap (kept.reverse ++ before) text (part ++ rest)) (hkept : kept ≠ [])
    (hapart : swap.Apart (kept ++ part)) :
    ∃ rest', text = part ++ rest' ∧ Pass swap ((kept ++ part).reverse ++ before) rest' rest := by
  induction part generalizing kept text with
  | nil => exact ⟨text, rfl, by simpa using h⟩
  | cons x part ih =>
    generalize hresult : (x :: part) ++ rest = result at h
    cases h with
    | done => cases hresult
    | keep _ more =>
      obtain ⟨rfl, rfl⟩ := List.cons_eq_cons.mp hresult
      have hnext : kept ++ x :: part = (kept ++ [x]) ++ part := by simp
      obtain ⟨rest', rfl, hpass⟩ := ih (kept ++ [x]) (by simpa using more) (by simp)
        (hnext ▸ hapart)
      exact ⟨rest', rfl, hnext ▸ hpass⟩
    | hit _ swapped _ =>
      exact absurd (meets_of_append_eq hresult) (hapart rfl hkept (by simp) swapped)

/-- A part of a text, at a place that lies like another one, where a pass swaps nothing and goes on
behind the part. -/
def Kept (swap : Swap) (before text part place rest : List Char) : Prop :=
  ∃ lead rest', text = lead ++ (part ++ rest') ∧ Alike (lead.reverse ++ before) place ∧
    (∀ taken after new, part ++ rest' = taken ++ after →
      ¬ swap (lead.reverse ++ before) taken after new) ∧
    Pass swap ((lead ++ part).reverse ++ before) rest' rest

/-- A part that begins in a replacement, `lead` behind the start of the result. -/
def PutIn (swap : Swap) (text part out lead rest : List Char) : Prop :=
  ∃ front inner tail before' taken after new more, lead = front ++ inner ∧ new = inner ++ tail ∧
    tail ≠ [] ∧ taken ++ after <:+ text ∧ swap before' taken after new ∧
    Alike before' (front.reverse ++ out) ∧ Pass swap (taken.reverse ++ before') after more ∧
    tail ++ more = part ++ rest

theorem Kept.append {part place rest : List Char} (s : List Char)
    (h : Kept swap (s.reverse ++ before) text part place rest) :
    Kept swap before (s ++ text) part place rest := by
  obtain ⟨lead, rest', rfl, hplace, hidle, hpass⟩ := h
  exact ⟨s ++ lead, rest', by simp, by simpa using hplace, by simpa using hidle, by simpa using hpass⟩

theorem PutIn.append {part lead rest : List Char} (s s' : List Char)
    (h : PutIn swap text part (s'.reverse ++ out) lead rest) :
    PutIn swap (s ++ text) part out (s' ++ lead) rest := by
  obtain ⟨front, inner, tail, before', taken, after, new, more, rfl, hnew, htail, hsuffix, hswap,
    hplace, hmore⟩ := h
  exact ⟨s' ++ front, inner, tail, before', taken, after, new, more, by simp, hnew, htail,
    hsuffix.trans (List.suffix_append _ _), hswap, by simpa using hplace, hmore⟩

/-- A part in a result was there before, at a place that lies alike and where nothing could be swapped,
or it begins in a replacement. -/
theorem Pass.origin (h : Pass swap before text result) (hclosed : swap.Closed)
    (halike : Alike before out) {part : List Char} (hne : part ≠ []) (hapart : swap.Apart part)
    {lead rest : List Char} (heq : result = lead ++ (part ++ rest)) :
    Kept swap before text part (lead.reverse ++ out) rest ∨ PutIn swap text part out lead rest := by
  induction h generalizing lead out with
  | done =>
    obtain ⟨-, hnil⟩ := List.append_eq_nil_iff.mp heq.symm
    exact absurd (List.append_eq_nil_iff.mp hnil).1 hne
  | @keep before text result x idle more ih =>
    cases lead with
    | nil =>
      obtain ⟨y, part, rfl⟩ := List.exists_cons_of_ne_nil hne
      obtain ⟨rfl, rfl⟩ := List.cons_eq_cons.mp heq
      obtain ⟨rest', rfl, hpass⟩ := Pass.of_kept [x] more (by simp) hapart
      exact .inl ⟨[], rest', rfl, halike, idle, hpass⟩
    | cons y lead =>
      obtain ⟨rfl, hrest⟩ := List.cons_eq_cons.mp heq
      refine (ih (halike.cons x) hrest).imp (fun hkept => ?_) fun hput => ?_
      · rw [List.reverse_cons, List.append_assoc]
        exact Kept.append [x] hkept
      · exact PutIn.append [x] [x] hput
  | @hit before taken after new result _ swapped more ih =>
    -- Behind what was put in the part is kept, or put in, as the induction says.
    have hbehind : ∀ lead', lead = new ++ lead' → result = lead' ++ (part ++ rest) →
        Kept swap before (taken ++ after) part (lead.reverse ++ out) rest ∨
          PutIn swap (taken ++ after) part out lead rest := by
      rintro lead' rfl hresult
      refine (ih (hclosed.alike swapped before out) hresult).imp (fun hkept => ?_) fun hput => ?_
      · rw [List.reverse_append, List.append_assoc]
        exact Kept.append taken hkept
      · exact PutIn.append taken new hput
    rcases List.append_eq_append_iff.mp heq with ⟨lead', hlead, hresult⟩ | ⟨tail, rfl, hresult⟩
    · exact hbehind lead' hlead hresult
    -- Otherwise the part begins inside of what was put in.
    · by_cases htail : tail = []
      · subst htail
        exact hbehind [] (by simp) hresult.symm
      · exact .inr ⟨[], lead, tail, before, taken, after, lead ++ tail, result, rfl, rfl, htail,
          List.suffix_refl _, swapped, halike, more, hresult.symm⟩

/-! ### What stays -/

/-- Nothing is swapped that begins in a part at the start of a line, or reaches over this start. -/
structure Swap.Leaves (swap : Swap) (part : List Char) : Prop where
  inside : ∀ {front tail rest before taken after new}, part = front ++ tail → tail ≠ [] →
    StartsBreak before → tail ++ rest = taken ++ after → ¬ swap (front.reverse ++ before) taken after new
  across : ∀ {before taken after new lead more rest}, swap before taken after new →
    taken = lead ++ '\n' :: more → more ≠ [] → more ++ after ≠ part ++ rest

/-- A part at the start of a line that no swap can touch stays, at the start of a line. -/
theorem Pass.keeps_part (h : Pass swap before text result) (hclosed : swap.Closed)
    (halike : Alike before out) {part : List Char} (hne : part ≠ []) (hleaves : swap.Leaves part)
    {lead rest : List Char} (heq : text = lead ++ (part ++ rest))
    (hstart : StartsBreak (lead.reverse ++ before)) :
    ∃ lead' rest', result = lead' ++ (part ++ rest') ∧ StartsBreak (lead'.reverse ++ out) ∧
      Pass swap ((lead ++ part).reverse ++ before) rest rest' := by
  -- Where the part begins, the pass goes over it.
  have hhere : ∀ {before text result out : List Char}, Pass swap before text result →
      Alike before out → StartsBreak before → text = part ++ rest →
      ∃ lead' rest', result = lead' ++ (part ++ rest') ∧ StartsBreak (lead'.reverse ++ out) ∧
        Pass swap (part.reverse ++ before) rest rest' := by
    rintro before _ result out hpass halike hstart rfl
    obtain ⟨more, rfl, hmore⟩ := hpass.skip fun front tail taken after new hpart htail htaken =>
      hleaves.inside hpart htail hstart htaken
    exact ⟨[], more, rfl, halike.start.mp hstart, hmore⟩
  induction h generalizing lead out with
  | done =>
    obtain ⟨-, hnil⟩ := List.append_eq_nil_iff.mp heq.symm
    exact absurd (List.append_eq_nil_iff.mp hnil).1 hne
  | @keep before text result x idle more ih =>
    cases lead with
    | nil => exact hhere (.keep idle more) halike hstart heq
    | cons y lead =>
      obtain ⟨rfl, hrest⟩ := List.cons_eq_cons.mp heq
      obtain ⟨lead', rest', rfl, hstart', hpass⟩ :=
        ih (halike.cons x) hrest (by simpa using hstart)
      exact ⟨x :: lead', rest', rfl, by simpa using hstart', by simpa using hpass⟩
  | @hit before taken after new result takes swapped more ih =>
    rcases List.append_eq_append_iff.mp heq with ⟨lead', rfl, hrest⟩ | ⟨tail, rfl, hrest⟩
    · obtain ⟨lead'', rest', rfl, hstart', hpass⟩ :=
        ih (hclosed.alike swapped before out) hrest (by simpa using hstart)
      exact ⟨new ++ lead'', rest', by simp, by simpa using hstart', by simpa using hpass⟩
    · cases tail with
      | nil =>
        rw [List.append_nil] at swapped more ih
        obtain ⟨lead'', rest', rfl, hstart', hpass⟩ :=
          ih (hclosed.alike swapped before out) (show after = [] ++ (part ++ rest) from hrest.symm)
            hstart
        exact ⟨new ++ lead'', rest', by simp, by simpa using hstart', by simpa using hpass⟩
      | cons y tail =>
        by_cases hlead : lead = []
        · subst hlead
          exact hhere (.hit takes swapped more) halike hstart heq
        · -- Behind the start of what is taken, the line starts behind a break in it.
          obtain ⟨front, rfl⟩ := exists_concat_of_startsBreak hlead hstart
          have htaken : front ++ ['\n'] ++ y :: tail = front ++ '\n' :: (y :: tail) := by simp
          exact absurd hrest.symm (hleaves.across swapped htaken (List.cons_ne_nil y tail))

/-- A line of a text begins with a part. -/
def BeginsLine (part text : List Char) : Prop :=
  ∃ lead rest, text = lead ++ (part ++ rest) ∧ StartsBreak lead.reverse

theorem Pass.keeps_beginning (h : Pass swap [] text result) (hclosed : swap.Closed) {part : List Char}
    (hne : part ≠ []) (hleaves : swap.Leaves part) (hline : BeginsLine part text) :
    BeginsLine part result := by
  obtain ⟨lead, rest, heq, hstart⟩ := hline
  obtain ⟨lead', rest', hresult, hstart', -⟩ :=
    h.keeps_part hclosed (.refl []) hne hleaves heq (by simpa using hstart)
  exact ⟨lead', rest', hresult, by simpa using hstart'⟩

end RailsUpgrade.Pattern
