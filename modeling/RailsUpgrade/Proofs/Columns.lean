import RailsUpgrade.Proofs.Headers

/-!
# `RailsUpgrade.Proofs.Columns`: the column helpers of migrations

Every rule for columns takes something that begins with `t.` and puts something in its place that
begins so too, so all of them are told by what stands behind the `t.`:

* `Rewrite.origin`: something that a pass has made, and that has no `t.` inside it, was there before
  or begins in what was put in;
* `hasTitle_of_pass`: a header that is the first thing on its line is not touched;
* `Helper`: a column helper with a name, put down with another word and an option;
* `Blocked`: the rest of a line that keeps a reference from being rewritten.
-/

set_option autoImplicit false

namespace RailsUpgrade.Migration

open Pattern (Pass Swap)
open Gemfile (exists_of_notMem)

/-! ### Rewrites behind `t.` -/

/-- What may be put in place of what behind a `t.`, in front of `after`. -/
abbrev Rewrite := (old after new : List Char) → Prop

/-- The swap of a rewrite. -/
def Rewrite.swap (rule : Rewrite) : Swap := fun _ taken after new =>
  ∃ old new', taken = 't' :: '.' :: old ∧ new = 't' :: '.' :: new' ∧ rule old after new'

section

variable {rule : Rewrite} {before text result : List Char}

/-- What stands in front does not count. -/
theorem Rewrite.pass_congr (h : Pass rule.swap before text result) (before' : List Char) :
    Pass rule.swap before' text result := by
  induction h generalizing before' with
  | done _ => exact .done before'
  | keep idle _ ih => exact .keep idle (ih _)
  | hit takes swapped _ ih => exact .hit takes swapped (ih _)

/-- Where something that has no `t.` inside it, and that a pass has made from a place on that it kept,
comes from. -/
theorem Rewrite.exists_found {P : List Char → Prop} {found rest kept : List Char}
    (hinside : ∀ a b, found = a ++ 't' :: '.' :: b → a = [])
    (hback : ∀ old after new more before x, rule old after new → Pass rule.swap before after more →
      P (x ++ '.' :: (new ++ more)) → P (x ++ '.' :: (old ++ after)))
    (hpass : Pass rule.swap before text result) (hkept : kept ≠ []) (heq : kept ++ result = found ++ rest)
    (hrest : P rest) : ∃ rest', kept ++ text = found ++ rest' ∧ P rest' := by
  have hreflects := @Pass.reflects rule.swap [] text result
    (fun found' rest' => found' = found ∧ P rest') kept (Rewrite.pass_congr hpass _) hkept ?_ _ _ heq
    ⟨rfl, hrest⟩
  · obtain ⟨_, rest', htext, rfl, hrest'⟩ := hreflects
    exact ⟨rest', htext, hrest'⟩
  · rintro kept _ after _ more found' rest hkept - ⟨old, new, rfl, rfl, hrule⟩ hmore heq' ⟨rfl, hrest⟩
    rcases List.append_eq_append_iff.mp heq' with ⟨part, hfound, hsplit⟩ | ⟨part, rfl, rfl⟩
    · -- What was put in begins inside of what was found, or at its last character.
      cases part with
      | nil =>
        obtain rfl : 't' :: '.' :: (new ++ more) = rest := hsplit
        refine ⟨found', 't' :: '.' :: (old ++ after), by rw [hfound, List.append_nil]; rfl, rfl, ?_⟩
        exact hback old after new more _ ['t'] hrule hmore hrest
      | cons y part =>
        obtain ⟨rfl, hpart⟩ : 't' = y ∧ '.' :: (new ++ more) = part ++ rest := by
          simpa using hsplit
        cases part with
        | nil =>
          obtain rfl : '.' :: (new ++ more) = rest := hpart
          refine ⟨found', '.' :: (old ++ after), by rw [hfound]; simp, rfl, ?_⟩
          exact hback old after new more _ [] hrule hmore hrest
        | cons z part =>
          obtain ⟨rfl, -⟩ : '.' = z ∧ new ++ more = part ++ rest := by simpa using hpart
          exact absurd (hinside kept part hfound) hkept
    · refine ⟨found', part ++ ('t' :: '.' :: old ++ after), by rw [List.append_assoc], rfl, ?_⟩
      have hmoved := hback old after new more _ (part ++ ['t']) hrule hmore (by simpa using hrest)
      simpa using hmoved

/-- Something that has no `t.` inside it, and that a pass has made, was there before, where nothing
could be swapped, or it begins in what was put in. -/
theorem Rewrite.origin {P : List Char → Prop} {goal : Prop} {found : List Char} (hfound : found ≠ [])
    (hinside : ∀ a b, found = a ++ 't' :: '.' :: b → a = [])
    (hback : ∀ old after new more before x, rule old after new → Pass rule.swap before after more →
      P (x ++ '.' :: (new ++ more)) → P (x ++ '.' :: (old ++ after)))
    (hpass : Pass rule.swap before text result)
    (hkept : ∀ lead rest, text = lead ++ (found ++ rest) → P rest →
      (∀ taken after new, found ++ rest = taken ++ after →
        ¬ rule.swap (lead.reverse ++ before) taken after new) → goal)
    (hnew : ∀ before old after new more lead part rest, rule old after new →
      't' :: '.' :: (old ++ after) <:+ text → Pass rule.swap before after more →
      't' :: '.' :: new = lead ++ part → part ≠ [] → part ++ more = found ++ rest → P rest → goal)
    {lead rest : List Char} (heq : result = lead ++ (found ++ rest)) (hrest : P rest) : goal := by
  induction hpass generalizing lead with
  | done before =>
    obtain ⟨-, hnil⟩ := List.append_eq_nil_iff.mp heq.symm
    exact absurd (List.append_eq_nil_iff.mp hnil).1 hfound
  -- A call at a character that is kept has been a call of the old text, where it was left alone.
  | @keep before text result x idle hmore ih =>
    cases lead with
    | nil =>
      obtain ⟨rest', htext, hrest'⟩ := exists_found hinside hback hmore (List.cons_ne_nil x []) heq
        hrest
      refine hkept [] rest' htext hrest' fun taken after new hsplit => ?_
      exact idle taken after new (htext.trans hsplit)
    | cons y lead =>
      obtain ⟨-, heq⟩ := List.cons_eq_cons.mp heq
      refine ih (fun lead rest htext hrest hidle => ?_) (fun before old after new more lead part rest hrule
        hsuffix => hnew before old after new more lead part rest hrule
          (hsuffix.trans (List.suffix_cons _ _))) heq
      refine hkept (x :: lead) rest (by rw [htext, List.cons_append]) hrest ?_
      simpa using hidle
  -- Behind what was taken the induction goes on with the text that follows.
  | @hit before taken after new result hne hswap hmore ih =>
    have hafter : ∀ {lead}, result = lead ++ (found ++ rest) → goal := by
      intro lead heq
      refine ih (fun lead rest htext hrest hidle => ?_) (fun before old after' new more lead part rest
        hrule hsuffix => hnew before old after' new more lead part rest hrule
          (hsuffix.trans (List.suffix_append _ _))) heq
      refine hkept (taken ++ lead) rest (by rw [htext, List.append_assoc]) hrest ?_
      simpa using hidle
    -- A call that ends in front of the rest begins inside of what was put in.
    rcases List.append_eq_append_iff.mp heq with ⟨lead, -, heq'⟩ | ⟨part, hpart, heq'⟩
    · exact hafter heq'
    · by_cases hnil : part = []
      · have hstart : result = [] ++ (found ++ rest) := by
          rw [hnil, List.nil_append] at heq'
          exact heq'.symm
        exact hafter hstart
      · obtain ⟨old, new', rfl, rfl, hrule⟩ := hswap
        exact hnew _ old after new' result lead part rest hrule (List.suffix_refl _) hmore hpart hnil
          heq'.symm hrest

end

/-! ### Headers and columns -/

theorem Header.dot_notMem (h : Header) : '.' ∉ h.base := by
  have hblank : ∀ {s : List Char}, s.all Text.isBlank = true → '.' ∉ s := fun hs hmem =>
    absurd (List.all_eq_true.mp hs _ hmem) (by decide)
  have hname : '.' ∉ h.name := fun hmem =>
    absurd (List.all_eq_true.mp h.name_word _ hmem) (by decide)
  have hclass : '.' ∉ "class".toList := by decide
  have hsuper : '.' ∉ superclass.toList := by decide
  simp only [base, front, List.mem_append, List.mem_cons, not_or]
  exact ⟨⟨hclass, hblank h.gap_blank, hname, hblank h.space_blank⟩, by decide,
    hblank h.margin_blank, hsuper⟩

/-- No `t.` begins in a header with a release line. -/
theorem Header.not_dotted (h : Header) (t : Title) {lead part rest b : List Char}
    (hsplit : h.base ++ t.text = lead ++ part) (hpart : part ≠ []) :
    part ++ rest ≠ 't' :: '.' :: b := by
  intro heq
  have hdigit : ∀ {s : List Char}, s.all Text.isDigit = true → ∀ {x}, Text.isDigit x = false → x ∉ s :=
    fun hs _ hx hmem => by
      rw [List.all_eq_true.mp hs _ hmem] at hx
      cases hx
  obtain ⟨y, part, rfl⟩ := List.exists_cons_of_ne_nil hpart
  obtain ⟨rfl, hdot⟩ : y = 't' ∧ part ++ rest = '.' :: b := by simpa using heq
  cases part with
  | nil =>
    -- The last character is a bracket.
    have hclose : h.base ++ t.text = (h.base ++ '[' :: t.line) ++ [']'] := by simp [Title.text]
    obtain ⟨-, hlast⟩ := List.append_inj' (hclose.symm.trans hsplit) rfl
    exact absurd hlast (by decide)
  | cons z part =>
    obtain ⟨rfl, -⟩ := List.cons_eq_cons.mp hdot
    -- The dot is the one of the release line, and a digit stands in front of it.
    have hfront : '.' ∉ h.base ++ '[' :: t.major := by
      rw [List.mem_append, List.mem_cons]
      rintro (hmem | hmem | hmem)
      · exact h.dot_notMem hmem
      · exact absurd hmem (by decide)
      · exact hdigit t.major_digit (by decide) hmem
    have hsplit' : (h.base ++ '[' :: t.major) ++ '.' :: (t.minor ++ [']']) =
        (lead ++ ['t']) ++ '.' :: part := by
      simpa [Title.text, Title.line] using hsplit
    obtain ⟨mid, hlead, hrest⟩ := exists_of_notMem hfront hsplit'
    cases mid with
    | nil =>
      obtain ⟨major, x, hmajor⟩ := (List.eq_nil_or_concat' t.major).resolve_left t.major_ne
      have hlast : lead ++ ['t'] = (h.base ++ '[' :: major) ++ [x] := by
        rw [hlead, hmajor]
        simp
      obtain rfl : 't' = x := by simpa using (List.append_inj' hlast rfl).2
      exact hdigit t.major_digit (by decide) (x := 't') (by rw [hmajor]; simp)
    | cons y mid =>
      obtain ⟨-, hminor⟩ := List.cons_eq_cons.mp hrest
      have hmem : '.' ∈ t.minor ++ [']'] := by rw [hminor]; simp
      rw [List.mem_append, List.mem_singleton] at hmem
      exact hmem.elim (hdigit t.minor_digit (by decide)) (by decide)

theorem Header.t_notMem_inside (h : Header) (t : Title) {a b : List Char} :
    h.base ++ t.text ≠ a ++ 't' :: '.' :: b := fun heq =>
  h.not_dotted t heq (List.cons_ne_nil _ _) (List.append_nil _)

/-- Behind a character that is no blank, on the same line, no place is the first one of its line. -/
theorem fresh_eq_false {x : Char} {tail : List Char} (hx : Text.isBlank x = false) (htail : '\n' ∉ tail)
    (lead before : List Char) : fresh ((lead ++ x :: tail).reverse ++ before) = false := by
  have hgo : ∀ (s rest : List Char), '\n' ∉ s → fresh (s ++ x :: rest) = false := by
    intro s rest
    induction s with
    | nil =>
      intro _
      have hbreak : x ≠ '\n' := by
        rintro rfl
        exact absurd hx (by decide)
      simp [fresh, hx, hbreak]
    | cons y s ih =>
      intro hs
      rw [List.mem_cons, not_or] at hs
      rw [List.cons_append, fresh, ih hs.2, Bool.and_false, Bool.or_false, beq_eq_false_iff_ne]
      exact hs.1 ∘ Eq.symm
  have hsplit : (lead ++ x :: tail).reverse ++ before = tail.reverse ++ x :: (lead.reverse ++ before) := by
    simp
  rw [hsplit]
  exact hgo _ _ (by simpa using htail)

theorem fresh_congr {before before' : List Char} (h : fresh before = fresh before') (s : List Char) :
    fresh (s ++ before) = fresh (s ++ before') := by
  induction s with
  | nil => exact h
  | cons x s ih => rw [List.cons_append, List.cons_append, fresh, fresh, ih]

/-- A rewrite that neither takes a header that is the first thing on its line, nor makes one of a header
that is not, nor the other way round. -/
structure Rewrite.Solid (rule : Rewrite) : Prop where
  old_ends : ∀ {old after new}, rule old after new →
    ∀ before, fresh (('t' :: '.' :: old).reverse ++ before) = false
  new_ends : ∀ {old after new}, rule old after new →
    ∀ before, fresh (('t' :: '.' :: new).reverse ++ before) = false
  inside : ∀ {old after new lead rest}, rule old after new → '.' :: old = lead ++ 'c' :: rest →
    ∀ before, fresh (('t' :: lead).reverse ++ before) = false

/-- A header that is the first thing on its line is not touched. -/
theorem hasTitle_of_pass {rule : Rewrite} (hsolid : rule.Solid) {before before' text result : List Char}
    (hpass : Pass rule.swap before text result) (hbefore : fresh before = fresh before')
    {lead rest : List Char} {h : Header} {t : Title} (htext : text = lead ++ (h.base ++ (t.text ++ rest)))
    (hfresh : fresh (lead.reverse ++ before) = true) :
    ∃ lead' rest', result = lead' ++ (h.base ++ (t.text ++ rest')) ∧
      fresh (lead'.reverse ++ before') = true := by
  induction hpass generalizing lead before' with
  | done before =>
    rw [h.base_eq] at htext
    simp at htext
  | @keep before text result x idle hmore ih =>
    cases lead with
    | nil =>
      have hwhole := Pass.keep idle hmore
      rw [htext, List.nil_append, ← List.append_assoc] at hwhole
      obtain ⟨more, hresult, -⟩ := hwhole.skip fun lead' more taken after new hpart hne htaken hswap => by
        obtain ⟨old, new', rfl, -, -⟩ := hswap
        exact h.not_dotted t hpart hne htaken
      exact ⟨[], more, by rw [hresult, List.nil_append, List.append_assoc], hbefore.symm.trans hfresh⟩
    | cons y lead =>
      obtain ⟨rfl, hrest⟩ := List.cons_eq_cons.mp htext
      have hnext : fresh (x :: before) = fresh (x :: before') := fresh_congr hbefore [x]
      obtain ⟨lead', rest', rfl, hfresh'⟩ := ih hnext hrest (by simpa using hfresh)
      exact ⟨x :: lead', rest', rfl, by simpa using hfresh'⟩
  | @hit before taken after new result hne hswap hmore ih =>
    obtain ⟨old, new, rfl, rfl, hrule⟩ := hswap
    rcases List.append_eq_append_iff.mp htext with ⟨lead, rfl, hafter⟩ | ⟨part, hpart, hheader⟩
    · have hnext : fresh (('t' :: '.' :: old).reverse ++ before) =
          fresh (('t' :: '.' :: new).reverse ++ before') := by
        rw [hsolid.old_ends hrule, hsolid.new_ends hrule]
      obtain ⟨lead', rest', rfl, hfresh'⟩ := ih hnext hafter (by simpa using hfresh)
      exact ⟨'t' :: '.' :: new ++ lead', rest', by simp, by simpa using hfresh'⟩
    · -- The header would begin in what is taken.
      cases part with
      | nil =>
        rw [List.append_nil] at hpart
        rw [← hpart, hsolid.old_ends hrule] at hfresh
        cases hfresh
      | cons y part =>
        obtain ⟨rfl, -⟩ : y = 'c' ∧ _ := by
          rw [h.base_eq] at hheader
          simpa using hheader.symm
        cases lead with
        | nil =>
          obtain ⟨hcontra, -⟩ := List.cons_eq_cons.mp hpart
          exact absurd hcontra (by decide)
        | cons z lead =>
          obtain ⟨rfl, hold⟩ := List.cons_eq_cons.mp hpart
          rw [hsolid.inside hrule hold] at hfresh
          cases hfresh

theorem HasTitle.pass {rule : Rewrite} (hsolid : rule.Solid) {text result : List Char}
    (h : HasTitle text) (hpass : Pass rule.swap [] text result) : HasTitle result := by
  obtain ⟨lead, header, t, rest, htext, hfresh⟩ := h
  have hlead : fresh (lead.reverse ++ []) = true := by simpa using hfresh
  obtain ⟨lead', rest', hresult, hfresh'⟩ := hasTitle_of_pass hsolid hpass (Eq.refl (fresh [])) htext hlead
  exact ⟨lead', header, t, rest', hresult, by simpa using hfresh'⟩

/-- A titled text stays titled if the headers that begin in what is put in are right. -/
theorem Titled.pass {rule : Rewrite} {v : Version} {text result : List Char} (h : Titled v text)
    (hpass : Pass rule.swap [] text result)
    (hnew : ∀ before old after new more lead part rest (h : Header) (t : Title), rule old after new →
      't' :: '.' :: (old ++ after) <:+ text → Pass rule.swap before after more →
      't' :: '.' :: new = lead ++ part → part ≠ [] → part ++ more = (h.base ++ t.text) ++ rest →
      h = h.plain ∧ t.line = v.line.toList) : Titled v result := by
  intro lead header t rest hresult
  have hne : header.base ++ t.text ≠ [] := by simp [Title.text]
  have hfound : result = lead ++ ((header.base ++ t.text) ++ rest) := by rw [hresult, List.append_assoc]
  exact Rewrite.origin (P := fun _ => True) hne
    (fun a b heq => absurd heq (header.t_notMem_inside t)) (fun _ _ _ _ _ _ _ _ _ => trivial) hpass
    (fun lead rest htext _ _ => h lead header t rest (by rw [htext, List.append_assoc]))
    (fun before old after new more lead part rest hrule hsuffix hmore hpart hne heq _ =>
      hnew before old after new more lead part rest header t hrule hsuffix hmore hpart hne heq)
    hfound trivial

/-! ### Column helpers -/

/-- The name of a column, behind its helper. -/
structure Call where
  gap : List Char
  name : List Char
  gap_blank : gap.all Text.isBlank = true
  gap_ne : gap ≠ []
  name_word : name.all Text.isWord = true
  name_ne : name ≠ []

def Call.text (call : Call) : List Char := call.gap ++ ':' :: call.name

/-- Column helpers, each with the word that is put in its place, and the option that is added up to its
last character. -/
structure Helper where
  words : List (List Char × List Char)
  option : List Char
  last : Char
  words_word : ∀ w ∈ words, w.1.all Text.isWord = true ∧ w.2.all Text.isWord = true
  words_class : ∀ w ∈ words, ∀ s ∈ w.2.tails, s.head? = some 'c' → ∃ x ∈ s.tail.head?, x ≠ 'l'
  option_plain : ∀ x ∈ ['c', '.', '\n'], x ∉ option
  last_plain : last ∉ ['c', '.', 't'] ∧ Text.isBlank last = false

namespace Helper

variable (helper : Helper)

/-- What is added behind the name. -/
def added : List Char := ',' :: (helper.option ++ [helper.last])

/-- The rewrite of column helpers in front of texts with a property. -/
def rule (admits : List Char → Prop) : Rewrite := fun old after new =>
  ∃ w ∈ helper.words, ∃ call : Call, admits after ∧ old = w.1 ++ call.text ∧
    new = w.2 ++ ' ' :: ':' :: (call.name ++ helper.added)

variable {helper} {admits : List Char → Prop} {old after new : List Char}

theorem notMem_of_word {s : List Char} (hs : s.all Text.isWord = true) {x : Char}
    (hx : Text.isWord x = false) : x ∉ s := fun hmem => by
  rw [List.all_eq_true.mp hs _ hmem] at hx
  cases hx

theorem notMem_of_blank {s : List Char} (hs : s.all Text.isBlank = true) {x : Char}
    (hx : Text.isBlank x = false) : x ∉ s := fun hmem => by
  rw [List.all_eq_true.mp hs _ hmem] at hx
  cases hx

theorem solid_rule (helper : Helper) (admits : List Char → Prop) : (helper.rule admits).Solid where
  old_ends := by
    rintro _ after _ ⟨w, -, call, -, rfl, -⟩ before
    obtain ⟨name, x, hname⟩ := (List.eq_nil_or_concat' call.name).resolve_left call.name_ne
    have hx : Text.isBlank x = false :=
      isBlank_eq_false_of_isWord (List.all_eq_true.mp call.name_word x (by rw [hname]; simp))
    have hsplit : 't' :: '.' :: (w.1 ++ call.text) =
        ('t' :: '.' :: (w.1 ++ (call.gap ++ ':' :: name))) ++ x :: [] := by
      simp [Call.text, hname]
    rw [hsplit]
    exact fresh_eq_false hx (by simp) _ _
  new_ends := by
    rintro _ after _ ⟨w, -, call, -, -, rfl⟩ before
    have hsplit : 't' :: '.' :: (w.2 ++ ' ' :: ':' :: (call.name ++ helper.added)) =
        ('t' :: '.' :: (w.2 ++ ' ' :: ':' :: (call.name ++ ',' :: helper.option))) ++
          helper.last :: [] := by
      simp [added]
    rw [hsplit]
    exact fresh_eq_false helper.last_plain.2 (by simp) _ _
  inside := by
    rintro _ after _ lead rest ⟨w, hw, call, -, rfl, -⟩ hold before
    have hword := (helper.words_word w hw).1
    cases lead with
    | nil => exact absurd (List.cons_eq_cons.mp hold).1 (by decide)
    | cons y lead =>
      obtain ⟨rfl, hold'⟩ := List.cons_eq_cons.mp hold
      rcases List.append_eq_append_iff.mp hold' with ⟨lead', rfl, htext⟩ | ⟨mid, hmid, -⟩
      · -- Behind the colon.
        obtain ⟨lead'', rfl, hcolon⟩ := exists_of_notMem
          (notMem_of_blank call.gap_blank (by decide)) htext
        cases lead'' with
        | nil => exact absurd (List.cons_eq_cons.mp hcolon).1 (by decide)
        | cons y lead =>
          obtain ⟨rfl, hname⟩ := List.cons_eq_cons.mp hcolon
          have hbreak : '\n' ∉ lead := fun hmem =>
            notMem_of_word call.name_word (x := '\n') (by decide)
              (by rw [hname]; exact List.mem_append_left _ hmem)
          have hsplit : 't' :: '.' :: (w.1 ++ (call.gap ++ ':' :: lead)) =
              ('t' :: '.' :: (w.1 ++ call.gap)) ++ ':' :: lead := by simp
          rw [hsplit]
          exact fresh_eq_false (by decide) hbreak _ _
      · -- In the word.
        have hbreak : '\n' ∉ '.' :: lead := by
          rw [List.mem_cons, not_or]
          refine ⟨by decide, fun hmem => notMem_of_word hword (x := '\n') (by decide) ?_⟩
          rw [hmid]
          exact List.mem_append_left _ hmem
        exact fresh_eq_false (x := 't') (by decide) hbreak [] before

/-- No header begins in what is put in. -/
theorem not_header (hrule : helper.rule admits old after new) {lead part more rest : List Char}
    {h : Header} (hpart : 't' :: '.' :: new = lead ++ part) (hne : part ≠ []) :
    part ++ more ≠ h.base ++ rest := by
  intro heq
  obtain ⟨w, hw, call, -, -, rfl⟩ := hrule
  have hword := (helper.words_word w hw).2
  obtain ⟨y, part, rfl⟩ := List.exists_cons_of_ne_nil hne
  have hclass : "class".toList = 'c' :: 'l' :: "ass".toList := by decide
  have hbase : h.base ++ rest = "class".toList ++ (h.gap ++ (h.name ++ (h.space ++ ("<".toList ++
      (h.margin ++ (superclass.toList ++ rest)))))) := h.base_append rest
  rw [hbase] at heq
  obtain ⟨rfl, hnext⟩ : y = 'c' ∧ ∃ tail, part ++ more = 'l' :: tail := by
    rw [hclass] at heq
    obtain ⟨hy, hnext⟩ := List.cons_eq_cons.mp heq
    exact ⟨hy, _, hnext⟩
  obtain ⟨tail, hnext⟩ := hnext
  match lead with
  | [] => exact absurd (List.cons_eq_cons.mp hpart).1 (by decide)
  | [z] => exact absurd (List.cons_eq_cons.mp (List.cons_eq_cons.mp hpart).2).1 (by decide)
  | _ :: _ :: lead =>
    obtain ⟨-, hpart⟩ := List.cons_eq_cons.mp hpart
    obtain ⟨-, hpart⟩ := List.cons_eq_cons.mp hpart
    rcases List.append_eq_append_iff.mp hpart with ⟨lead', rfl, hname⟩ | ⟨mid, hmid, hrest⟩
    · match lead' with
      | [] => exact absurd (List.cons_eq_cons.mp hname).1 (by decide)
      | [z] => exact absurd (List.cons_eq_cons.mp (List.cons_eq_cons.mp hname).2).1 (by decide)
      | _ :: _ :: lead =>
        obtain ⟨-, hname⟩ := List.cons_eq_cons.mp hname
        obtain ⟨-, hname⟩ := List.cons_eq_cons.mp hname
        rcases List.append_eq_append_iff.mp hname with ⟨lead', -, hadded⟩ | ⟨mid, hmid, hrest⟩
        · have hmem : 'c' ∈ helper.added := by rw [hadded]; simp
          have hoption := helper.option_plain 'c' (by simp)
          have hlast := helper.last_plain.1
          simp only [added, List.mem_cons, List.mem_append, List.not_mem_nil, or_false] at hmem hlast
          rcases hmem with hmem | hmem | hmem
          · exact absurd hmem (by decide)
          · exact hoption hmem
          · exact hlast (.inl hmem.symm)
        · -- The word `class` would go on up to the comma.
          cases mid with
          | nil => exact absurd (List.cons_eq_cons.mp hrest).1 (by decide)
          | cons z mid =>
            obtain ⟨rfl, rfl⟩ := List.cons_eq_cons.mp hrest
            have hmidWord : ('c' :: mid).all Text.isWord = true := by
              have hall := call.name_word
              rw [hmid, List.all_append, Bool.and_eq_true] at hall
              exact hall.2
            have hgap : (h.gap ++ (h.name ++ (h.space ++ ("<".toList ++ (h.margin ++
                (superclass.toList ++ rest)))))).head?.any Text.isWord = false :=
              head?_of_all h.gap_blank h.gap_ne (fun _ => Text.isWord_eq_false_of_isBlank) _
            have hsplit : ('c' :: mid) ++ (',' :: (helper.option ++ [helper.last] ++ more)) =
                "class".toList ++ (h.gap ++ (h.name ++ (h.space ++ ("<".toList ++ (h.margin ++
                  (superclass.toList ++ rest)))))) := by
              rw [← heq]
              simp [added]
            obtain ⟨-, hcomma⟩ := Text.span_unique hmidWord (by decide) (by rfl) hgap hsplit
            obtain ⟨y, gap, hcons⟩ := List.exists_cons_of_ne_nil h.gap_ne
            rw [hcons] at hcomma
            obtain ⟨rfl, -⟩ := List.cons_eq_cons.mp hcomma
            exact notMem_of_blank h.gap_blank (x := ',') (by decide) (by rw [hcons]; simp)
    · -- In the word a `c` is followed by something else.
      cases mid with
      | nil => exact absurd (List.cons_eq_cons.mp hrest).1 (by decide)
      | cons z mid =>
        obtain ⟨rfl, rfl⟩ := List.cons_eq_cons.mp hrest
        obtain ⟨x, hx, hxl⟩ := helper.words_class w hw ('c' :: mid)
          (by rw [List.mem_tails]; exact ⟨_, hmid.symm⟩) rfl
        cases mid with
        | nil => cases hx
        | cons u mid =>
          obtain rfl : u = x := by simpa using hx
          obtain ⟨rfl, -⟩ : u = 'l' ∧ _ := by simpa using hnext
          exact hxl rfl

/-- Nothing with a `t.` begins inside of what is put in. -/
theorem not_dotted (hrule : helper.rule admits old after new) {lead part more rest : List Char}
    (hpart : 't' :: '.' :: new = lead ++ part) (hlead : lead ≠ []) (hne : part ≠ []) :
    part ++ more ≠ 't' :: '.' :: rest := by
  intro heq
  obtain ⟨w, hw, call, -, -, rfl⟩ := hrule
  have hoption := helper.option_plain '.' (by simp)
  have hlast := helper.last_plain.1
  simp only [List.mem_cons, List.not_mem_nil, or_false, not_or] at hlast
  obtain ⟨y, part, rfl⟩ := List.exists_cons_of_ne_nil hne
  obtain ⟨rfl, hdot⟩ : y = 't' ∧ part ++ more = '.' :: rest := by simpa using heq
  -- The letter in front of the dot would be the last character that is put in.
  cases part with
  | nil =>
    have hend : ('t' :: '.' :: (w.2 ++ ' ' :: ':' :: (call.name ++ ',' :: helper.option))) ++
        [helper.last] = lead ++ ['t'] := by
      rw [← hpart]
      simp [added]
    exact hlast.2.2 (by simpa using (List.append_inj' hend rfl).2)
  -- Both letters are put in, and none of the characters there is a dot.
  | cons z part =>
    obtain ⟨rfl, -⟩ := List.cons_eq_cons.mp hdot
    obtain ⟨u, lead, rfl⟩ := List.exists_cons_of_ne_nil hlead
    obtain ⟨-, hpart⟩ := List.cons_eq_cons.mp hpart
    cases lead with
    | nil => exact absurd (List.cons_eq_cons.mp hpart).1 (by decide)
    | cons u lead =>
      obtain ⟨-, hpart⟩ := List.cons_eq_cons.mp hpart
      have hmem : '.' ∈ w.2 ++ ' ' :: ':' :: (call.name ++ helper.added) := by rw [hpart]; simp
      simp only [added, List.mem_append, List.mem_cons, List.not_mem_nil, or_false] at hmem
      rcases hmem with hmem | hmem | hmem | hmem | hmem | hmem | hmem
      · exact notMem_of_word (helper.words_word w hw).2 (by decide) hmem
      · exact absurd hmem (by decide)
      · exact absurd hmem (by decide)
      · exact notMem_of_word call.name_word (by decide) hmem
      · exact absurd hmem (by decide)
      · exact hoption hmem
      · exact hlast.2.1 hmem.symm

end Helper

end RailsUpgrade.Migration
