import RailsUpgrade.Proofs.Replacing
import RailsUpgrade.Proofs.Scores
import RailsUpgrade.Relocation.Basic

/-!
# `RailsUpgrade.Proofs.Redirect`: references that follow a class

Redirecting the references in a text is one pass over it, which swaps the old name of a class for a
text that the new name stands for.

* `Relocation.Refers`: where the old name is a reference;
* `Relocation.pass_of_redirect`: redirecting as a pass;
* `Relocation.Clear`: the old name and the new text do not lead into each other;
* `Relocation.Clear.not_found_redirect`: then no reference is left;
* `Relocation.Apart.redirect_redirect`: and redirecting again changes nothing.
-/

set_option autoImplicit false

namespace RailsUpgrade

open Pattern (CharSet Match Pass Swap TemplatePart TemplateInput Token startsWithWord tokens
  templateParts readTemplate fillTemplate mem_ends_seq mem_ends_anchor ends_notBehind
  pass_replaceAll)

/-! ### Templates -/

namespace Pattern

theorem tokens_append {s : List Char} (h : '\\' ∉ s) (t : List Char) :
    tokens (s ++ t) = s.map .plain ++ tokens t := by
  induction s with
  | nil => rfl
  | cons c s ih =>
    rw [List.mem_cons, not_or] at h
    rw [List.cons_append, tokens, ih h.2]
    · rfl
    · intro hc
      exact absurd hc.symm h.1
    · intro _ _ hc
      exact absurd hc.symm h.1

theorem templateParts_plain {p : Pattern} (fuel : Nat) (c : Char) (rest : List Token) (pos : Nat) :
    templateParts p (fuel + 1) ⟨.plain c :: rest, pos⟩ =
      if rest.head? = some .dangling then .error (.trailingBackslash, pos + 1)
      else (templateParts p fuel ⟨rest, pos + 1⟩).map fun parts => parts.map (.char c :: ·) := by
  rw [templateParts]
  simp only [TemplateInput.step, TemplateInput.checked, Token.width, beq_iff_eq]
  split
  · rfl
  · show Except.bind (templateParts p fuel ⟨rest, pos + 1⟩) _ = _
    cases templateParts p fuel ⟨rest, pos + 1⟩ <;> rfl

/-- The plain characters that a template begins with are put in as they are. -/
theorem chars_of_templateParts {p : Pattern} {s : List Char} {more : List Token} {fuel pos : Nat}
    {parts : List TemplatePart} (hfuel : s.length ≤ fuel)
    (h : templateParts p fuel ⟨s.map .plain ++ more, pos⟩ = .ok (.ok parts)) :
    s.map .char <+: parts := by
  induction s generalizing fuel pos parts with
  | nil => exact List.nil_prefix
  | cons c s ih =>
    cases fuel with
    | zero => simp at hfuel
    | succ fuel =>
      rw [List.map_cons, List.cons_append, templateParts_plain] at h
      split at h
      · cases h
      · cases hrest : templateParts p fuel ⟨s.map .plain ++ more, pos + 1⟩ with
        | error e =>
          rw [hrest] at h
          cases h
        | ok named =>
          rw [hrest] at h
          cases named with
          | error name => cases h
          | ok rest =>
            cases h
            exact (List.prefix_cons_inj _).mpr (ih (Nat.le_of_succ_le_succ hfuel) hrest)

theorem templateParts_of_plain {p : Pattern} {s : List Char} {fuel : Nat} (pos : Nat)
    (hfuel : s.length ≤ fuel) :
    templateParts p fuel ⟨s.map .plain, pos⟩ = .ok (.ok (s.map .char)) := by
  induction s generalizing fuel pos with
  | nil => cases fuel <;> rfl
  | cons c s ih =>
    cases fuel with
    | zero => simp at hfuel
    | succ fuel =>
      have hclosed : (s.map Token.plain).head? ≠ some .dangling := by
        cases s <;> simp
      rw [List.map_cons, templateParts_plain, if_neg hclosed, ih _ (Nat.le_of_succ_le_succ hfuel)]
      rfl

/-- A template that begins with plain characters puts them in first. -/
theorem chars_of_readTemplate {p : Pattern} {template : String} {s t : List Char}
    {parts : List TemplatePart} (htemplate : template.toList = s ++ t) (hs : '\\' ∉ s)
    (h : readTemplate p template = .ok parts) : s.map .char <+: parts := by
  rw [readTemplate, htemplate, tokens_append hs] at h
  split at h
  · cases h
  · cases h
  · rename_i parts' hparts
    cases h
    rw [TemplateInput.checked] at hparts
    split at hparts
    · cases hparts
    · exact chars_of_templateParts (by simp; omega) hparts

/-- A template without backslashes is put in as it is. -/
theorem readTemplate_of_notMem {p : Pattern} {template : String} (h : '\\' ∉ template.toList) :
    readTemplate p template = .ok (template.toList.map .char) := by
  have htokens : tokens template.toList = template.toList.map .plain := by
    simpa [tokens] using tokens_append h []
  rw [readTemplate, htokens, TemplateInput.checked, if_neg (by simp)]
  simp only [Except.bind]
  rw [templateParts_of_plain 0 (by simp)]

end Pattern

/-! ### References as a pass -/

namespace Relocation

variable {r : Relocation} {text : List Char}

/-- What must not stand right before a reference. -/
def guard (r : Relocation) : CharSet :=
  .ofItems (if r.bare then [.kind .word false false, .one ':'] else [.kind .word false false])

theorem mem_guard (r : Relocation) (x : Char) :
    r.guard.mem x = (Text.isWord x || (r.bare && x == ':')) := by
  unfold guard
  cases r.bare <;> simp [Pattern.CharItem.mem, Pattern.CharKind.mem]

/-- The old name is a reference between two texts, the first of them nearest character first. -/
structure Refers (r : Relocation) (before after : List Char) : Prop where
  free : before.head?.any r.guard.mem = false
  edge : startsWithWord false (r.oldConstant.toList.reverse ++ before) ≠ startsWithWord false after

/-- The old name is swapped for a text wherever it is a reference. -/
def swapped (r : Relocation) (new : List Char) : Swap := fun before taken after new' =>
  taken = r.oldConstant.toList ∧ r.Refers before after ∧ new' = new

/-- What a part of a template stands for in a reference, which has no groups. -/
def filled (r : Relocation) : TemplatePart → List Char
  | .char c => [c]
  | .group 0 => r.oldConstant.toList
  | .group _ => []

/-- The text that the references are swapped for, unless the new name is no template. -/
def replacement? (r : Relocation) : Option (List Char) :=
  (readTemplate r.references r.newConstant).toOption.map (·.flatMap r.filled)

theorem references_expr (r : Relocation) : r.references.expr =
    .seq (.look 1 false (.one r.guard)) (.seq (.literal r.oldConstant.toList)
      (.anchor (.wordEdge false))) :=
  rfl

/-- A reference is the old name, at a place where it refers to the class. -/
theorem mem_ends_references {c c' : Pattern.Cursor} :
    c' ∈ r.references.expr.ends c ↔ ∃ after, c.after = r.oldConstant.toList ++ after ∧
      r.Refers c.before after ∧ c' = c.shift r.oldConstant.toList.length := by
  rw [references_expr]
  simp only [mem_ends_seq, mem_ends_anchor, ends_notBehind, Pattern.ends_literal]
  constructor
  · rintro ⟨c₁, h₁, c₂, h₂, rfl, hedge⟩
    split at h₁
    · cases h₁
    · rename_i hfree
      obtain rfl := List.mem_singleton.mp h₁
      split at h₂
      · rename_i hpre
        obtain ⟨after, hafter⟩ := hpre
        obtain rfl := List.mem_singleton.mp h₂
        refine ⟨after, hafter.symm, ⟨by simpa using hfree, ?_⟩, rfl⟩
        simpa [Pattern.Anchor.holds, Pattern.Cursor.shift, ← hafter] using hedge
      · cases h₂
  · rintro ⟨after, hafter, hrefers, rfl⟩
    have hedge : (Pattern.Anchor.wordEdge false).holds (c.shift r.oldConstant.toList.length) =
        true := by
      simpa [Pattern.Anchor.holds, Pattern.Cursor.shift, hafter] using hrefers.edge
    refine ⟨c, by simp [hrefers.free], _, ?_, rfl, hedge⟩
    rw [if_pos (by rw [hafter]; exact List.prefix_append _ _)]
    exact List.mem_singleton_self _

/-- Every reference is swapped for the same text. -/
theorem fillTemplate_reference (parts : List TemplatePart) {before after : List Char} {pos : Nat} :
    fillTemplate parts ⟨{ before, after := r.oldConstant.toList ++ after, pos },
      Pattern.Cursor.shift { before, after := r.oldConstant.toList ++ after, pos }
        r.oldConstant.toList.length⟩ = parts.flatMap r.filled := by
  unfold fillTemplate
  congr 1
  funext part
  cases part with
  | char c => rfl
  | group i =>
    cases i with
    | zero => simp [TemplatePart.fill, filled, Match.text, Pattern.Cursor.textTo, Pattern.Cursor.shift]
    | succ i => rfl

theorem swaps_references (hold : r.oldConstant ≠ "") (parts : List TemplatePart) :
    r.references.expr.Swaps (fillTemplate parts) (r.swapped (parts.flatMap r.filled)) where
  sound := by
    intro before after pos c hc
    obtain ⟨rest, hafter, hrefers, rfl⟩ := mem_ends_references.mp (List.mem_of_head? hc)
    obtain rfl : after = r.oldConstant.toList ++ rest := hafter
    refine ⟨r.oldConstant.toList, by simpa using hold, Pattern.takes_shift_length rfl, rfl, ?_,
      fillTemplate_reference parts⟩
    simpa using hrefers
  complete := by
    rintro before taken after new pos ⟨rfl, hrefers, -⟩ hnone
    have hmem := mem_ends_references (c := { before, after := r.oldConstant.toList ++ after, pos })
      |>.mpr ⟨after, rfl, hrefers, rfl⟩
    rw [hnone] at hmem
    cases hmem

/-- A text whose references were redirected is one pass over the text. -/
theorem pass_of_redirect (hold : r.oldConstant ≠ "") {new : List Char}
    (h : r.redirect text = .ok new) :
    ∃ fill, r.replacement? = some fill ∧ Pass (r.swapped fill) [] text new := by
  unfold redirect Pattern.replaceTemplate at h
  unfold replacement?
  cases hparts : readTemplate r.references r.newConstant with
  | error e =>
    rw [hparts] at h
    cases h
  | ok parts =>
    rw [hparts] at h
    cases h
    exact ⟨_, rfl, pass_replaceAll (swaps_references hold parts) text⟩

/-- A new name without backslashes is put in as it is. -/
theorem replacement?_of_notMem (h : '\\' ∉ r.newConstant.toList) :
    r.replacement? = some r.newConstant.toList := by
  rw [replacement?, Pattern.readTemplate_of_notMem h]
  simp [Except.toOption, filled, List.flatMap_map]

/-- References can be redirected if the new name can be read as a template. -/
theorem exists_redirect (h : r.replacement?.isSome = true) (text : List Char) :
    ∃ new, r.redirect text = .ok new := by
  rw [replacement?] at h
  rw [redirect, Pattern.replaceTemplate]
  cases hparts : readTemplate r.references r.newConstant with
  | error e =>
    rw [hparts] at h
    cases h
  | ok parts => exact ⟨_, rfl⟩

theorem exists_redirect_of_notMem (h : '\\' ∉ r.newConstant.toList) (text : List Char) :
    ∃ new, r.redirect text = .ok new :=
  exists_redirect (by rw [replacement?_of_notMem h]; rfl) text

/-- The references to a class are found where its name is one. -/
theorem found_references_iff (hold : r.oldConstant ≠ "") : r.references.expr.found text = true ↔
    ∃ front after, text = front ++ (r.oldConstant.toList ++ after) ∧ r.Refers front.reverse after := by
  rw [Pattern.found_iff (swaps_references hold []) text]
  constructor
  · rintro ⟨front, taken, after, new, rfl, rfl, hrefers, -⟩
    exact ⟨front, after, rfl, hrefers⟩
  · rintro ⟨front, after, rfl, hrefers⟩
    exact ⟨front, _, after, _, rfl, rfl, hrefers, rfl⟩

/-- A text whose references were redirected has no characters that neither it nor the text that was
put in had. -/
theorem notMem_of_redirect {c : Char} (hold : r.oldConstant ≠ "") {fill new : List Char}
    (hfill : r.replacement? = some fill) (hc : c ∉ fill) (htext : c ∉ text)
    (hnew : r.redirect text = .ok new) : c ∉ new := by
  obtain ⟨fill', hfill', hpass⟩ := pass_of_redirect hold hnew
  obtain rfl : fill = fill' := Option.some.inj (hfill.symm.trans hfill')
  refine hpass.notMem htext fun before taken after swapped hswap => ?_
  rw [hswap.2.2]
  exact hc

end Relocation

/-! ### Words of a name -/

section

variable {s t : List Char}

theorem takeWhile_eq_nil_of_startsWithWord (h : startsWithWord false t = false) :
    t.takeWhile Text.isWord = [] := by
  cases t with
  | nil => rfl
  | cons c t =>
    have hc : Text.isWord c = false := h
    simp [hc]

theorem takeWhile_append_of_startsWithWord (h : startsWithWord false t = false) :
    (s ++ t).takeWhile Text.isWord = s.takeWhile Text.isWord := by
  rw [List.takeWhile_append]
  split
  · rename_i hall
    rw [takeWhile_eq_nil_of_startsWithWord h, List.append_nil, List.takeWhile_prefix _ |>.eq_of_length hall]
  · rfl

theorem startsWithWord_reverse {word : List Char} (h : word.all Text.isWord = true) (hne : word ≠ [])
    (before : List Char) : startsWithWord false (word.reverse ++ before) = true := by
  obtain ⟨lead, c, rfl⟩ := (List.eq_nil_or_concat' word).resolve_left hne
  have hc : Text.isWord c = true := List.all_eq_true.mp h c (by simp)
  rw [List.reverse_append]
  exact hc

/-- Where no word character stands before a place in a name, one of its words begins there, or
none at all. -/
theorem takeWhile_of_join {words : List (List Char)}
    (hwords : ∀ word ∈ words, word.all Text.isWord = true)
    (h : Text.join [':', ':'] words = s ++ t) (hs : startsWithWord false s.reverse = false) :
    t.takeWhile Text.isWord = [] ∨ (s = [] ∧ words.head? = some (t.takeWhile Text.isWord)) ∨
      t.takeWhile Text.isWord ∈ words.tail := by
  induction words generalizing s with
  | nil =>
    obtain ⟨-, rfl⟩ := List.append_eq_nil_iff.mp h.symm
    exact .inl rfl
  | cons word words ih =>
    have hword := hwords word (by simp)
    -- Inside a word there is a word character before every place.
    have hinside : ∀ more rest, word = s ++ more → t = more ++ rest →
        startsWithWord false rest = false →
        s = [] ∧ (word :: words).head? = some (t.takeWhile Text.isWord) := by
      rintro more rest rfl rfl hrest
      obtain rfl : s = [] := by
        by_contra hne
        have hpart : s.all Text.isWord = true := by
          rw [List.all_append, Bool.and_eq_true] at hword
          exact hword.1
        simpa [hs] using startsWithWord_reverse hpart hne []
      refine ⟨rfl, ?_⟩
      rw [takeWhile_append_of_startsWithWord hrest, List.takeWhile_eq_self_iff.mpr]
      · rfl
      · simpa using hword
    by_cases hlast : words = []
    · subst hlast
      exact .inr (.inl (hinside t [] h (by simp) rfl))
    · rw [Text.join_cons _ _ hlast, List.append_assoc] at h
      rcases List.append_eq_append_iff.mp h with ⟨tail, rfl, htail⟩ | ⟨more, hmore, ht⟩
      · rcases tail with _ | ⟨c, _ | ⟨d, tail⟩⟩
        · obtain rfl : ':' :: ':' :: Text.join [':', ':'] words = t := htail
          exact .inl rfl
        · obtain ⟨-, rfl⟩ : ':' = c ∧ ':' :: Text.join [':', ':'] words = t := by simpa using htail
          exact .inl rfl
        · obtain ⟨-, -, hrest⟩ : ':' = c ∧ ':' = d ∧ Text.join [':', ':'] words = tail ++ t := by
            simpa using htail
          have hbefore : startsWithWord false tail.reverse = false := by
            cases hreverse : tail.reverse with
            | nil => rfl
            | cons x left =>
              have hx : startsWithWord false (x :: (left ++ d :: c :: word.reverse)) = false := by
                simpa [hreverse] using hs
              exact hx
          rcases ih (fun w hw => hwords w (by simp [hw])) hrest hbefore with hnone | ⟨-, hhead⟩ | hmem
          · exact .inl hnone
          · exact .inr (.inr (List.mem_of_mem_head? hhead))
          · exact .inr (.inr (List.mem_of_mem_tail hmem))
      · exact .inr (.inl (hinside more _ hmore ht rfl))

/-- A name begins with its first word. -/
theorem takeWhile_join {word : List Char} {words : List (List Char)} (hword : word.all Text.isWord = true)
    (h : startsWithWord false t = false) :
    (Text.join [':', ':'] (word :: words) ++ t).takeWhile Text.isWord = word := by
  have hself : word.takeWhile Text.isWord = word :=
    List.takeWhile_eq_self_iff.mpr (List.all_eq_true.mp hword)
  cases words with
  | nil => rw [Text.join, takeWhile_append_of_startsWithWord h, hself]
  | cons next more =>
    rw [Text.join_cons _ _ (by simp), List.append_assoc, List.append_assoc,
      takeWhile_append_of_startsWithWord rfl, hself]

/-- A name ends with a word. -/
theorem startsWithWord_join {words : List (List Char)} (hne : words ≠ [])
    (hwords : ∀ word ∈ words, word ≠ [] ∧ word.all Text.isWord = true) (before : List Char) :
    startsWithWord false ((Text.join [':', ':'] words).reverse ++ before) = true := by
  induction words generalizing before with
  | nil => exact absurd rfl hne
  | cons word words ih =>
    by_cases hlast : words = []
    · subst hlast
      obtain ⟨hword, hall⟩ := hwords word (by simp)
      exact startsWithWord_reverse hall hword before
    · rw [Text.join_cons _ _ hlast, List.reverse_append, List.append_assoc]
      exact ih hlast (fun w hw => hwords w (by simp [hw])) _

end

/-! ### What a pass leaves -/

section

variable {s t : List Char}

theorem startsWithWord_append (h : s ≠ []) (t : List Char) :
    startsWithWord false (s ++ t) = startsWithWord false s := by
  obtain ⟨c, s, rfl⟩ := List.exists_cons_of_ne_nil h
  rfl

theorem head?_reverse_append (h : s ≠ []) (t : List Char) : (s.reverse ++ t).head? = s.getLast? := by
  rw [List.head?_append_of_ne_nil _ (List.reverse_ne_nil_iff.mpr h), List.head?_reverse]

/-- A word ends inside a text, or where no word character follows the text. -/
theorem takeWhile_append_of_edge
    (h : (s ≠ [] ∧ startsWithWord false s.reverse = false) ∨ startsWithWord false t = false) :
    (s ++ t).takeWhile Text.isWord = s.takeWhile Text.isWord := by
  obtain ⟨hne, hend⟩ | hend := h
  · obtain ⟨lead, c, rfl⟩ := (List.eq_nil_or_concat' s).resolve_left hne
    have hc : Text.isWord c = false := by
      rw [List.reverse_append] at hend
      exact hend
    have hshort : (lead ++ [c]).takeWhile Text.isWord ≠ lead ++ [c] := by
      intro hall
      rw [List.takeWhile_eq_self_iff] at hall
      rw [hall c (by simp)] at hc
      cases hc
    rw [List.takeWhile_append, if_neg]
    exact fun hlength => hshort ((List.takeWhile_prefix _).eq_of_length hlength)
  · exact takeWhile_append_of_startsWithWord hend

end

namespace Relocation

variable {r : Relocation} {before text result fill : List Char}

/-- The old name and the text that is put in its place do not lead into each other: no word of the
text is the first word of the name, and no later word of the name is the first word of the text. -/
structure Clear (r : Relocation) (fill : List Char) : Prop where
  old_starts : startsWithWord false r.oldConstant.toList = true
  fill_starts : startsWithWord false fill = true
  last : startsWithWord false r.oldConstant.toList.reverse = true ∨
    fill.getLast? = r.oldConstant.toList.getLast?
  first : ∀ lead rest, fill = lead ++ rest → startsWithWord false lead.reverse = false →
    rest.takeWhile Text.isWord ≠ r.oldConstant.toList.takeWhile Text.isWord
  later : ∀ lead rest, r.oldConstant.toList = lead ++ rest → lead ≠ [] →
    startsWithWord false lead.reverse = false →
    rest.takeWhile Text.isWord ≠ fill.takeWhile Text.isWord

/-- A character that must not stand before a reference may be none of a word. -/
theorem startsWithWord_of_free (h : before.head?.any r.guard.mem = false) :
    startsWithWord false before = false := by
  cases before with
  | nil => rfl
  | cons x left =>
    have hx : r.guard.mem x = false := h
    rw [mem_guard, Bool.or_eq_false_iff] at hx
    exact hx.1

/-- Where a text does not begin with a word, what a pass makes of it does not either. -/
theorem startsWithWord_of_pass (hold : startsWithWord false r.oldConstant.toList = true)
    (hpass : Pass (r.swapped fill) before text result)
    (htext : startsWithWord false text = false) : startsWithWord false result = false := by
  cases hpass with
  | done => exact htext
  | keep => exact htext
  | hit takes hswap _ =>
    obtain ⟨rfl, -, -⟩ := hswap
    rw [startsWithWord_append takes, hold] at htext
    cases htext

namespace Clear

variable (h : r.Clear fill)

include h

theorem old_ne : r.oldConstant.toList ≠ [] := by
  intro hnil
  have hstarts := h.old_starts
  rw [hnil] at hstarts
  cases hstarts

theorem fill_ne : fill ≠ [] := by
  intro hnil
  have hstarts := h.fill_starts
  rw [hnil] at hstarts
  cases hstarts

/-- A reference is followed by a word character if the name does not end with one, and only then. -/
theorem refers_iff {after : List Char} : r.Refers before after ↔
    before.head?.any r.guard.mem = false ∧
      startsWithWord false after = !startsWithWord false r.oldConstant.toList.reverse := by
  have hend := startsWithWord_append (List.reverse_ne_nil_iff.mpr h.old_ne) before
  constructor
  · rintro ⟨hfree, hedge⟩
    rw [hend] at hedge
    refine ⟨hfree, ?_⟩
    rw [← Bool.eq_not.mpr (Ne.symm hedge)]
  · rintro ⟨hfree, hafter⟩
    refine ⟨hfree, ?_⟩
    rw [hend, hafter]
    exact Bool.eq_not.mp (by simp)

omit h in
/-- A part of the old name at its end ends as the name does. -/
theorem startsWithWord_rest {part rest : List Char} (hold : r.oldConstant.toList = part ++ rest)
    (hrest : rest ≠ []) :
    startsWithWord false rest.reverse = startsWithWord false r.oldConstant.toList.reverse := by
  rw [hold, List.reverse_append, startsWithWord_append (List.reverse_ne_nil_iff.mpr hrest)]

omit h in
/-- A part of the old name at its end is followed by a reference's edge: its first word ends there. -/
theorem takeWhile_rest {part rest after : List Char} (hold : r.oldConstant.toList = part ++ rest)
    (hrest : rest ≠ [])
    (hafter : startsWithWord false after = !startsWithWord false r.oldConstant.toList.reverse) :
    (rest ++ after).takeWhile Text.isWord = rest.takeWhile Text.isWord := by
  apply takeWhile_append_of_edge
  rw [← startsWithWord_rest hold hrest] at hafter
  cases hend : startsWithWord false rest.reverse with
  | false => exact .inl ⟨hrest, rfl⟩
  | true =>
    rw [hend] at hafter
    exact .inr hafter

/-- A part of the text that was put in, at its end, is followed by an edge: its first word ends
there. -/
theorem takeWhile_fill {lead rest after result : List Char} (hfill : fill = lead ++ rest)
    (hrest : rest ≠ [])
    (hafter : startsWithWord false after = !startsWithWord false r.oldConstant.toList.reverse)
    (hpass : Pass (r.swapped fill) before after result) :
    (rest ++ result).takeWhile Text.isWord = rest.takeWhile Text.isWord := by
  apply takeWhile_append_of_edge
  cases hend : startsWithWord false r.oldConstant.toList.reverse with
  | true =>
    rw [hend] at hafter
    exact .inr (startsWithWord_of_pass h.old_starts hpass hafter)
  | false =>
    -- Both the name and the text that is put in end with the same character.
    have hlast := h.last.resolve_left (by simp [hend])
    refine .inl ⟨hrest, ?_⟩
    have hsame : startsWithWord false fill.reverse = startsWithWord false r.oldConstant.toList.reverse := by
      rw [startsWithWord, startsWithWord, List.head?_reverse, List.head?_reverse, hlast]
    rwa [hend, hfill, List.reverse_append, startsWithWord_append (List.reverse_ne_nil_iff.mpr hrest)] at hsame

/-- The rest of the old name that a pass has made, behind a part of it that was kept, was there
before. -/
theorem rest_of_pass (hpass : Pass (r.swapped fill) before text result)
    (part : List Char) {rest after : List Char} (hold : r.oldConstant.toList = part ++ rest)
    (hpart : part ≠ [])
    (hbefore : before.head? = part.reverse.head?) (hresult : result = rest ++ after)
    (hafter : startsWithWord false after = !startsWithWord false r.oldConstant.toList.reverse) :
    ∃ after', text = rest ++ after' ∧
      startsWithWord false after' = !startsWithWord false r.oldConstant.toList.reverse := by
  induction hpass generalizing part rest with
  | done before =>
    obtain ⟨rfl, rfl⟩ := List.append_eq_nil_iff.mp hresult.symm
    exact ⟨[], rfl, hafter⟩
  | @keep before more result x _ _ ih =>
    cases rest with
    | nil =>
      refine ⟨x :: more, rfl, ?_⟩
      rw [List.nil_append] at hresult
      rw [← hresult] at hafter
      exact hafter
    | cons y rest =>
      obtain ⟨rfl, hmore⟩ := List.cons_eq_cons.mp hresult
      obtain ⟨after', rfl, hafter'⟩ := ih (part ++ [x]) (by simpa using hold) (by simp)
        (by simp) hmore
      exact ⟨after', rfl, hafter'⟩
  | @hit before taken after' new result _ hswap hmore _ =>
    obtain ⟨rfl, hrefers, rfl⟩ := hswap
    by_cases hrest : rest = []
    · -- Both the old name and the text that is put in begin with a word.
      subst hrest
      refine ⟨r.oldConstant.toList ++ after', rfl, ?_⟩
      rw [← hafter, ← show new ++ result = after from hresult, startsWithWord_append h.old_ne,
        startsWithWord_append h.fill_ne, h.old_starts, h.fill_starts]
    · -- The new text would begin where a later word of the old name does.
      have hfree : startsWithWord false part.reverse = false := by
        have hsame : startsWithWord false before = startsWithWord false part.reverse := by
          rw [startsWithWord, startsWithWord, hbefore]
        rw [← hsame]
        exact startsWithWord_of_free hrefers.free
      refine absurd ?_ (h.later part rest hold hpart hfree)
      rw [← takeWhile_rest hold hrest hafter, ← hresult]
      exact h.takeWhile_fill (List.nil_append _).symm h.fill_ne (h.refers_iff.mp hrefers).2 hmore

/-- A pass leaves no reference. -/
theorem not_refers_of_pass (hpass : Pass (r.swapped fill) before text result)
    (left front : List Char) {after : List Char}
    (hleft : startsWithWord false text = true →
      left.head?.any r.guard.mem = before.head?.any r.guard.mem)
    (hresult : result = front ++ (r.oldConstant.toList ++ after)) :
    ¬ r.Refers (front.reverse ++ left) after := by
  intro hrefers
  obtain ⟨hfree, hafter⟩ := h.refers_iff.mp hrefers
  induction hpass generalizing left front with
  | done before =>
    exact h.old_ne (List.append_eq_nil_iff.mp (List.append_eq_nil_iff.mp hresult.symm).2).1
  | @keep before rest result x hidle hmore ih =>
    cases front with
    | nil =>
      -- The whole name would have been there before, so it would not have been kept.
      obtain ⟨y, name, hold⟩ := List.exists_cons_of_ne_nil h.old_ne
      rw [List.nil_append, hold, List.cons_append] at hresult
      obtain ⟨rfl, hrest⟩ := List.cons_eq_cons.mp hresult
      obtain ⟨after', rfl, hafter'⟩ := h.rest_of_pass hmore [x] hold (by simp) rfl
        hrest hafter
      refine hidle r.oldConstant.toList after' fill (by rw [hold]; rfl)
        ⟨rfl, h.refers_iff.mpr ⟨?_, hafter'⟩, rfl⟩
      have hword : startsWithWord false (x :: (name ++ after')) = true := by
        have hstarts := h.old_starts
        rw [hold] at hstarts
        exact hstarts
      rw [← hleft hword]
      exact hfree
    | cons y front =>
      obtain ⟨rfl, hrest⟩ := List.cons_eq_cons.mp hresult
      refine ih (x :: left) front (fun _ => rfl) hrest ?_ ?_
      · simpa using hrefers
      · simpa using hfree
  | @hit before taken after' new result _ hswap hmore ih =>
    obtain ⟨rfl, hrefers', rfl⟩ := hswap
    have hbehind := (h.refers_iff.mp hrefers').2
    -- Behind the text that was put in, the induction goes on.
    have hlater : ∀ front', front = new ++ front' → result = front' ++ (r.oldConstant.toList ++ after) →
        False := by
      rintro front' rfl hrest
      refine ih (new.reverse ++ left) front' (fun hword => ?_) hrest ?_ ?_
      · rw [hword] at hbehind
        have hlast := h.last.resolve_left (by simpa using hbehind.symm)
        rw [head?_reverse_append h.fill_ne, head?_reverse_append h.old_ne, hlast]
      · simpa using hrefers
      · simpa using hfree
    rcases List.append_eq_append_iff.mp hresult with ⟨front', rfl, hrest⟩ | ⟨more, hnew, hrest⟩
    · exact hlater front' rfl hrest
    · by_cases hmore' : more = []
      · subst hmore'
        exact hlater [] (by simpa using hnew.symm) (by simpa using hrest.symm)
      · -- The old name would begin with one of the words of the new text.
        have hfront : startsWithWord false front.reverse = false := by
          by_cases hnil : front = []
          · rw [hnil]
            rfl
          · have hword := startsWithWord_of_free hfree
            rwa [startsWithWord_append (List.reverse_ne_nil_iff.mpr hnil)] at hword
        refine h.first front more hnew hfront ?_
        rw [← h.takeWhile_fill hnew hmore' hbehind hmore, ← hrest]
        exact takeWhile_rest (List.nil_append _).symm h.old_ne hafter

/-- A text whose references were redirected has none. -/
theorem not_found_redirect (hfill : r.replacement? = some fill) {new : List Char}
    (hnew : r.redirect text = .ok new) : r.references.expr.found new = false := by
  have hold : r.oldConstant ≠ "" := fun hnil => h.old_ne (by rw [hnil]; rfl)
  obtain ⟨fill', hfill', hpass⟩ := pass_of_redirect hold hnew
  obtain rfl : fill = fill' := Option.some.inj (hfill.symm.trans hfill')
  rw [← Bool.not_eq_true, found_references_iff hold]
  rintro ⟨front, after, hfront, hrefers⟩
  refine h.not_refers_of_pass hpass [] front (fun _ => rfl) hfront ?_
  rwa [List.append_nil]

end Clear

end Relocation

/-! ### Redirecting twice -/

namespace Relocation

variable {r : Relocation} {before text result : List Char}

/-- Both names are made of words, and neither name leads into the other: the word that the old one
begins with is none of the new one, and the word that the new one begins with comes up in the old one
at its start at most. -/
structure Apart (r : Relocation) (first : List Char) (olds : List (List Char)) (lead : List Char)
    (news : List (List Char)) : Prop where
  old_eq : r.oldConstant.toList = Text.join [':', ':'] (first :: olds)
  new_eq : r.newConstant.toList = Text.join [':', ':'] (lead :: news)
  isWord : ∀ word ∈ first :: olds ++ lead :: news, word ≠ [] ∧ word.all Text.isWord = true
  first_notMem : first ∉ lead :: news
  lead_notMem : lead ∉ olds

namespace Apart

variable {first lead : List Char} {olds news : List (List Char)} (h : r.Apart first olds lead news)

include h

/-- The last word of a name ends the name. -/
theorem startsWithWord_old (before : List Char) :
    startsWithWord false (r.oldConstant.toList.reverse ++ before) = true := by
  rw [h.old_eq]
  exact startsWithWord_join (by simp) (fun w hw => h.isWord w (List.mem_append_left _ hw)) before

theorem old_ne : r.oldConstant ≠ "" := by
  intro hnil
  have hword := h.startsWithWord_old []
  rw [hnil] at hword
  cases hword

theorem takeWhile_old : r.oldConstant.toList.takeWhile Text.isWord = first := by
  have hword : (Text.join [':', ':'] (first :: olds) ++ []).takeWhile Text.isWord = first :=
    takeWhile_join (h.isWord first (by simp)).2 rfl
  rwa [List.append_nil, ← h.old_eq] at hword

theorem takeWhile_new : r.newConstant.toList.takeWhile Text.isWord = lead := by
  have hword : (Text.join [':', ':'] (lead :: news) ++ []).takeWhile Text.isWord = lead :=
    takeWhile_join (h.isWord lead (by simp)).2 rfl
  rwa [List.append_nil, ← h.new_eq] at hword

/-- The names do not lead into each other. -/
theorem clear : r.Clear r.newConstant.toList where
  old_starts := by
    by_contra hstarts
    have hnil := takeWhile_eq_nil_of_startsWithWord (by simpa using hstarts)
    exact (h.isWord first (by simp)).1 (h.takeWhile_old.symm.trans hnil)
  fill_starts := by
    by_contra hstarts
    have hnil := takeWhile_eq_nil_of_startsWithWord (by simpa using hstarts)
    exact (h.isWord lead (by simp)).1 (h.takeWhile_new.symm.trans hnil)
  last := .inl (by simpa using h.startsWithWord_old [])
  first := by
    intro front rest hnew hfree hsame
    -- The first word of the old name stands nowhere in the new one.
    rw [h.takeWhile_old] at hsame
    rcases takeWhile_of_join (fun w hw => (h.isWord w (List.mem_append_right _ hw)).2)
      (h.new_eq.symm.trans hnew) hfree with hnone | ⟨-, hhead⟩ | hmem
    · exact (h.isWord first (by simp)).1 (hsame.symm.trans hnone)
    · rw [hsame] at hhead
      exact h.first_notMem (List.mem_of_mem_head? hhead)
    · rw [hsame] at hmem
      exact h.first_notMem (List.mem_of_mem_tail hmem)
  later := by
    intro front rest hold hne hfree hsame
    -- Nor does the first word of the new name stand in the old one.
    rw [h.takeWhile_new] at hsame
    rcases takeWhile_of_join (fun w hw => (h.isWord w (List.mem_append_left _ hw)).2)
      (h.old_eq.symm.trans hold) hfree with hnone | ⟨hnil, -⟩ | hmem
    · exact (h.isWord lead (by simp)).1 (hsame.symm.trans hnone)
    · exact hne hnil
    · rw [hsame] at hmem
      exact h.lead_notMem hmem

/-- There are no characters but those of words and colons in the new name. -/
theorem notMem_new {c : Char} (hword : Text.isWord c = false) (hcolon : c ≠ ':') :
    c ∉ r.newConstant.toList := by
  rw [h.new_eq]
  intro hmem
  rcases Text.mem_join hmem with hsep | ⟨word, hmember, hmem⟩
  · simp [hcolon] at hsep
  · have hall := (h.isWord word (List.mem_append_right _ hmember)).2
    rw [List.all_eq_true.mp hall _ hmem] at hword
    cases hword

theorem backslash_notMem : '\\' ∉ r.newConstant.toList := h.notMem_new (by decide) (by decide)

theorem replacement?_eq : r.replacement? = some r.newConstant.toList :=
  replacement?_of_notMem h.backslash_notMem

theorem exists_redirect (text : List Char) : ∃ new, r.redirect text = .ok new :=
  exists_redirect_of_notMem h.backslash_notMem text

/-- Redirecting the references of a text a second time changes nothing. -/
theorem redirect_redirect {new : List Char} (hnew : r.redirect text = .ok new) :
    r.redirect new = .ok new := by
  obtain ⟨again, hagain⟩ := h.exists_redirect new
  obtain ⟨fill, hfill, hpass⟩ := pass_of_redirect h.old_ne hnew
  obtain ⟨fill', hfill', hpass'⟩ := pass_of_redirect h.old_ne hagain
  rw [h.replacement?_eq] at hfill hfill'
  cases hfill
  cases hfill'
  have hsame : again = new := by
    refine hpass'.eq_self fun front taken after swapped htext hswap => ?_
    obtain ⟨rfl, hrefers, -⟩ := hswap
    exact absurd hrefers (h.clear.not_refers_of_pass hpass [] front (fun _ => rfl) htext)
  rw [hagain, hsame]

/-- A text whose references were redirected has no characters that neither it nor the new name had. -/
theorem notMem_redirect {c : Char} (hword : Text.isWord c = false) (hcolon : c ≠ ':')
    (htext : c ∉ text) {new : List Char} (hnew : r.redirect text = .ok new) : c ∉ new :=
  notMem_of_redirect h.old_ne h.replacement?_eq (h.notMem_new hword hcolon) htext hnew

end Apart

end Relocation

end RailsUpgrade
