import RailsUpgrade.Migration
import RailsUpgrade.Proofs.FrameworkConfig

/-!
# `RailsUpgrade.Proofs.Headers`: the headers of migrations

A header names a class and its superclass, with any blanks in between, and may have a release line
behind it. Both patterns for headers put the same header in place of what they find:

* `Header.base_unique`, `Title.text_unique`: a text begins with at most one header;
* `Header.not_begins`: no header begins inside another one;
* `fresh`: only blanks stand between the start of a line and a place;
* `TitledFrom`: every header with a release line has the one of the target, is plain, and is the first
  thing on its line;
* `titledFrom_of_pass`: this is so once the headers of a text are replaced.
-/

set_option autoImplicit false

namespace RailsUpgrade.Migration

open Pattern (Expr CharSet Match Pass Swap Cursor mem_ends_seq mem_ends_plus mem_ends_anchor
  mem_ends_literal canTake_seq canTake_one canTake_plus canTake_chars canTake_group startsWithWord)
open Gemfile (gapSet all_gapSet exists_of_notMem)
open FrameworkConfig (isValueChar)

/-! ### Character sets -/

def wordSet : CharSet := .ofItems [.kind .word false false]

def digitSet : CharSet := .ofItems [.kind .digit false false]

@[simp] theorem mem_wordSet (x : Char) : wordSet.mem x = Text.isWord x := by
  simp [wordSet, Pattern.CharItem.mem, Pattern.CharKind.mem]

@[simp] theorem mem_digitSet (x : Char) : digitSet.mem x = Text.isDigit x := by
  simp [digitSet, Pattern.CharItem.mem, Pattern.CharKind.mem]

theorem all_wordSet (s : List Char) : s.all wordSet.mem = s.all Text.isWord := by
  rw [show wordSet.mem = Text.isWord from funext mem_wordSet]

theorem all_digitSet (s : List Char) : s.all digitSet.mem = s.all Text.isDigit := by
  rw [show digitSet.mem = Text.isDigit from funext mem_digitSet]

/-- A run that is not empty begins with one of its characters. -/
theorem head?_of_all {p q : Char → Bool} {s : List Char} (hs : s.all p = true) (hne : s ≠ [])
    (h : ∀ c, p c = true → q c = false) (rest : List Char) : (s ++ rest).head?.any q = false := by
  obtain ⟨c, s, rfl⟩ := List.exists_cons_of_ne_nil hne
  have hc : p c = true := List.all_eq_true.mp hs c List.mem_cons_self
  exact h c hc

theorem isBlank_eq_false_of_isWord {c : Char} (h : Text.isWord c = true) : Text.isBlank c = false := by
  by_contra hblank
  rw [Text.isWord_eq_false_of_isBlank (by simpa using hblank)] at h
  cases h

theorem all_isDigit_toString (n : Nat) : (toString n).toList.all Text.isDigit = true := by
  refine List.all_eq_true.mpr fun c hc => ?_
  have hc' : c ∈ Nat.toDigits 10 n := by simpa using hc
  have hdigit := Nat.isDigit_of_mem_toDigits (by decide) (by decide) hc'
  simp [Text.isDigit, Text.digitValue?, hdigit]

theorem toList_toString_ne (n : Nat) : (toString n).toList ≠ [] := by
  simp

/-! ### Headers -/

/-- The header of a migration, up to its release line. -/
@[ext] structure Header where
  gap : List Char
  name : List Char
  space : List Char
  margin : List Char
  gap_blank : gap.all Text.isBlank = true
  gap_ne : gap ≠ []
  name_word : name.all Text.isWord = true
  name_ne : name ≠ []
  space_blank : space.all Text.isBlank = true
  space_ne : space ≠ []
  margin_blank : margin.all Text.isBlank = true
  margin_ne : margin ≠ []

/-- The superclass of migrations. -/
def superclass : String := "ActiveRecord::Migration"

namespace Header

variable (h : Header)

/-- What stands in front of the `<`. -/
def front : List Char := "class".toList ++ (h.gap ++ (h.name ++ h.space))

/-- The text of a header. -/
def base : List Char := h.front ++ '<' :: (h.margin ++ superclass.toList)

theorem base_append (tail : List Char) : h.base ++ tail = "class".toList ++ (h.gap ++ (h.name ++
    (h.space ++ ("<".toList ++ (h.margin ++ (superclass.toList ++ tail)))))) := by
  have hbracket : "<".toList = ['<'] := by decide
  simp only [base, front, hbracket, List.append_assoc, List.cons_append, List.nil_append]

theorem front_eq : h.front = 'c' :: ("lass".toList ++ (h.gap ++ (h.name ++ h.space))) := by
  have hclass : "class".toList = 'c' :: "lass".toList := by decide
  rw [front, hclass, List.cons_append]

theorem base_eq : h.base = 'c' :: ("lass".toList ++ (h.gap ++ (h.name ++ h.space)) ++
    '<' :: (h.margin ++ superclass.toList)) := by
  rw [base, front_eq, List.cons_append]

theorem bracket_notMem_front : '<' ∉ h.front := by
  have hblank : ∀ {s : List Char}, s.all Text.isBlank = true → '<' ∉ s := fun hs hmem =>
    absurd (List.all_eq_true.mp hs _ hmem) (by decide)
  have hname : '<' ∉ h.name := fun hmem =>
    absurd (List.all_eq_true.mp h.name_word _ hmem) (by decide)
  have hclass : '<' ∉ "class".toList := by decide
  simp only [front, List.mem_append, not_or]
  exact ⟨hclass, hblank h.gap_blank, hname, hblank h.space_blank⟩

variable {h} {h' : Header} {rest rest' : List Char}

/-- What stands in front of the `<` is read in one way only. -/
theorem front_unique (heq : h.front = h'.front) :
    h.gap = h'.gap ∧ h.name = h'.name ∧ h.space = h'.space := by
  have hword : ∀ h : Header, (h.name ++ h.space).head?.any Text.isBlank = false := fun h =>
    head?_of_all h.name_word h.name_ne (fun _ => isBlank_eq_false_of_isWord) _
  have hblank : ∀ h : Header, h.space.head?.any Text.isWord = false := fun h => by
    simpa using head?_of_all h.space_blank h.space_ne (fun _ => Text.isWord_eq_false_of_isBlank) []
  obtain ⟨hgap, hrest⟩ := Text.span_unique h.gap_blank h'.gap_blank (hword h) (hword h')
    (List.append_cancel_left heq)
  obtain ⟨hname, hspace⟩ := Text.span_unique h.name_word h'.name_word (hblank h) (hblank h') hrest
  exact ⟨hgap, hname, hspace⟩

/-- A text begins with at most one header. -/
theorem base_unique (heq : h.base ++ rest = h'.base ++ rest') : h = h' ∧ rest = rest' := by
  have hsplit : h.front ++ '<' :: (h.margin ++ (superclass.toList ++ rest)) =
      h'.front ++ '<' :: (h'.margin ++ (superclass.toList ++ rest')) := by
    simpa [base] using heq
  obtain ⟨part, hfront, hpart⟩ := exists_of_notMem h.bracket_notMem_front hsplit
  obtain rfl : part = [] := by
    cases part with
    | nil => rfl
    | cons x part =>
      obtain ⟨rfl, -⟩ := List.cons_eq_cons.mp hpart
      exact absurd (by rw [hfront]; simp) h'.bracket_notMem_front
  obtain ⟨-, hmargin⟩ := List.cons_eq_cons.mp hpart
  have hstop : ∀ rest, (superclass.toList ++ rest).head?.any Text.isBlank = false := by
    intro rest
    have hcons : superclass.toList = 'A' :: "ctiveRecord::Migration".toList := by decide
    rw [hcons]
    rfl
  obtain ⟨hmargin, hrest⟩ := Text.span_unique h.margin_blank h'.margin_blank (hstop _) (hstop _) hmargin
  obtain ⟨hgap, hname, hspace⟩ := front_unique (hfront.trans (List.append_nil _)).symm
  exact ⟨Header.ext hgap hname hspace hmargin, List.append_cancel_left hrest⟩

/-- Wherever a text has the first letter of `class`, it goes on with another one than the second.
A test is decided in place of this: quantifiers over characters would be decided over all of them. -/
theorem tails_class {t : List Char}
    (h : (t.tails.all fun s => s.head? != some 'c' || s.tail.head?.any (· != 'l')) = true) :
    ∀ s ∈ t.tails, s.head? = some 'c' → ∃ x ∈ s.tail.head?, x ≠ 'l' := by
  intro s hs hhead
  have htest := List.all_eq_true.mp h s hs
  rw [hhead, bne_self_eq_false, Bool.false_or, Option.any_eq_true] at htest
  obtain ⟨x, hx, hne⟩ := htest
  exact ⟨x, hx, by simpa using hne⟩

/-- The letters of the superclass do not begin a header. -/
theorem superclass_tails : ∀ s ∈ superclass.toList.tails, s.head? = some 'c' →
    ∃ x ∈ s.tail.head?, x ≠ 'l' :=
  tails_class (by decide)

/-- No header begins inside another one, whatever may follow it. -/
theorem not_begins {tail lead part : List Char} (htail : 'c' ∉ tail)
    (hsplit : h.base ++ tail = lead ++ part) (hlead : lead ≠ []) (hpart : part ≠ []) :
    part ++ rest ≠ h'.base ++ rest' := by
  intro heq
  -- The part begins with `cl`, so it does not begin behind the `<`.
  obtain ⟨more, hmore⟩ : ∃ more, part ++ rest = 'c' :: 'l' :: more := by
    have hlass : "lass".toList = 'l' :: "ass".toList := by decide
    rw [heq, base_eq, hlass]
    exact ⟨_, rfl⟩
  obtain ⟨y, part, rfl⟩ := List.exists_cons_of_ne_nil hpart
  obtain ⟨rfl, hnext⟩ : y = 'c' ∧ part ++ rest = 'l' :: more := by simpa using hmore
  have hsplit' : h.front ++ '<' :: (h.margin ++ (superclass.toList ++ tail)) = lead ++ 'c' :: part := by
    simpa [base] using hsplit
  have hbehind : ∀ {s : List Char}, s.all Text.isBlank = true → 'c' ∉ s := fun hs hmem =>
    absurd (List.all_eq_true.mp hs _ hmem) (by decide)
  rcases List.append_eq_append_iff.mp hsplit' with ⟨mid, rfl, hmid⟩ | ⟨mid, hfront, hmid⟩
  · -- Behind the `<` there is no `cl`.
    cases mid with
    | nil =>
      obtain ⟨hcontra, -⟩ := List.cons_eq_cons.mp hmid
      exact absurd hcontra (by decide)
    | cons z mid =>
      obtain ⟨-, hmid⟩ := List.cons_eq_cons.mp hmid
      obtain ⟨mid, -, hsuper⟩ := exists_of_notMem (hbehind h.margin_blank) hmid
      rcases List.append_eq_append_iff.mp hsuper with ⟨mid', -, htail'⟩ | ⟨mid', hcut, hpart'⟩
      · exact htail (by rw [htail']; simp)
      · cases mid' with
        | nil =>
          rw [List.nil_append] at hpart'
          exact htail (by rw [← hpart']; simp)
        | cons u mid' =>
          obtain ⟨rfl, rfl⟩ := List.cons_eq_cons.mp hpart'
          obtain ⟨x, hx, hne⟩ := superclass_tails ('c' :: mid')
            (by rw [List.mem_tails]; exact ⟨_, hcut.symm⟩) rfl
          cases mid' with
          | nil => cases hx
          | cons u mid' =>
            obtain rfl : u = x := by simpa using hx
            obtain ⟨rfl, -⟩ : u = 'l' ∧ _ := by simpa using hnext
            exact hne rfl
  · -- In front of it there are two words, and a suffix of them has no second word.
    have hfront' : 'c' :: ("lass".toList ++ (h.gap ++ (h.name ++ h.space))) = lead ++ mid := by
      rw [← front_eq, hfront]
    have hbracket : mid ++ '<' :: (h.margin ++ (superclass.toList ++ (tail ++ rest))) =
        h'.front ++ '<' :: (h'.margin ++ (superclass.toList ++ rest')) := by
      have hbase : h'.base ++ rest' = h'.front ++ '<' :: (h'.margin ++ (superclass.toList ++ rest')) := by
        simp [base]
      rw [← hbase, ← heq, ← List.cons_append, hmid]
      simp
    have hnone : '<' ∉ mid := fun hmem =>
      h.bracket_notMem_front (by rw [hfront]; exact List.mem_append_right _ hmem)
    obtain ⟨part', hpart', hrest⟩ := exists_of_notMem hnone hbracket
    obtain rfl : part' = [] := by
      cases part' with
      | nil => rfl
      | cons x part' =>
        obtain ⟨rfl, -⟩ := List.cons_eq_cons.mp hrest
        exact absurd (by rw [hpart']; simp) h'.bracket_notMem_front
    rw [List.append_nil] at hpart'
    obtain ⟨z, lead, rfl⟩ := List.exists_cons_of_ne_nil hlead
    obtain ⟨-, htwo⟩ := List.cons_eq_cons.mp hfront'
    have hc : 'c' ∉ "lass".toList ++ h.gap := by
      rw [List.mem_append, not_or]
      exact ⟨by decide, hbehind h.gap_blank⟩
    rw [← hpart', front_eq] at htwo
    rw [← List.append_assoc] at htwo
    obtain ⟨lead', -, hwords⟩ := exists_of_notMem hc htwo
    rcases List.append_eq_append_iff.mp hwords with ⟨lead'', -, hspace⟩ | ⟨word, hname, hspace⟩
    · exact hbehind h.space_blank (by rw [hspace]; simp)
    · -- The last word would be followed by another one.
      have hword : word.all Text.isWord = true := by
        have hall := h.name_word
        rw [hname, List.all_append, Bool.and_eq_true] at hall
        exact hall.2
      have hstop : h.space.head?.any Text.isWord = false := by
        simpa using head?_of_all h.space_blank h.space_ne (fun _ => Text.isWord_eq_false_of_isBlank) []
      have hgap : (h'.gap ++ (h'.name ++ h'.space)).head?.any Text.isWord = false :=
        head?_of_all h'.gap_blank h'.gap_ne (fun _ => Text.isWord_eq_false_of_isBlank) _
      have hclass : 'c' :: ("lass".toList ++ (h'.gap ++ (h'.name ++ h'.space))) =
          "class".toList ++ (h'.gap ++ (h'.name ++ h'.space)) := by
        rw [← front_eq]
        rfl
      rw [hclass] at hspace
      obtain ⟨-, hblank⟩ := Text.span_unique (by decide) hword hgap hstop hspace
      have hall := h.space_blank
      rw [← hblank, List.all_append, List.all_append, Bool.and_eq_true, Bool.and_eq_true] at hall
      obtain ⟨c, name, hcons⟩ := List.exists_cons_of_ne_nil h'.name_ne
      have hcblank : Text.isBlank c = true := by
        have := List.all_eq_true.mp hall.2.1 c
        exact this (by rw [hcons]; simp)
      have hcword := List.all_eq_true.mp h'.name_word c (by rw [hcons]; simp)
      rw [isBlank_eq_false_of_isWord hcword] at hcblank
      cases hcblank

/-- The header with plain blanks. -/
def plain (h : Header) : Header where
  gap := [' ']
  name := h.name
  space := [' ']
  margin := [' ']
  gap_blank := Gemfile.isBlank_space
  gap_ne := Gemfile.space_ne_nil
  name_word := h.name_word
  name_ne := h.name_ne
  space_blank := Gemfile.isBlank_space
  space_ne := Gemfile.space_ne_nil
  margin_blank := Gemfile.isBlank_space
  margin_ne := Gemfile.space_ne_nil

end Header

/-- A release line behind a header. -/
@[ext] structure Title where
  major : List Char
  minor : List Char
  major_digit : major.all Text.isDigit = true
  major_ne : major ≠ []
  minor_digit : minor.all Text.isDigit = true
  minor_ne : minor ≠ []

namespace Title

variable (t : Title)

/-- The release line. -/
def line : List Char := t.major ++ '.' :: t.minor

/-- The release line in its brackets. -/
def text : List Char := '[' :: (t.line ++ [']'])

theorem line_plain : t.line.all isValueChar = true := by
  have hdigits : ∀ {s : List Char}, s.all Text.isDigit = true → s.all isValueChar = true := by
    intro s hs
    refine List.all_eq_true.mpr fun c hc => ?_
    rw [isValueChar, List.all_eq_true.mp hs c hc, Bool.true_or]
  rw [line, List.all_append, List.all_cons, hdigits t.major_digit, hdigits t.minor_digit]
  decide

theorem notMem_text {c : Char} (hc : isValueChar c = false) (hopen : c ≠ '[') (hclose : c ≠ ']') :
    c ∉ t.text := by
  have hline : c ∉ t.line := fun hmem => by
    rw [List.all_eq_true.mp t.line_plain _ hmem] at hc
    cases hc
  simp [text, hopen, hclose, hline]

variable {t} {t' : Title} {rest rest' : List Char}

theorem text_unique (heq : t.text ++ rest = t'.text ++ rest') : t.line = t'.line ∧ rest = rest' := by
  have hsplit : t.line ++ ']' :: rest = t'.line ++ ']' :: rest' := by simpa [text] using heq
  obtain ⟨hline, hrest⟩ := Text.span_unique t.line_plain t'.line_plain (by rfl) (by rfl) hsplit
  exact ⟨hline, (List.cons_eq_cons.mp hrest).2⟩

/-- The release line of a version. -/
def ofVersion (v : Version) : Title where
  major := (toString v.major).toList
  minor := (toString v.minor).toList
  major_digit := all_isDigit_toString _
  major_ne := toList_toString_ne _
  minor_digit := all_isDigit_toString _
  minor_ne := toList_toString_ne _

theorem line_ofVersion (v : Version) : (ofVersion v).line = v.line.toList := by
  have hdot : ".".toList = ['.'] := by decide
  simp only [line, ofVersion, Version.line, String.toList_append, hdot, List.append_assoc,
    List.singleton_append]

end Title

/-! ### The patterns -/

/-- A header, with its name as group 1, and how it goes on. -/
def headerExpr (e : Expr) : Expr :=
  .chars "class" (.seq (.plus gapSet) (.seq (.group 1 (.plus wordSet)) (.seq (.plus gapSet)
    (.chars "<" (.seq (.plus gapSet) (.chars superclass e))))))

/-- A release line, as group 2, in its brackets. -/
def titleExpr : Expr :=
  .chars "[" (.seq (.group 2 (.seq (.plus digitSet) (.chars "." (.plus digitSet))))
    (.one (.single ']')))

/-- No release line follows. -/
def untitledExpr : Expr :=
  .seq (.anchor (.wordEdge false)) (.look 0 false (.one (.single '[')))

theorem headerPatterns : versioned.expr = headerExpr titleExpr ∧
    unversioned.expr = headerExpr untitledExpr := by
  refine ⟨?_, ?_⟩ <;>
    exact Pattern.expr_fixed String.toList_ofList (by decide)

/-- A group of characters of one set. -/
theorem mem_ends_group_plus {i : Nat} {set : CharSet} {c c' : Cursor}
    (h : c' ∈ (Expr.group i (.plus set)).ends c) : ∃ s, s.all set.mem = true ∧ s ≠ [] ∧
      c.Takes s c' ∧ c'.texts = (i, s) :: c.texts := by
  obtain ⟨inner, hinner, rfl⟩ := List.mem_map.mp h
  obtain ⟨s, hs, hne, htakes, hgroups⟩ := mem_ends_plus hinner
  have htakes' : c.Takes s (inner.capture i c) := ⟨htakes.after, htakes.before, htakes.pos⟩
  refine ⟨s, hs, hne, htakes', ?_⟩
  show (i, c.textTo inner) :: inner.texts = (i, s) :: c.texts
  have htext : c.textTo inner = s := htakes'.textTo
  rw [htext, Cursor.texts, hgroups]
  rfl

theorem texts_of_groups {c c' : Cursor} (h : c'.groups = c.groups) : c'.texts = c.texts := by
  rw [Cursor.texts, h, Cursor.texts]

/-- Characters are taken one by one and set no groups. -/
theorem mem_ends_chars_texts {s : String} {e : Expr} {c c' : Cursor}
    (h : c' ∈ (Expr.chars s e).ends c) :
    ∃ mid, c.Takes s.toList mid ∧ mid.texts = c.texts ∧ c' ∈ e.ends mid := by
  unfold Expr.chars at h
  generalize s.toList = s at h ⊢
  induction s generalizing c with
  | nil => exact ⟨c, .refl c, rfl, h⟩
  | cons x s ih =>
    obtain ⟨c₁, hx, hrest⟩ := mem_ends_seq.mp h
    obtain ⟨mid, htakes, htexts, hmid⟩ := ih hrest
    obtain ⟨hone, hgroups⟩ : c.Takes [x] c₁ ∧ c₁.groups = c.groups := mem_ends_literal hx
    exact ⟨mid, hone.trans htakes, htexts.trans (texts_of_groups hgroups), hmid⟩

/-- A header that is found has a name, and the pattern goes on behind it. -/
theorem mem_ends_headerExpr {e : Expr} {c c' : Cursor} (h : c' ∈ (headerExpr e).ends c) :
    ∃ (header : Header) (mid : Cursor), c.Takes header.base mid ∧
      mid.texts = (1, header.name) :: c.texts ∧ c' ∈ e.ends mid := by
  obtain ⟨c₁, htakes₁, htexts₁, h⟩ := mem_ends_chars_texts h
  obtain ⟨c₂, h₂, h⟩ := mem_ends_seq.mp h
  obtain ⟨gap, hgap, hgapNe, htakes₂, hgroups₂⟩ := mem_ends_plus h₂
  obtain ⟨c₃, h₃, h⟩ := mem_ends_seq.mp h
  obtain ⟨name, hname, hnameNe, htakes₃, htexts₃⟩ := mem_ends_group_plus h₃
  obtain ⟨c₄, h₄, h⟩ := mem_ends_seq.mp h
  obtain ⟨space, hspace, hspaceNe, htakes₄, hgroups₄⟩ := mem_ends_plus h₄
  obtain ⟨c₅, htakes₅, htexts₅, h⟩ := mem_ends_chars_texts h
  obtain ⟨c₆, h₆, h⟩ := mem_ends_seq.mp h
  obtain ⟨margin, hmargin, hmarginNe, htakes₆, hgroups₆⟩ := mem_ends_plus h₆
  obtain ⟨mid, htakes₇, htexts₇, h⟩ := mem_ends_chars_texts h
  rw [all_gapSet] at hgap hspace hmargin
  rw [all_wordSet] at hname
  let header : Header :=
    ⟨gap, name, space, margin, hgap, hgapNe, hname, hnameNe, hspace, hspaceNe, hmargin, hmarginNe⟩
  refine ⟨header, mid, ?_, ?_, h⟩
  · rw [← List.append_nil header.base, header.base_append, List.append_nil]
    exact htakes₁.trans (htakes₂.trans (htakes₃.trans (htakes₄.trans (htakes₅.trans
      (htakes₆.trans htakes₇)))))
  · rw [htexts₇, texts_of_groups hgroups₆, htexts₅, texts_of_groups hgroups₄, htexts₃,
      texts_of_groups hgroups₂, htexts₁]

theorem canTake_header {e : Expr} (header : Header) {before tail after : List Char}
    (h : e.CanTake (header.base.reverse ++ before) tail after) :
    (headerExpr e).CanTake before (header.base ++ tail) after := by
  rw [header.base_append]
  refine canTake_chars (canTake_seq (canTake_plus ?_ header.gap_ne) (canTake_seq (canTake_group
    (canTake_plus ?_ header.name_ne)) (canTake_seq (canTake_plus ?_ header.space_ne) (canTake_chars
      (canTake_seq (canTake_plus ?_ header.margin_ne) (canTake_chars ?_))))))
  · rw [all_gapSet, header.gap_blank]
  · rw [all_wordSet, header.name_word]
  · rw [all_gapSet, header.space_blank]
  · rw [all_gapSet, header.margin_blank]
  · rw [← List.append_nil header.base, header.base_append] at h
    simpa only [List.append_nil, List.reverse_append, List.append_assoc] using h

/-- A release line that is found is the second group. -/
theorem mem_ends_titleExpr {c c' : Cursor} (h : c' ∈ titleExpr.ends c) :
    ∃ t : Title, c.Takes t.text c' ∧ c'.texts = (2, t.line) :: c.texts := by
  obtain ⟨s, htakes, hreads⟩ := Pattern.reads_of_mem_ends _ h
  obtain ⟨s, rfl, line, _, close, ⟨_, ⟨major, _, _, hmajor, hrest, rfl⟩, hgroups⟩,
    ⟨⟨x, hx, rfl⟩, hsame⟩, rfl⟩ := Pattern.reads_chars.mp hreads
  obtain ⟨minor, rfl, hminor⟩ := Pattern.reads_chars.mp hrest
  obtain ⟨hmajorLength, hmajorDigit, rfl⟩ := Pattern.reads_run.mp hmajor
  obtain ⟨hminorLength, hminorDigit, rfl⟩ := Pattern.reads_run.mp hminor
  obtain rfl : x = ']' := by simpa using hx
  rw [all_digitSet] at hmajorDigit hminorDigit
  let t : Title := ⟨major, minor, hmajorDigit, List.ne_nil_of_length_pos hmajorLength, hminorDigit,
    List.ne_nil_of_length_pos hminorLength⟩
  have hopen : "[".toList = ['['] := by decide
  have hdot : ".".toList = ['.'] := by decide
  rw [hopen, hdot] at htakes
  rw [hdot] at hgroups
  refine ⟨t, ?_, by rw [hsame, hgroups]; rfl⟩
  simpa [Title.text, Title.line, t] using htakes

theorem canTake_title (t : Title) (before after : List Char) :
    titleExpr.CanTake before t.text after := by
  have hopen : "[".toList = ['['] := by decide
  have hdot : ".".toList = ['.'] := by decide
  have htext : t.text = "[".toList ++ ((t.major ++ (".".toList ++ t.minor)) ++ [']']) := by
    simp [Title.text, Title.line, hopen, hdot]
  rw [htext]
  refine canTake_chars (canTake_seq (canTake_group (canTake_seq (canTake_plus ?_ t.major_ne)
    (canTake_chars (canTake_plus ?_ t.minor_ne)))) (canTake_one (by simp)))
  · rw [all_digitSet, t.major_digit]
  · rw [all_digitSet, t.minor_digit]

/-- The header of a class for a version. -/
def Header.retitled (h : Header) (v : Version) : List Char := h.plain.base ++ (Title.ofVersion v).text

/-- The header of a class with a name for a release line. -/
def headerText (name line : List Char) : List Char :=
  "class ".toList ++ name ++ " < ActiveRecord::Migration[".toList ++ line ++ "]".toList

theorem headerText_eq (h : Header) (t : Title) :
    headerText h.name t.line = h.plain.base ++ t.text := by
  have hclass : "class ".toList = "class".toList ++ [' '] := by decide
  have hsuper : " < ActiveRecord::Migration[".toList =
      [' '] ++ ("<".toList ++ ([' '] ++ (superclass.toList ++ ['[']))) := by decide
  have hclose : "]".toList = [']'] := by decide
  have hplain : h.plain.base ++ t.text = "class".toList ++ ([' '] ++ (h.name ++ ([' '] ++
      ("<".toList ++ ([' '] ++ (superclass.toList ++ t.text)))))) := h.plain.base_append _
  unfold headerText
  rw [hplain, Title.text, hclass, hsuper, hclose]
  simp only [List.append_assoc, List.cons_append, List.nil_append]

theorem header_eq {v : Version} {m : Match} {h : Header} (hgroup : m.group 1 = h.name) :
    header v.line m = h.retitled v := by
  show headerText (m.group 1) v.line.toList = _
  rw [hgroup, ← Title.line_ofVersion, headerText_eq, Header.retitled]

/-- Headers with a release line get the one of a version. -/
def retitles (v : Version) : Swap := fun _ taken _ new =>
  ∃ (h : Header) (t : Title), taken = h.base ++ t.text ∧ new = h.retitled v

/-- Headers without a release line get the one of a version. -/
def titles (v : Version) : Swap := fun _ taken after new =>
  ∃ h : Header, taken = h.base ∧ startsWithWord false after = false ∧ after.head? ≠ some '[' ∧
    new = h.retitled v

theorem swaps_versioned (v : Version) : versioned.expr.Swaps (header v.line) (retitles v) where
  sound := by
    intro before after pos c hc
    rw [headerPatterns.1] at hc
    obtain ⟨h, mid, htakes, htexts, hc⟩ := mem_ends_headerExpr (List.mem_of_head? hc)
    obtain ⟨t, htakes', htexts'⟩ := mem_ends_titleExpr hc
    have hgroup : (⟨{ before, after, pos }, c⟩ : Match).group 1 = h.name := by
      rw [Match.group, ← Cursor.lookup_texts, htexts', htexts]
      rfl
    exact ⟨h.base ++ t.text, by simp [Title.text], htakes.trans htakes', h, t, rfl, header_eq hgroup⟩
  complete := by
    rintro before _ after _ pos ⟨h, t, rfl, -⟩
    rw [headerPatterns.1]
    obtain ⟨c, hc, -⟩ := canTake_header h (canTake_title t (h.base.reverse ++ before) after)
      { before, after := (h.base ++ t.text) ++ after, pos } rfl rfl
    exact List.ne_nil_of_mem hc

/-- Behind a header the word edge asks that no word goes on. -/
theorem mem_ends_untitledExpr {h : Header} {before : List Char} {c c' : Cursor}
    (hbefore : c.before = h.base.reverse ++ before) :
    c' ∈ untitledExpr.ends c ↔
      c' = c ∧ startsWithWord false c.after = false ∧ c.after.head? ≠ some '[' := by
  have hedge : startsWithWord false c.before = true := by
    have hlast : superclass.toList.reverse = 'n' :: "oitargiM::droceRevitcA".toList := by decide
    rw [hbefore, Header.base, List.reverse_append, List.reverse_cons, List.reverse_append, hlast]
    rfl
  have hanchor : (Pattern.Anchor.wordEdge false).holds c = !startsWithWord false c.after := by
    show (startsWithWord false c.before != startsWithWord false c.after) = _
    rw [hedge]
    cases startsWithWord false c.after <;> rfl
  rw [untitledExpr, mem_ends_seq]
  simp only [mem_ends_anchor, Pattern.ends_notAhead, Pattern.ends_single, hanchor]
  constructor
  · rintro ⟨c₁, ⟨rfl, hword⟩, hc⟩
    by_cases hopen : c₁.after.head? = some '['
    · simp [hopen] at hc
    · exact ⟨by simpa [hopen] using hc, by simpa using hword, hopen⟩
  · rintro ⟨rfl, hword, hopen⟩
    exact ⟨c', ⟨rfl, by simp [hword]⟩, by simp [hopen]⟩

theorem swaps_unversioned (v : Version) : unversioned.expr.Swaps (header v.line) (titles v) where
  sound := by
    intro before after pos c hc
    rw [headerPatterns.2] at hc
    obtain ⟨h, mid, htakes, htexts, hc⟩ := mem_ends_headerExpr (List.mem_of_head? hc)
    obtain ⟨rfl, hword, hopen⟩ := (mem_ends_untitledExpr htakes.before).mp hc
    have hgroup : (⟨{ before, after, pos }, c⟩ : Match).group 1 = h.name := by
      rw [Match.group, ← Cursor.lookup_texts, htexts]
      rfl
    exact ⟨h.base, by simp [Header.base], htakes, h, rfl, hword, hopen, header_eq hgroup⟩
  complete := by
    rintro before _ after _ pos ⟨h, rfl, hword, hopen, -⟩
    have htake : untitledExpr.CanTake (h.base.reverse ++ before) [] after := by
      intro c hbefore hafter
      rw [List.nil_append] at hafter
      exact ⟨c, (mem_ends_untitledExpr hbefore).mpr ⟨rfl, by rw [hafter, hword], by rwa [hafter]⟩,
        .refl c⟩
    rw [headerPatterns.2]
    obtain ⟨c, hc, -⟩ := canTake_header h htake { before, after := h.base ++ after, pos } rfl
      (by rw [List.append_nil])
    exact List.ne_nil_of_mem hc

/-! ### Texts with headers -/

/-- Every header with a release line is plain and has the line of a version. -/
def Titled (v : Version) (text : List Char) : Prop :=
  ∀ lead (h : Header) (t : Title) rest, text = lead ++ (h.base ++ (t.text ++ rest)) →
    h = h.plain ∧ t.line = v.line.toList

/-- Only blanks stand between a place and the start of its line. The text in front of the place is
given from right to left. -/
def fresh : (before : List Char) → Bool
  | [] => true
  | x :: before => x == '\n' || (Text.isBlank x && fresh before)

/-- Some header with a release line is the first thing on its line. -/
def HasTitle (text : List Char) : Prop :=
  ∃ lead, ∃ (h : Header) (t : Title) (rest : List Char),
    text = lead ++ (h.base ++ (t.text ++ rest)) ∧ fresh lead.reverse = true

theorem Titled.replaceAll {v : Version} {text : List Char} (h : Titled v text) :
    versioned.expr.replaceAll (header v.line) text = text := by
  refine (Pattern.pass_replaceAll (swaps_versioned v) text).eq_self ?_
  rintro lead _ after _ htext ⟨header, t, rfl, rfl⟩
  obtain ⟨hplain, hline⟩ := h lead header t after (by rw [htext, List.append_assoc])
  rw [Header.retitled, ← hplain, Title.text, Title.text, Title.line_ofVersion, hline]

section

variable {v : Version} {swap : Swap} {before text result : List Char}

/-- A header with a release line that a pass has made from a place on that it kept was there
before. -/
theorem exists_header_of_pass
    (hnew : ∀ before taken after new, swap before taken after new →
      ∃ h : Header, new = h.retitled v)
    {x : Char} {h : Header} {t : Title} {rest : List Char}
    (hpass : Pass swap (x :: before) text result)
    (heq : x :: result = h.base ++ (t.text ++ rest)) :
    ∃ (h : Header) (t : Title) (rest : List Char), x :: text = h.base ++ (t.text ++ rest) := by
  have hfound : [x] ++ result = (h.base ++ t.text) ++ rest := by simpa using heq
  have hreflects := @Pass.reflects swap before text result
    (fun found _ => ∃ (h : Header) (t : Title), found = h.base ++ t.text) [x] hpass (by simp) ?_ _ _ hfound
    ⟨h, t, rfl⟩
  · obtain ⟨_, rest', htext, h', t', rfl⟩ := hreflects
    exact ⟨h', t', rest', by simpa using htext⟩
  · rintro kept taken after new more _ rest hkept - hswap - heq ⟨h, t, rfl⟩
    obtain ⟨h', rfl⟩ := hnew _ _ _ _ hswap
    rcases List.append_eq_append_iff.mp heq with ⟨part, hfound, hrest⟩ | ⟨part, hkept', -⟩
    · -- What was put in is a header, and none begins inside another one.
      cases part with
      | nil =>
        rw [List.append_nil] at hfound
        exact ⟨_, taken ++ after, by rw [hfound], h, t, rfl⟩
      | cons y part =>
        have hc : 'c' ∉ t.text := t.notMem_text (by decide) (by decide) (by decide)
        rw [Header.retitled, List.append_assoc] at hrest
        exact absurd hrest.symm (Header.not_begins hc hfound hkept (by simp))
    · exact ⟨_, part ++ (taken ++ after), by rw [hkept', List.append_assoc], h, t, rfl⟩

/-- Once headers are replaced, and none with a release line is passed over, a text is titled. -/
theorem titled_of_pass
    (hnew : ∀ before taken after new, swap before taken after new →
      ∃ h : Header, new = h.retitled v)
    (hpass : Pass swap before text result)
    (hall : ∀ lead (h : Header) (t : Title) rest, text = lead ++ (h.base ++ (t.text ++ rest)) →
      ∃ taken after new, h.base ++ (t.text ++ rest) = taken ++ after ∧
        swap (lead.reverse ++ before) taken after new) : Titled v result := by
  induction hpass with
  | done before =>
    intro lead h t rest heq
    rw [h.base_eq] at heq
    simp at heq
  | @keep before text result x idle hmore ih =>
    intro lead h t rest heq
    cases lead with
    | nil =>
      obtain ⟨h', t', rest', htext⟩ := exists_header_of_pass hnew hmore heq
      obtain ⟨taken, after, new, hsplit, hswap⟩ := hall [] h' t' rest' htext
      exact absurd hswap (idle taken after new (htext.trans hsplit))
    | cons y lead =>
      obtain ⟨-, heq⟩ := List.cons_eq_cons.mp heq
      refine ih (fun lead h t rest htext => ?_) lead h t rest heq
      simpa using hall (x :: lead) h t rest (by rw [htext, List.cons_append])
  | @hit before taken after new result _ hswap _ ih =>
    intro lead h t rest heq
    obtain ⟨h', rfl⟩ := hnew _ _ _ _ hswap
    have hall' : ∀ lead (h : Header) (t : Title) rest, after = lead ++ (h.base ++ (t.text ++ rest)) →
        ∃ taken' after' new, h.base ++ (t.text ++ rest) = taken' ++ after' ∧
          swap (lead.reverse ++ (taken.reverse ++ before)) taken' after' new := by
      intro lead h t rest hafter
      simpa using hall (taken ++ lead) h t rest (by rw [hafter, List.append_assoc])
    rcases List.append_eq_append_iff.mp heq with ⟨lead, rfl, heq'⟩ | ⟨part, hpart, heq'⟩
    · exact ih hall' lead h t rest heq'
    · by_cases hlead : lead = []
      · -- The header that was put in.
        subst hlead
        rw [Header.retitled, List.append_assoc, List.nil_append] at heq
        obtain ⟨rfl, htitle⟩ := Header.base_unique heq
        obtain ⟨hline, -⟩ := Title.text_unique htitle
        exact ⟨rfl, by rw [← hline, Title.line_ofVersion]⟩
      · by_cases hnil : part = []
        · subst hnil
          exact ih hall' [] h t rest heq'.symm
        · have hc : 'c' ∉ (Title.ofVersion v).text :=
            Title.notMem_text _ (by decide) (by decide) (by decide)
          rw [Header.retitled] at hpart
          exact absurd heq'.symm (Header.not_begins hc hpart hlead hnil)

end

end RailsUpgrade.Migration
