import RailsUpgrade.Proofs.ColumnEdits

/-!
# `RailsUpgrade.Proofs.DoubledOptions`: options that a migration gets twice

An edit of columns looks for its option in what stands behind the call only, and the one for columns of
JSON does not look at all. So an option that is there already is added again.

* `IsHeader.inFront_key`, `IsHeader.inFront_call`: headers have no options and no calls;
* `forall₂_headed`: replacing headers changes lines, but neither their calls nor their options;
* `Passes.forall₂_lines`: the edits of columns work on the lines of a text on their own;
* `passes_updated`: what is done to a migration once its headers are replaced;
* `update_doubles_iff`: when a line of an updated migration has an option twice.
-/

set_option autoImplicit false

namespace RailsUpgrade.Migration

open Pattern (Pass Swap Expr pass_replaceAll startsWithWord)
open Text (StartsBreak firstLine splitChar places inFront IsOpaque IsSolid)
open Gemfile (exists_of_notMem areLines_splitChar)
open FrameworkConfig (isValueChar)

variable {v : Version} {swap : Swap} {before line text result : List Char}

/-! ### Lines of headers -/

/-- A header, with or without a release line. -/
def IsHeader (s : List Char) : Prop :=
  ∃ (h : Header) (tail : List Char), s = h.base ++ tail ∧ (tail = [] ∨ ∃ t : Title, tail = t.text)

namespace IsHeader

variable {s : List Char}

theorem exists_cons (h : IsHeader s) : ∃ rest, s = 'c' :: 'l' :: rest := by
  obtain ⟨h, tail, rfl, -⟩ := h
  have hclass : "class".toList = 'c' :: 'l' :: "ass".toList := by decide
  rw [h.base_append, hclass]
  exact ⟨_, rfl⟩

/-- What no key begins with stands in front of a key or behind it. -/
theorem inFront_of_no_initial {k a : List Char} (hk : k ∈ optionKeys)
    (ha : ∀ x ∈ a, Text.isBlank x = true ∨ isValueChar x = true ∨ x = '[' ∨ x = ']' ∨ x = '<')
    (rest : List Char) : inFront k.isPrefixOf a rest = 0 := by
  have hinitial : ∀ k ∈ optionKeys, ∃ x w, k = x :: w ∧ Text.isBlank x = false ∧ isValueChar x = false ∧
      x ∉ ['[', ']', '<'] := by
    simp only [optionKeys, List.forall_mem_cons]
    exact ⟨⟨'p', "recision:".toList, by decide⟩, ⟨'f', "oreign_key:".toList, by decide⟩,
      ⟨'d', "efault:".toList, by decide⟩, List.forall_mem_nil _⟩
  obtain ⟨x, w, rfl, hblank, hvalue, hother⟩ := hinitial k hk
  refine Text.inFront_of_notMem (fun hmem => ?_) rest
  rcases ha x hmem with h | h | h
  · rw [hblank] at h
    cases h
  · rw [hvalue] at h
    cases h
  · exact hother (by simpa using h)

/-- No key begins in a header. -/
theorem inFront_key (h : IsHeader s) {k : List Char} (hk : k ∈ optionKeys) (rest : List Char) :
    inFront k.isPrefixOf s rest = 0 := by
  obtain ⟨h, tail, rfl, htail⟩ := h
  have hfixed : ∀ k ∈ optionKeys, ∀ fixed ∈ ["class".toList, superclass.toList],
      IsSolid k fixed ∧ places k.isPrefixOf fixed = 0 := by decide
  have hword : ∀ fixed ∈ ["class".toList, superclass.toList], ∀ rest,
      inFront k.isPrefixOf fixed rest = 0 := fun fixed hmem rest => by
    rw [(hfixed k hk fixed hmem).1.inFront_eq, (hfixed k hk fixed hmem).2]
  have hblank : ∀ {a : List Char}, a.all Text.isBlank = true → ∀ rest,
      inFront k.isPrefixOf a rest = 0 := fun ha =>
    inFront_of_no_initial hk fun x hx => .inl (List.all_eq_true.mp ha x hx)
  have hname : ∀ rest, inFront k.isPrefixOf h.name (h.space ++ rest) = 0 := by
    intro rest
    obtain ⟨x, space, hspace⟩ := List.exists_cons_of_ne_nil h.space_ne
    have hx : x ∉ k := fun hmem => by
      have hsolid := List.all_eq_true.mp (optionKeys_plain k hk).2.2.2.2.2 x hmem
      have hxblank := List.all_eq_true.mp h.space_blank x (by rw [hspace]; exact List.mem_cons_self)
      rw [hxblank] at hsolid
      cases hsolid
    rw [hspace]
    exact inFront_key_of_word hk h.name_word hx _
  have hbracket : ∀ rest, inFront k.isPrefixOf "<".toList rest = 0 := by
    have hsingle : "<".toList = ['<'] := by decide
    exact inFront_of_no_initial hk fun x hx => by simp_all
  have htitle : ∀ rest, inFront k.isPrefixOf tail rest = 0 := by
    rcases htail with rfl | ⟨t, rfl⟩
    · exact fun _ => rfl
    · refine inFront_of_no_initial hk fun x hx => ?_
      simp only [Title.text, List.mem_cons, List.mem_append, List.not_mem_nil, or_false] at hx
      rcases hx with rfl | hx | rfl
      · simp
      · exact .inr (.inl (List.all_eq_true.mp t.line_plain x hx))
      · simp
  -- So no key begins in any of the parts.
  rw [h.base_append]
  simp only [Text.inFront_append, List.append_assoc]
  rw [hword _ (by simp), hblank h.gap_blank, hname, hblank h.space_blank, hbracket, hblank h.margin_blank,
    hword _ (by simp), htitle]

/-- No call begins in a header. -/
theorem inFront_call (h : IsHeader s) (rest : List Char) : inFront beginsCall s rest = 0 := by
  obtain ⟨h, tail, rfl, htail⟩ := h
  refine Text.inFront_eq_zero fun part hpart hne => ?_
  obtain ⟨lead, hlead⟩ := hpart
  rw [← Bool.not_eq_true]
  intro hcall
  obtain ⟨b, hdot⟩ := exists_of_beginsCall hcall
  rcases htail with rfl | ⟨t, rfl⟩
  · -- The header has no dot, and ends with another character than a `t`.
    rw [List.append_nil] at hlead
    obtain ⟨y, part, rfl⟩ := List.exists_cons_of_ne_nil hne
    obtain ⟨rfl, hrest⟩ := List.cons_eq_cons.mp hdot
    cases part with
    | nil =>
      have hend : h.base = (h.front ++ '<' :: (h.margin ++ "ActiveRecord::Migratio".toList)) ++ ['n'] := by
        have hsuper : superclass.toList = "ActiveRecord::Migratio".toList ++ ['n'] := by decide
        rw [Header.base, hsuper]
        simp
      rw [hend] at hlead
      exact absurd (List.append_inj' hlead rfl).2 (by decide)
    | cons z part =>
      obtain ⟨rfl, -⟩ := List.cons_eq_cons.mp hrest
      exact h.dot_notMem (by rw [← hlead]; simp)
  · exact h.not_dotted t hlead.symm hne hdot

end IsHeader

/-- What is swapped are headers. -/
structure SwapsHeaders (swap : Swap) : Prop where
  taken : ∀ {before taken after new}, swap before taken after new → IsHeader taken
  new : ∀ {before taken after new}, swap before taken after new → IsHeader new

theorem swapsHeaders_retitles (v : Version) : SwapsHeaders (retitles v) where
  taken := by
    rintro before _ after _ ⟨h, t, rfl, -⟩
    exact ⟨h, t.text, rfl, .inr ⟨t, rfl⟩⟩
  new := by
    rintro before _ after _ ⟨h, t, -, rfl⟩
    exact ⟨h.plain, (Title.ofVersion v).text, rfl, .inr ⟨_, rfl⟩⟩

theorem swapsHeaders_titles (v : Version) : SwapsHeaders (titles v) where
  taken := by
    rintro before _ after _ ⟨h, rfl, -⟩
    exact ⟨h, [], (List.append_nil _).symm, .inl rfl⟩
  new := by
    rintro before _ after _ ⟨h, -, -, -, rfl⟩
    exact ⟨h.plain, (Title.ofVersion v).text, rfl, .inr ⟨_, rfl⟩⟩

namespace SwapsHeaders

variable {p : List Char → Bool}

/-- Replacing headers keeps how often a text has something that no header has. -/
theorem places_eq (hswap : SwapsHeaders swap) (hpass : Pass swap before text result)
    (hlead : ∀ t s s', t ≠ [] → p (t ++ (['c', 'l'] ++ s)) = p (t ++ (['c', 'l'] ++ s')))
    (hnone : ∀ {a}, IsHeader a → ∀ s, inFront p a s = 0) : places p result = places p text := by
  refine hpass.chunks (motive := fun text result => places p result = places p text) (fun s => rfl) ?_
  intro before taken after new result lead hit hafter
  have hfront : inFront p lead (new ++ result) = inFront p lead (taken ++ after) := by
    obtain ⟨rest, hrest⟩ := (hswap.taken hit).exists_cons
    obtain ⟨rest', hrest'⟩ := (hswap.new hit).exists_cons
    rw [hrest, hrest']
    exact Text.inFront_congr fun t _ ht => hlead t _ _ ht
  rw [Text.places_append, Text.places_append, Text.places_append, Text.places_append, hfront,
    hnone (hswap.taken hit), hnone (hswap.new hit), hafter]

theorem places_key_eq (hswap : SwapsHeaders swap) (hpass : Pass swap before text result) {k : List Char}
    (hk : k ∈ optionKeys) : places k.isPrefixOf result = places k.isPrefixOf text := by
  refine hswap.places_eq hpass (fun t s s' ht => ?_) fun ha => ha.inFront_key hk
  have hclear := (optionKeys_plain k hk).2.2.1
  rw [Text.isPrefixOf_append (hclear.ends ht), Text.isPrefixOf_append (hclear.ends ht)]

theorem places_call_eq (hswap : SwapsHeaders swap) (hpass : Pass swap before text result) :
    places beginsCall result = places beginsCall text := by
  have hclear : ∀ w ∈ columnCalls, IsOpaque w ['c', 'l'] := by decide
  refine hswap.places_eq hpass (fun t s s' ht => ?_) IsHeader.inFront_call
  exact goesOn_congr hclear (fun u s s' => by cases u <;> rfl) ht s s'

theorem places_bare_eq (hswap : SwapsHeaders swap) (hpass : Pass swap before text result) :
    places isBareCall result = places isBareCall text := by
  have hclear : ∀ w ∈ namedCalls, IsOpaque w ['c', 'l'] := by decide
  have hblank : Text.isBlank 'c' = false := by decide
  refine hswap.places_eq hpass (fun t s s' ht => ?_) fun ha s => ?_
  · exact goesOn_congr hclear (fun u s s' => by simp [hblank]) ht s s'
  · refine Nat.le_zero.mp (Nat.le_trans (Text.inFront_le fun t _ _ => beginsCall_of_bare) ?_)
    rw [ha.inFront_call s]

theorem head?_dropWhile_eq (hswap : SwapsHeaders swap) (hpass : Pass swap before text result) :
    (result.dropWhile Text.isBlank).head? = (text.dropWhile Text.isBlank).head? := by
  refine hpass.chunks (motive := fun text result =>
    (result.dropWhile Text.isBlank).head? = (text.dropWhile Text.isBlank).head?) (fun s => rfl) ?_
  intro before taken after new result lead hit _
  obtain ⟨rest, hrest⟩ := (hswap.taken hit).exists_cons
  obtain ⟨rest', hrest'⟩ := (hswap.new hit).exists_cons
  rw [hrest, hrest']
  exact head?_dropWhile_append (by decide) _ _ _

theorem editable (hswap : SwapsHeaders swap) (hpass : Pass swap before line result)
    (hline : Editable line) (hsolid : '\n' ∉ result) : Editable result where
  called := by rw [hswap.places_bare_eq hpass, hline.called]
  comma := by
    rw [hswap.head?_dropWhile_eq hpass]
    exact hline.comma
  solid := hsolid
  one := by
    rw [hswap.places_call_eq hpass]
    exact hline.one

theorem doubled_iff (hswap : SwapsHeaders swap) (hpass : Pass swap before line result) :
    Doubled result ↔ Doubled line :=
  exists_congr fun _ => and_congr_right fun hk => by rw [hswap.places_key_eq hpass hk]

end SwapsHeaders

/-! ### Texts whose calls are not broken -/

/-- No header and no call takes more than one line. -/
structure Unbroken (text : List Char) : Prop where
  headers : ∀ lead (h : Header) rest, text = lead ++ (h.base ++ rest) → '\n' ∉ h.base
  lines : ∀ line ∈ splitChar '\n' text, IsWhole line

theorem break_notMem_retitled (h : Header) (v : Version) : '\n' ∉ h.retitled v :=
  h.break_notMem_plain (Title.ofVersion v)

theorem onLines_retitles (h : Unbroken text) : (retitles v).OnLines text where
  solid := by
    rintro lead _ after _ htext ⟨header, t, rfl, rfl⟩
    have hbase := h.headers lead header (t.text ++ after) (by rw [htext, List.append_assoc])
    have htitle : '\n' ∉ t.text := t.notMem_text (by decide) (by decide) (by decide)
    exact ⟨by rw [List.mem_append, not_or]; exact ⟨hbase, htitle⟩, break_notMem_retitled header v⟩
  ends := fun _ hswap => hswap

theorem startsWithWord_firstLine {s : List Char} (h : startsWithWord false s = false) :
    startsWithWord false (firstLine s) = false := by
  have hsplit : firstLine s ++ s.dropWhile (· != '\n') = s := List.takeWhile_append_dropWhile
  rwa [← hsplit, startsWithWord_append (Text.startsBreak_dropWhile s)] at h

theorem onLines_titles (h : Unbroken text) : (titles v).OnLines text where
  solid := by
    rintro lead _ after _ htext ⟨header, rfl, -, -, rfl⟩
    exact ⟨h.headers lead header after htext, break_notMem_retitled header v⟩
  ends := by
    rintro lead _ after _ - ⟨header, rfl, hword, hopen, rfl⟩
    refine ⟨header, rfl, startsWithWord_firstLine hword, fun hopen' => hopen ?_, rfl⟩
    obtain ⟨rest, hrest⟩ := Text.firstLine_isPrefix after
    rw [← hrest]
    exact List.mem_head?_append_of_mem_head? hopen'

theorem lengthens_titles : (titles v).Extends := by
  rintro before _ line behind _ ⟨header, rfl, hword, hopen, rfl⟩ - hbehind
  refine ⟨header, rfl, by rw [startsWithWord_append hbehind, hword], fun hopen' => ?_, rfl⟩
  cases line with
  | nil =>
    rcases hbehind with rfl | ⟨s, rfl⟩
    · cases hopen'
    · exact absurd (Option.some.inj hopen') (by decide)
  | cons x line => exact hopen hopen'

/-! ### The edits of a migration -/

/-- The edits of columns, for a migration that is modern or not. -/
def edits (modern : Bool) : List ColumnEdit :=
  if modern then [referenceEdit, jsonEdit] else [timestampEdit, referenceEdit, jsonEdit]

theorem pairwise_edits (modern : Bool) : (edits modern).Pairwise AreApart := by
  have hothers : AreApart timestampEdit referenceEdit ∧ AreApart timestampEdit jsonEdit ∧
      AreApart referenceEdit jsonEdit := by
    refine ⟨?_, ?_, ?_⟩ <;>
      simp [AreApart, timestampEdit, referenceEdit, jsonEdit]
  cases modern <;> simp [edits, hothers]

/-- A text has a header, with a release line or without one. -/
def IsMigration (text : List Char) : Prop :=
  versioned.expr.found text = true ∨ unversioned.found text = true

/-- A text once its headers are replaced. -/
def headed (v : Version) (text : List Char) : List Char :=
  if versioned.expr.found text then versioned.expr.replaceAll (header v.line) text
  else unversioned.expr.replaceAll (header v.line) text

theorem passes_modernize (current : Option String) (text : List Char) :
    Passes (edits (Version.atLeast current "5.2.0")) text (modernize current text) := by
  have hcolumns : ∀ text, Passes [referenceEdit, jsonEdit] text (columns text) := fun text =>
    .pass (pass_replaceAll swaps_references text) (.pass (pass_replaceAll swaps_jsonColumn _) (.done _))
  rw [modernize_eq, edits]
  split
  · exact hcolumns text
  · exact .pass (pass_replaceAll swaps_timestamps text) (hcolumns _)

/-- What is done to a migration once its headers are replaced. -/
theorem passes_updated (v : Version) (h : IsMigration text) :
    Passes (edits (isModern text)) (headed v text) (updated v text) := by
  unfold updated headed isModern
  cases hsearch : versioned.expr.search text with
  | some m =>
    have hsome : versioned.expr.found text = true := by rw [Expr.found, hsearch]; rfl
    rw [if_pos hsome, Option.any_some]
    exact passes_modernize (some (String.ofList (m.group 2))) _
  | none =>
    have hnone : versioned.expr.found text = false := by rw [Expr.found, hsearch]; rfl
    have hfound : unversioned.found text = true := h.resolve_left (by simp [hnone])
    have hold : Version.atLeast none "5.2.0" = false := rfl
    have hpasses := passes_modernize none (unversioned.expr.replaceAll (header v.line) text)
    rw [hold] at hpasses
    simpa only [hnone, hfound, if_true, Option.any_none, Bool.false_eq_true, if_false] using hpasses

/-- Replacing headers changes lines, but not their calls and options. -/
theorem forall₂_headed (v : Version) (h : Unbroken text) :
    ∃ swap, SwapsHeaders swap ∧
      List.Forall₂ (Pass swap []) (splitChar '\n' text) (splitChar '\n' (headed v text)) := by
  unfold headed
  split
  · exact ⟨retitles v, swapsHeaders_retitles v, (pass_replaceAll (swaps_versioned v) text).forall₂_lines
      (fun hswap _ => hswap) (fun hswap _ _ => hswap) (onLines_retitles h)⟩
  · exact ⟨titles v, swapsHeaders_titles v, (pass_replaceAll (swaps_unversioned v) text).forall₂_lines
      (fun hswap _ => hswap) lengthens_titles (onLines_titles h)⟩

/-! ### Edits over lines -/

theorem exists_of_mem_right {α β : Type} {R : α → β → Prop} {xs : List α} {ys : List β}
    (h : List.Forall₂ R xs ys) {y : β} (hy : y ∈ ys) : ∃ x ∈ xs, R x y := by
  induction h with
  | nil => cases hy
  | @cons x z xs ys hfirst _ ih =>
    rcases List.mem_cons.mp hy with rfl | hy
    · exact ⟨x, List.mem_cons_self, hfirst⟩
    · obtain ⟨x', hx', hrel⟩ := ih hy
      exact ⟨x', List.mem_cons_of_mem _ hx', hrel⟩

theorem forall₂_comp {α β γ : Type} {R : α → β → Prop} {S : β → γ → Prop} {T : α → γ → Prop}
    (hcomp : ∀ x y z, R x y → S y z → T x z) {xs : List α} {ys : List β} {zs : List γ}
    (h : List.Forall₂ R xs ys) (h' : List.Forall₂ S ys zs) : List.Forall₂ T xs zs := by
  induction h generalizing zs with
  | nil =>
    cases h'
    exact .nil
  | cons hfirst _ ih =>
    cases h' with
    | cons hnext hmore => exact .cons (hcomp _ _ _ hfirst hnext) (ih hmore)

theorem ColumnEdit.editable_of_pass {e : ColumnEdit} (hpass : Pass e.rule.swap [] line result)
    (hline : Editable line) (hsolid : '\n' ∉ result) : Editable result := by
  rcases ColumnEdit.cases hpass hline with ⟨rfl, -⟩ | ⟨lead, old, after, new, rfl, hrule, rfl⟩
  · exact hline
  · exact ColumnEdit.editable_of_rule hline hrule fun hmem => hsolid (by simp [hmem])

/-- The edits of columns work on the lines of a text on their own. -/
theorem Passes.forall₂_lines {edits : List ColumnEdit} (h : Passes edits text result)
    (hlines : ∀ line ∈ splitChar '\n' text, Editable line) :
    List.Forall₂ (Passes edits) (splitChar '\n' text) (splitChar '\n' result) := by
  induction h with
  | done text => exact List.forall₂_same.mpr fun line _ => .done line
  | @pass e edits text mid result first more ih =>
    have hfirst := first.forall₂_lines (fun hswap _ => hswap) e.lengthens
      (e.onLines fun line hmem => (hlines line hmem).toIsWhole)
    have hmid : ∀ line ∈ splitChar '\n' mid, Editable line := by
      intro line hmem
      obtain ⟨line', hmem', hpass⟩ := exists_of_mem_right hfirst hmem
      exact ColumnEdit.editable_of_pass hpass (hlines line' hmem')
        ((areLines_splitChar mid).solid line hmem)
    exact forall₂_comp (fun _ _ _ hpass hpasses => .pass hpass hpasses) hfirst (ih hmid)

/-- A text whose lines have at most one call and each option once, with no header and no call that takes more
than one line, has a line with an option twice after an update exactly if an edit of columns adds its
option to a line that has it in front of the call or behind it. -/
theorem update_doubles_iff {v : Version} {text result : List Char} (h : update v text = .ok result)
    (hcalls : ∀ line ∈ splitChar '\n' text, places beginsCall line ≤ 1)
    (hkeys : ∀ line ∈ splitChar '\n' text, ¬ Doubled line) (hwhole : Unbroken text) :
    (∃ line ∈ splitChar '\n' result, Doubled line) ↔
      IsMigration text ∧ ∃ line ∈ splitChar '\n' (headed v text), ∃ e ∈ edits (isModern text),
        e.Repeats line := by
  by_cases hmigration : IsMigration text
  · obtain rfl : updated v text = result := by
      rw [update] at h
      split at h
      · cases h
      · exact Except.ok.inj h
    obtain ⟨swap, hswap, hheaded⟩ := forall₂_headed v hwhole
    -- The lines that the edits of columns start from.
    have hlines : ∀ line ∈ splitChar '\n' (headed v text), Editable line ∧ ¬ Doubled line := by
      intro line hmem
      obtain ⟨line', hmem', hpass⟩ := exists_of_mem_right hheaded hmem
      have hsolid := (areLines_splitChar text).solid line' hmem'
      have hsolid' := (areLines_splitChar (headed v text)).solid line hmem
      have hline : Editable line' := ⟨hwhole.lines line' hmem', hsolid, hcalls line' hmem'⟩
      refine ⟨hswap.editable hpass hline hsolid', ?_⟩
      rw [hswap.doubled_iff hpass]
      exact hkeys line' hmem'
    have hedits := (passes_updated v hmigration).forall₂_lines fun line hmem => (hlines line hmem).1
    have hiff : ∀ line ∈ splitChar '\n' (headed v text), ∀ line', Passes (edits (isModern text)) line line' →
        (Doubled line' ↔ ∃ e ∈ edits (isModern text), e.Repeats line) := fun line hmem line' hpasses =>
      hpasses.doubled_iff (pairwise_edits _) (hlines line hmem).1 (hlines line hmem).2
    simp only [hmigration, true_and]
    constructor
    · rintro ⟨line', hmem', hdoubled⟩
      obtain ⟨line, hmem, hpasses⟩ := exists_of_mem_right hedits hmem'
      exact ⟨line, hmem, (hiff line hmem line' hpasses).mp hdoubled⟩
    · rintro ⟨line, hmem, hrepeats⟩
      obtain ⟨line', hmem', hpasses⟩ := exists_of_mem_right hedits.flip hmem
      exact ⟨line', hmem', (hiff line hmem line' hpasses).mpr hrepeats⟩
  · have hnone : versioned.expr.search text = none := by
      by_contra hsome
      exact hmigration (.inl (Option.isSome_iff_ne_none.mpr hsome))
    have hplain : unversioned.found text = false := by
      by_contra hfound
      exact hmigration (.inr (by simpa using hfound))
    rw [update_of_not_found hnone hplain] at h
    obtain rfl := Except.ok.inj h
    simp only [hmigration, false_and, iff_false]
    rintro ⟨line, hmem, hdoubled⟩
    exact hkeys line hmem hdoubled

/-! ### A column that gets its default twice -/

/-- A text with one `<`, which is not the last thing on its line, has no broken header. -/
theorem break_notMem_base {a b : List Char} (ha : '\n' ∉ a) (hfront : '<' ∉ a) (hbehind : '<' ∉ b)
    (hline : '\n' ∉ b.takeWhile Text.isBlank) (lead : List Char) (h : Header) (rest : List Char)
    (htext : a ++ '<' :: b = lead ++ (h.base ++ rest)) : '\n' ∉ h.base := by
  have hsplit : a ++ '<' :: b = (lead ++ h.front) ++ '<' :: (h.margin ++ (superclass.toList ++ rest)) := by
    rw [htext, Header.base]
    simp
  obtain ⟨part, hlead, hpart⟩ := exists_of_notMem hfront hsplit
  cases part with
  | cons x part =>
    obtain ⟨rfl, rfl⟩ := List.cons_eq_cons.mp hpart
    simp at hbehind
  | nil =>
    obtain ⟨-, rfl⟩ := List.cons_eq_cons.mp hpart
    have hsuper : superclass.toList = 'A' :: "ctiveRecord::Migration".toList := by decide
    have hmargin : (h.margin ++ (superclass.toList ++ rest)).takeWhile Text.isBlank = h.margin := by
      rw [List.takeWhile_append_of_pos (List.all_eq_true.mp h.margin_blank), hsuper, List.cons_append,
        List.takeWhile_cons_of_neg (by decide), List.append_nil]
    rw [hmargin] at hline
    rw [List.append_nil] at hlead
    rw [← hlead, List.mem_append, not_or] at ha
    have hsuperclass : '\n' ∉ superclass.toList := by decide
    simp only [Header.base, List.mem_append, List.mem_cons, not_or]
    exact ⟨ha.2, by decide, hline, hsuperclass⟩

instance (line : List Char) : Decidable (Doubled line) :=
  inferInstanceAs (Decidable (∃ k ∈ optionKeys, 1 < places k.isPrefixOf line))

instance (line : List Char) : Decidable (IsWhole line) :=
  decidable_of_iff (places isBareCall line = 0 ∧ (line.dropWhile Text.isBlank).head? ≠ some ',')
    ⟨fun h => ⟨h.1, h.2⟩, fun h => ⟨h.called, h.comma⟩⟩

/-- A migration with a column of JSON that has a default. -/
def jsonMigration : List Char :=
  "class A < ActiveRecord::Migration[6.0]\n  t.json :tags, default: []\nend\n".toList

/-- The same migration after an update. -/
def jsonMigrated : List Char :=
  "class A < ActiveRecord::Migration[7.0]\n  t.jsonb :tags, default: \x7b\x7d, default: []\nend\n".toList

theorem update_jsonMigration : update ⟨7, 0, 0⟩ jsonMigration = .ok jsonMigrated := by
  -- The characters of both texts and of all patterns are put in before anything is run.
  have hbefore : jsonMigration = _ := String.toList_ofList
  have hafter : jsonMigrated = _ := String.toList_ofList
  simp only [update, overlong?, updated, modernize, headerPatterns.1, timestamps_expr,
    references_expr, jsonColumn_expr, hbefore, hafter]
  decide +kernel

theorem jsonMigration_lines : ∀ line ∈ splitChar '\n' jsonMigration,
    (places beginsCall line ≤ 1 ∧ ¬ Doubled line) ∧ IsWhole line := by
  have hchars : jsonMigration = _ := String.toList_ofList
  rw [hchars]
  decide +kernel

theorem unbroken_jsonMigration : Unbroken jsonMigration := by
  obtain ⟨a, b, hsplit, ha, hfront, hbehind, hline⟩ : ∃ a b, jsonMigration = a ++ '<' :: b ∧ '\n' ∉ a ∧
      '<' ∉ a ∧ '<' ∉ b ∧ '\n' ∉ b.takeWhile Text.isBlank := by
    have hchars : jsonMigration = _ := String.toList_ofList
    rw [hchars]
    exact ⟨['c', 'l', 'a', 's', 's', ' ', 'A', ' '], _, rfl, by decide, by decide, by decide,
      by decide⟩
  refine ⟨?_, fun line hmem => (jsonMigration_lines line hmem).2⟩
  rw [hsplit]
  exact break_notMem_base ha hfront hbehind hline

theorem update_doubles_iff_json : update ⟨7, 0, 0⟩ jsonMigration = .ok jsonMigrated ∧
    (∀ line ∈ splitChar '\n' jsonMigration, places beginsCall line ≤ 1) ∧
    (∀ line ∈ splitChar '\n' jsonMigration, ¬ Doubled line) ∧ Unbroken jsonMigration ∧
    ((∃ line ∈ splitChar '\n' jsonMigrated, Doubled line) ↔ IsMigration jsonMigration ∧
      ∃ line ∈ splitChar '\n' (headed ⟨7, 0, 0⟩ jsonMigration), ∃ e ∈ edits (isModern jsonMigration),
        e.Repeats line) := by
  have hcalls : ∀ line ∈ splitChar '\n' jsonMigration, places beginsCall line ≤ 1 :=
    fun line hmem => (jsonMigration_lines line hmem).1.1
  have hkeys : ∀ line ∈ splitChar '\n' jsonMigration, ¬ Doubled line :=
    fun line hmem => (jsonMigration_lines line hmem).1.2
  exact ⟨update_jsonMigration, hcalls, hkeys, unbroken_jsonMigration,
    update_doubles_iff update_jsonMigration hcalls hkeys unbroken_jsonMigration⟩

/-- A column that has a default gets a second one. -/
theorem update_repeats_default : update ⟨7, 0, 0⟩ jsonMigration = .ok jsonMigrated ∧
    (∀ line ∈ splitChar '\n' jsonMigration, places beginsCall line ≤ 1 ∧ ¬ Doubled line) ∧
    ∃ line ∈ splitChar '\n' jsonMigrated, Doubled line :=
  have hdoubled : ∃ line ∈ splitChar '\n' jsonMigrated, Doubled line := by
    have hchars : jsonMigrated = _ := String.toList_ofList
    rw [hchars]
    decide +kernel
  ⟨update_jsonMigration, fun line hmem => (jsonMigration_lines line hmem).1, hdoubled⟩

end RailsUpgrade.Migration
