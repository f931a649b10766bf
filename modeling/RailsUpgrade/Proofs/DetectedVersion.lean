import RailsUpgrade.Project.Detect
import RailsUpgrade.Proofs.Comments
import RailsUpgrade.Proofs.GemCalls

/-!
# `RailsUpgrade.Proofs.DetectedVersion`: which pin of a Gemfile decides the version

The version of an application is that of the first pin with `~>`, or else the first one with `>=`,
wherever on its line the pin begins.

* `VersionPin`: the pins with an operator. `firstPin` is the version of the first one, and `search_pin`
  tells that a search finds it;
* `BreaksUnsigned`: a pin that is broken over lines goes on with something else than a comment;
* `firstPin_eq_active`: no line that is commented out has a say unless a pin begins on it or is cut by it;
* `firstPin_of_first`: the first pin decides, on such a line or not;
* `detectTarget_activeLines`: both, told of the target of an application.
-/

set_option autoImplicit false

namespace RailsUpgrade.Project

open Gemfile (GemCall gapSet quoteSet mem_gapSet mem_quoteSet all_gapSet isQuote isQuote_straight
  isBlank_space space_ne_nil run_unique isBlank_eq_false_of_isQuote ne_of_holds exists_of_notMem
  break_of_gap BreaksQuoted)
open Pattern (Expr CharSet Cursor Groups reads_chars reads_run reads_of_mem_ends canTake_chars canTake_seq
  canTake_plus canTake_one canTake_group run_eq_findSome? findSome?_some findSome?_singleton)
open Text (isCommented OnComment Interrupted lines activeLines active stacked startsBreak_stacked
  stacked_cons stacked_splitChar stacked_append isCommented_append isCommented_append_of_solid isCommented_gap
  prefix_append_cases prefix_or_cut_of_prefix_active splitChar_eq_lines)

/-! ### Pins -/

/-- A character of a version. -/
def isVersionChar (c : Char) : Bool := Text.isDigit c || c == '.'

def versionCharSet : CharSet := .ofItems [.kind .digit false false, .one '.']

@[simp] theorem mem_versionCharSet (x : Char) : versionCharSet.mem x = isVersionChar x := by
  simp [versionCharSet, isVersionChar, Pattern.CharItem.mem, Pattern.CharKind.mem]

theorem all_versionCharSet (s : List Char) : s.all versionCharSet.mem = s.all isVersionChar := by
  rw [show versionCharSet.mem = isVersionChar from funext mem_versionCharSet]

/-- No blank and no quote is a digit or a dot. -/
theorem isBlank_eq_false_of_isVersionChar {c : Char} (h : isVersionChar c = true) :
    Text.isBlank c = false := by
  have hall : ∀ n ∈ Text.blankCodes, isVersionChar (Char.ofNat n) = false := by decide
  rw [← Bool.not_eq_true]
  intro hblank
  have hc := hall _ (Text.mem_blankCodes hblank)
  rw [Char.ofNat_toNat, h] at hc
  cases hc

/-- A call that pins Rails to a version with an operator. -/
structure VersionPin (operator : List Char) where
  call : GemCall "rails".toList
  space : List Char
  opening : Char
  gap : List Char
  version : List Char
  closing : Char
  space_blank : space.all Text.isBlank = true
  space_ne : space ≠ []
  isQuote_opening : isQuote opening = true
  gap_blank : gap.all Text.isBlank = true
  gap_ne : gap ≠ []
  version_plain : version.all isVersionChar = true
  version_ne : version ≠ []
  isQuote_closing : isQuote closing = true

namespace VersionPin

variable {operator : List Char}

def text (pin : VersionPin operator) : List Char :=
  pin.call.text ++ (',' :: (pin.space ++ (pin.opening :: (operator ++ (pin.gap ++
    (pin.version ++ [pin.closing]))))))

/-- Where one pin begins no other one does. -/
theorem operator_unique {operator' : List Char} {pin : VersionPin operator} {pin' : VersionPin operator'}
    {rest rest' : List Char} (h : pin.text ++ rest = pin'.text ++ rest') :
    operator ++ (pin.gap ++ (pin.version ++ pin.closing :: rest)) =
      operator' ++ (pin'.gap ++ (pin'.version ++ pin'.closing :: rest')) := by
  simp only [text, List.append_assoc, List.cons_append, List.nil_append] at h
  obtain ⟨-, hspace⟩ := List.cons_eq_cons.mp (GemCall.rest_unique h)
  exact (run_unique pin.space_blank pin'.space_blank (isBlank_eq_false_of_isQuote pin.isQuote_opening)
    (isBlank_eq_false_of_isQuote pin'.isQuote_opening) hspace).2.2

theorem version_unique {pin pin' : VersionPin operator} {rest rest' : List Char}
    (h : pin.text ++ rest = pin'.text ++ rest') : pin.version = pin'.version := by
  have hgap := List.append_cancel_left (operator_unique h)
  -- The version begins where the gap ends, and ends where the quote stands.
  obtain ⟨x, more, hx⟩ := List.exists_cons_of_ne_nil pin.version_ne
  obtain ⟨y, more', hy⟩ := List.exists_cons_of_ne_nil pin'.version_ne
  have hplain := List.all_eq_true.mp pin.version_plain x (hx ▸ List.mem_cons_self)
  have hplain' := List.all_eq_true.mp pin'.version_plain y (hy ▸ List.mem_cons_self)
  rw [hx, hy, List.cons_append, List.cons_append] at hgap
  obtain ⟨-, rfl, hrest⟩ := run_unique pin.gap_blank pin'.gap_blank
    (isBlank_eq_false_of_isVersionChar hplain) (isBlank_eq_false_of_isVersionChar hplain') hgap
  have hquote : ∀ {c : Char}, isQuote c = true → isVersionChar c = false := by
    intro c hc
    obtain rfl | rfl : c = '\'' ∨ c = '"' := by simpa [isQuote] using hc
    · decide
    · decide
  have hversion : pin.version ++ pin.closing :: rest = pin'.version ++ pin'.closing :: rest' := by
    rw [hx, hy, List.cons_append, List.cons_append, hrest]
  exact (run_unique pin.version_plain pin'.version_plain (hquote pin.isQuote_closing)
    (hquote pin'.isQuote_closing) hversion).1

end VersionPin

/-- What is tried for an operator. Group 1 is the version. -/
def pinExpr (operator : String) : Expr :=
  .chars "gem" (.seq (.plus gapSet) (.seq (.one quoteSet) (.chars "rails" (.seq (.one quoteSet)
    (.chars "," (.seq (.plus gapSet) (.seq (.one quoteSet) (.chars operator (.seq (.plus gapSet)
      (.seq (.group 1 (.plus versionCharSet)) (.one quoteSet)))))))))))

theorem railsPins_expr : railsPins.map Pattern.expr = [pinExpr "~>", pinExpr ">="] := by
  simp only [railsPins, List.map_cons, List.map_nil, List.cons.injEq, and_true]
  exact ⟨Pattern.expr_fixed String.toList_ofList (by decide),
    Pattern.expr_fixed String.toList_ofList (by decide)⟩

section

variable {operator : String} {s : List Char}

theorem exists_pin_of_reads {g : Groups} (h : (pinExpr operator).Reads [] s g) :
    ∃ pin : VersionPin operator.toList, s = pin.text ∧ g = [(1, pin.version)] := by
  rw [pinExpr, reads_chars] at h
  obtain ⟨_, rfl, gap₀, _, _, hgap₀, ⟨_, _, _, ⟨⟨opening₀, hopening₀, rfl⟩, rfl⟩, hrails, rfl⟩, rfl⟩ := h
  rw [reads_chars] at hrails
  obtain ⟨_, rfl, _, _, _, ⟨⟨closing₀, hclosing₀, rfl⟩, rfl⟩, hcomma, rfl⟩ := hrails
  rw [reads_chars] at hcomma
  obtain ⟨_, rfl, space, _, _, hspace, ⟨_, _, _, ⟨⟨opening, hopening, rfl⟩, rfl⟩, hoperator, rfl⟩, rfl⟩ :=
    hcomma
  rw [reads_chars] at hoperator
  obtain ⟨_, rfl, gap, _, _, hgap, ⟨version, _, _, ⟨_, hversion, rfl⟩,
    ⟨⟨closing, hclosing, rfl⟩, rfl⟩, rfl⟩, rfl⟩ := hoperator
  -- What was read are the runs of blanks and of version characters, none of which is empty.
  obtain ⟨hlength₀, hblank₀, rfl⟩ := reads_run.mp hgap₀
  obtain ⟨hspaceLength, hspaceBlank, rfl⟩ := reads_run.mp hspace
  obtain ⟨hgapLength, hgapBlank, rfl⟩ := reads_run.mp hgap
  obtain ⟨hversionLength, hplain, rfl⟩ := reads_run.mp hversion
  rw [all_gapSet] at hblank₀ hspaceBlank hgapBlank
  rw [all_versionCharSet] at hplain
  have hne : ∀ {u : List Char}, 1 ≤ u.length → u ≠ [] := by
    rintro _ hlength rfl
    simp at hlength
  refine ⟨⟨⟨gap₀, opening₀, closing₀, hblank₀, hne hlength₀, by simpa using hopening₀,
    by simpa using hclosing₀⟩, space, opening, gap, version, closing, hspaceBlank, hne hspaceLength,
    by simpa using hopening, hgapBlank, hne hgapLength, hplain, hne hversionLength,
    by simpa using hclosing⟩, ?_, rfl⟩
  simp [VersionPin.text, GemCall.text_eq]

theorem canTake_pin (pin : VersionPin operator.toList) (before after : List Char) :
    (pinExpr operator).CanTake before pin.text after := by
  have htext : pin.text = "gem".toList ++ (pin.call.gap ++ ([pin.call.opening] ++ ("rails".toList ++
      ([pin.call.closing] ++ (",".toList ++ (pin.space ++ ([pin.opening] ++ (operator.toList ++ (pin.gap ++
        (pin.version ++ [pin.closing])))))))))) := by
    have hcomma : ",".toList = [','] := by decide
    simp only [VersionPin.text, GemCall.text_eq, hcomma, List.append_assoc, List.cons_append,
      List.nil_append]
  rw [pinExpr, htext]
  refine canTake_chars (canTake_seq (canTake_plus ?_ pin.call.gap_ne) (canTake_seq (canTake_one ?_)
    (canTake_chars (canTake_seq (canTake_one ?_) (canTake_chars (canTake_seq
      (canTake_plus ?_ pin.space_ne) (canTake_seq (canTake_one ?_) (canTake_chars (canTake_seq
        (canTake_plus ?_ pin.gap_ne) (canTake_seq (canTake_group (canTake_plus ?_ pin.version_ne))
          (canTake_one ?_)))))))))))
  · rw [all_gapSet, pin.call.gap_blank]
  · rw [mem_quoteSet, pin.call.isQuote_opening]
  · rw [mem_quoteSet, pin.call.isQuote_closing]
  · rw [all_gapSet, pin.space_blank]
  · rw [mem_quoteSet, pin.isQuote_opening]
  · rw [all_gapSet, pin.gap_blank]
  · rw [all_versionCharSet, pin.version_plain]
  · rw [mem_quoteSet, pin.isQuote_closing]

/-! ### The first pin -/

/-- The version of the pin that a text begins with. -/
def pinAt (operator : String) (s : List Char) : Option (List Char) :=
  ((pinExpr operator).matchAt (Cursor.start s)).map (·.group 1)

/-- Whatever stands before a place, the version there is that of the pin that begins. -/
theorem matchAt_pin_iff {before version : List Char} {pos : Nat} :
    ((pinExpr operator).matchAt { before, after := s, pos }).map (·.group 1) = some version ↔
      ∃ pin : VersionPin operator.toList, ∃ rest, s = pin.text ++ rest ∧ pin.version = version := by
  have hread : ∀ last, ((pinExpr operator).ends { before, after := s, pos }).head? = some last →
      ∃ pin : VersionPin operator.toList, ∃ rest, s = pin.text ++ rest ∧
        (last.group? 1).getD [] = pin.version := by
    intro last hlast
    obtain ⟨taken, htakes, hreads⟩ := reads_of_mem_ends _ (List.mem_of_head? hlast)
    obtain ⟨pin, rfl, htexts⟩ := exists_pin_of_reads hreads
    refine ⟨pin, last.after, htakes.after, ?_⟩
    rw [← Cursor.lookup_texts, htexts]
    rfl
  rw [Expr.matchAt, run_eq_findSome?, findSome?_some, Option.map_map]
  constructor
  · intro h
    obtain ⟨last, hlast, hversion⟩ := Option.map_eq_some_iff.mp h
    obtain ⟨pin, rest, heq, hgroup⟩ := hread last hlast
    exact ⟨pin, rest, heq, hgroup.symm.trans hversion⟩
  · rintro ⟨pin, rest, rfl, rfl⟩
    obtain ⟨c, hc, -⟩ := canTake_pin pin before rest { before, after := pin.text ++ rest, pos } rfl rfl
    obtain ⟨last, hlast⟩ := Option.isSome_iff_exists.mp (List.isSome_head?.mpr (List.ne_nil_of_mem hc))
    obtain ⟨pin', rest', heq, hgroup⟩ := hread last hlast
    rw [hlast, Option.map_some, VersionPin.version_unique heq]
    exact congrArg some hgroup

theorem matchAt_pin (before : List Char) (pos : Nat) :
    ((pinExpr operator).matchAt { before, after := s, pos }).map (·.group 1) = pinAt operator s :=
  Option.ext fun _ => matchAt_pin_iff.trans matchAt_pin_iff.symm

theorem search_pin (text : List Char) :
    ((pinExpr operator).search text).map (·.group 1) = text.tails.findSome? (pinAt operator) := by
  have hfrom : ∀ (before : List Char) (pos : Nat),
      ((pinExpr operator).searchIn before pos text).map (·.group 1) = text.tails.findSome? (pinAt operator) := by
    induction text with
    | nil =>
      intro before pos
      rw [Expr.searchIn, matchAt_pin]
      exact (findSome?_singleton _ _).symm
    | cons x text ih =>
      intro before pos
      rw [Expr.searchIn, List.tails_cons, List.findSome?_cons, ← matchAt_pin before pos]
      cases (pinExpr operator).matchAt { before, after := x :: text, pos } with
      | none => exact ih (x :: before) (pos + 1)
      | some m => rfl
  exact hfrom [] 0

theorem pinAt_iff {version : List Char} : pinAt operator s = some version ↔
    ∃ pin : VersionPin operator.toList, ∃ rest, s = pin.text ++ rest ∧ pin.version = version :=
  matchAt_pin_iff

theorem pinAt_congr {s' : List Char}
    (h : ∀ pin : VersionPin operator.toList, pin.text <+: s ↔ pin.text <+: s') :
    pinAt operator s = pinAt operator s' := by
  refine Option.ext fun version => pinAt_iff.trans (Iff.trans ?_ pinAt_iff.symm)
  refine exists_congr fun pin => ?_
  constructor
  · rintro ⟨rest, hs, hversion⟩
    obtain ⟨rest', hrest'⟩ := (h pin).mp ⟨rest, hs.symm⟩
    exact ⟨rest', hrest'.symm, hversion⟩
  · rintro ⟨rest, hs, hversion⟩
    obtain ⟨rest', hrest'⟩ := (h pin).mpr ⟨rest, hs.symm⟩
    exact ⟨rest', hrest'.symm, hversion⟩

/-- The version of the first pin with an operator. -/
def firstPin (operator : String) (text : List Char) : Option (List Char) :=
  text.tails.findSome? (pinAt operator)

/-- The version of the first pin that begins in the first part of a text. -/
def firstOn (operator : String) : (part rest : List Char) → Option (List Char)
  | [], _ => none
  | c :: part, rest => (pinAt operator (c :: (part ++ rest))).or (firstOn operator part rest)

theorem firstPin_append (part rest : List Char) :
    firstPin operator (part ++ rest) = (firstOn operator part rest).or (firstPin operator rest) := by
  induction part with
  | nil => rfl
  | cons c part ih =>
    rw [firstOn, Option.or_assoc, ← ih, firstPin, List.cons_append, List.tails_cons, List.findSome?_cons]
    cases pinAt operator (c :: (part ++ rest)) <;> rfl

theorem firstOn_congr {part rest rest' : List Char}
    (h : ∀ lead tail, part = lead ++ tail → tail ≠ [] →
      pinAt operator (tail ++ rest) = pinAt operator (tail ++ rest')) :
    firstOn operator part rest = firstOn operator part rest' := by
  induction part with
  | nil => rfl
  | cons c part ih =>
    have hfirst := h [] (c :: part) rfl (by simp)
    rw [firstOn, firstOn, ih fun lead tail hpart => h (c :: lead) tail (by rw [hpart]; rfl)]
    exact congrArg (Option.or · _) hfirst

theorem firstOn_eq_none {part rest : List Char}
    (h : ∀ lead tail, part = lead ++ tail → tail ≠ [] → pinAt operator (tail ++ rest) = none) :
    firstOn operator part rest = none := by
  induction part with
  | nil => rfl
  | cons c part ih =>
    have hfirst := h [] (c :: part) rfl (by simp)
    rw [firstOn, ih fun lead tail hpart => h (c :: lead) tail (by rw [hpart]; rfl), Option.or_none]
    exact hfirst

end

/-! ### Pins and lines -/

/-- Every line break is followed by blanks and then by a character that is no comment sign. -/
def BreaksUnsigned (part : List Char) : Prop :=
  ∀ lead rest, part = lead ++ '\n' :: rest → ∃ gap x more, rest = gap ++ x :: more ∧
    gap.all Text.isBlank = true ∧ Text.isBlank x = false ∧ x ≠ '#'

theorem breaksUnsigned_of_notMem {s : List Char} (h : '\n' ∉ s) : BreaksUnsigned s := by
  rintro lead rest rfl
  simp at h

theorem BreaksUnsigned.of_append {s t : List Char} (h : BreaksUnsigned (s ++ t)) : BreaksUnsigned t :=
  fun lead rest ht => h (s ++ lead) rest (by rw [ht, List.append_assoc])

theorem breaksUnsigned_append {s t : List Char} (hs : '\n' ∉ s) (ht : BreaksUnsigned t) :
    BreaksUnsigned (s ++ t) := by
  intro lead rest h
  obtain ⟨lead', -, hrest⟩ := exists_of_notMem hs h
  exact ht lead' rest hrest

theorem breaksUnsigned_gap {gap t : List Char} {x : Char} (hgap : gap.all Text.isBlank = true)
    (hx : Text.isBlank x = false) (hsign : x ≠ '#') (ht : BreaksUnsigned t) :
    BreaksUnsigned (gap ++ x :: t) := by
  intro lead rest h
  have hbreak : x ≠ '\n' := by
    rintro rfl
    exact absurd hx (by decide)
  rcases break_of_gap hbreak h with ⟨a, rfl, rfl⟩ | ⟨a, rfl⟩
  · refine ⟨a, x, t, rfl, ?_, hx, hsign⟩
    simp only [List.all_append, List.all_cons, Bool.and_eq_true] at hgap
    exact hgap.2.2
  · exact ht a rest rfl

namespace VersionPin

variable {operator : List Char}

theorem breaksUnsigned (hoperator : '\n' ∉ operator) (pin : VersionPin operator) :
    BreaksUnsigned pin.text := by
  have hquote : ∀ {c : Char}, isQuote c = true → Text.isBlank c = false ∧ c ≠ '#' ∧ '\n' ≠ c :=
    fun hc => ⟨isBlank_eq_false_of_isQuote hc, (ne_of_holds hc (by decide)).symm,
      ne_of_holds hc (by decide)⟩
  obtain ⟨x, version, hversion⟩ := List.exists_cons_of_ne_nil pin.version_ne
  have hplain : ∀ y ∈ x :: version, isVersionChar y = true := by
    rw [← hversion]
    exact List.all_eq_true.mp pin.version_plain
  have hx := hplain x List.mem_cons_self
  have htext : pin.text = "gem".toList ++ (pin.call.gap ++ pin.call.opening :: (("rails".toList ++
      [pin.call.closing, ',']) ++ (pin.space ++ pin.opening :: (operator ++ (pin.gap ++
        x :: (version ++ [pin.closing])))))) := by
    simp only [text, GemCall.text_eq, hversion, List.append_assoc, List.cons_append, List.nil_append]
  obtain ⟨hopeningBlank, hopeningSign, -⟩ := hquote pin.call.isQuote_opening
  obtain ⟨hopening, hsign, -⟩ := hquote pin.isQuote_opening
  rw [htext]
  -- The only line breaks are in the gaps, and no comment begins behind one of them.
  refine breaksUnsigned_append (by decide) (breaksUnsigned_gap pin.call.gap_blank hopeningBlank
    hopeningSign (breaksUnsigned_append ?_ (breaksUnsigned_gap pin.space_blank hopening hsign
      (breaksUnsigned_append hoperator (breaksUnsigned_gap pin.gap_blank
        (isBlank_eq_false_of_isVersionChar hx) (ne_of_holds hx (by decide)).symm
        (breaksUnsigned_of_notMem ?_))))))
  · simp [(hquote pin.call.isQuote_closing).2.2]
  · simp only [List.mem_append, List.mem_singleton, not_or]
    refine ⟨fun hmem => ?_, (hquote pin.isQuote_closing).2.2⟩
    exact absurd (hplain _ (List.mem_cons_of_mem _ hmem)) (by decide)

/-- A pin begins with a letter. -/
theorem text_eq_cons (pin : VersionPin operator) : ∃ more, pin.text = 'g' :: more := ⟨_, rfl⟩

/-- A pin ends with a quote. -/
theorem text_ne_concat (pin : VersionPin operator) (s : List Char) : pin.text ≠ s ++ ['\n'] := by
  intro h
  have hlast := congrArg List.getLast? h
  rw [show pin.text = (pin.call.text ++ (',' :: (pin.space ++ (pin.opening :: (operator ++ (pin.gap ++
    pin.version)))))) ++ [pin.closing] by simp [text], List.getLast?_concat, List.getLast?_concat] at hlast
  exact ne_of_holds pin.isQuote_closing (by decide) (Option.some.inj hlast).symm

/-- A pin that begins at the end of a line begins on this line. -/
theorem isCommented_of_prefix {pin : VersionPin operator} {lead tail rest : List Char} (htail : tail ≠ [])
    (h : pin.text <+: tail ++ rest) : isCommented (lead ++ tail) = isCommented lead := by
  obtain ⟨x, tail, rfl⟩ := List.exists_cons_of_ne_nil htail
  obtain ⟨more, hmore⟩ := pin.text_eq_cons
  rw [hmore, List.cons_append, List.cons_prefix_cons] at h
  rw [← h.1]
  exact isCommented_append_of_solid (by decide) (by decide)

end VersionPin

/-- A part that goes on behind its line breaks with something else than a comment goes on where the
lines that are commented out are left out. -/
theorem prefix_active {b : List Char} {ls : List (List Char)} (hb : BreaksUnsigned b)
    (h : b <+: stacked ls) : b <+: stacked (ls.filter (!isCommented ·)) := by
  induction ls generalizing b with
  | nil => exact h
  | cons line ls ih =>
    cases b with
    | nil => exact List.nil_prefix
    | cons y b =>
      rw [stacked_cons] at h
      obtain ⟨rfl, hrest⟩ := List.cons_prefix_cons.mp h
      have hactive : isCommented line ≠ true := by
        intro hcomment
        obtain ⟨gap, x, more, rfl, hgap, hx, hsign⟩ := hb [] b rfl
        obtain ⟨after, hafter⟩ := hrest
        have hfirst : isCommented (line ++ stacked ls) = false := by
          rw [← hafter, List.append_assoc, List.cons_append, isCommented_gap hgap hx hsign]
        rw [isCommented_append (startsBreak_stacked ls), hcomment] at hfirst
        cases hfirst
      rw [List.filter_cons_of_pos (by simpa using hactive), stacked_cons, List.prefix_cons_inj]
      rcases prefix_append_cases hrest with hshort | ⟨b, rfl, hlong⟩
      · exact hshort.trans (List.prefix_append _ _)
      · have hbreaks : BreaksUnsigned b := BreaksUnsigned.of_append (s := '\n' :: line) hb
        exact (List.prefix_append_right_inj _).mpr (ih hbreaks hlong)

section

variable {operator : String} {text : List Char}

theorem firstPin_cons_break (s : List Char) : firstPin operator ('\n' :: s) = firstPin operator s := by
  have hnone : pinAt operator ('\n' :: s) = none := by
    rw [← Option.not_isSome_iff_eq_none]
    intro hsome
    obtain ⟨version, hversion⟩ := Option.isSome_iff_exists.mp hsome
    obtain ⟨pin, rest, hpin, -⟩ := pinAt_iff.mp hversion
    obtain ⟨more, hmore⟩ := pin.text_eq_cons
    rw [hmore, List.cons_append] at hpin
    exact absurd (List.cons_eq_cons.mp hpin).1 (by decide)
  rw [firstPin, List.tails_cons, List.findSome?_cons, hnone]
  rfl

/-- A line break at the end changes no pin. -/
theorem firstPin_concat (s : List Char) : firstPin operator (s ++ ['\n']) = firstPin operator s := by
  have hon : firstOn operator s ['\n'] = firstOn operator s [] := by
    refine firstOn_congr fun lead tail _ _ => pinAt_congr fun pin => ?_
    rw [List.append_nil]
    refine ⟨fun h => ?_, fun h => h.trans (List.prefix_append _ _)⟩
    rcases prefix_append_cases h with hshort | ⟨b, hb, hlast⟩
    · exact hshort
    · rcases List.prefix_cons_iff.mp hlast with rfl | ⟨more, rfl, hmore⟩
      · exact ⟨[], by simpa using hb⟩
      · rw [List.prefix_nil.mp hmore] at hb
        exact absurd hb (pin.text_ne_concat tail)
  conv_rhs => rw [← List.append_nil s]
  rw [firstPin_append, firstPin_append, hon]
  congr 1

/-- Without a pin that begins on a line that is commented out or is cut by one, the lines that are
commented out have no say. -/
theorem firstPin_stacked (hoperator : '\n' ∉ operator.toList) {lead : List Char} {ls : List (List Char)}
    (hls : ∀ l ∈ ls, '\n' ∉ l) (htext : '\n' :: text = lead ++ stacked ls)
    (hcomment : ∀ pin : VersionPin operator.toList, ¬ OnComment pin.text text)
    (hcut : ∀ pin : VersionPin operator.toList, ¬ Interrupted pin.text text) :
    firstPin operator (stacked ls) = firstPin operator (stacked (ls.filter (!isCommented ·))) := by
  induction ls generalizing lead with
  | nil => rfl
  | cons line ls ih =>
    obtain ⟨hline, hls⟩ := List.forall_mem_cons.mp hls
    have hbehind : '\n' :: text = (lead ++ '\n' :: line) ++ stacked ls := by rw [htext]; simp
    have hrest := ih hls hbehind
    rw [stacked_cons, firstPin_cons_break, firstPin_append, hrest]
    by_cases hsign : isCommented line = true
    -- A pin that begins in a comment would be one on a comment.
    · rw [List.filter_cons_of_neg (by simp [hsign]), firstOn_eq_none, Option.none_or]
      intro front tail hsplit htail
      rw [← Option.not_isSome_iff_eq_none]
      intro hsome
      obtain ⟨version, hversion⟩ := Option.isSome_iff_exists.mp hsome
      obtain ⟨pin, rest, hpin, -⟩ := pinAt_iff.mp hversion
      refine hcomment pin ⟨lead, front, rest, ?_, fun hmem => hline (by simp [hsplit, hmem]), ?_⟩
      · rw [htext, stacked_cons, hsplit, List.append_assoc, hpin]
      · rw [← VersionPin.isCommented_of_prefix htail ⟨rest, hpin.symm⟩, ← hsplit, hsign]
    · rw [List.filter_cons_of_pos (by simpa using hsign), stacked_cons, firstPin_cons_break,
        firstPin_append]
      congr 1
      -- What is dropped behind a line shows only in pins that go on there, and these are interrupted.
      refine firstOn_congr fun front tail hsplit htail => pinAt_congr fun pin => ⟨fun h => ?_, fun h => ?_⟩
      · rcases prefix_append_cases h with hshort | ⟨b, hb, hlong⟩
        · exact hshort.trans (List.prefix_append _ _)
        · have hbreaks := pin.breaksUnsigned hoperator
          rw [hb] at hbreaks ⊢
          exact (List.prefix_append_right_inj _).mpr (prefix_active hbreaks.of_append hlong)
      · have hfront : isCommented (front ++ tail) = isCommented front :=
          VersionPin.isCommented_of_prefix htail h
        rcases prefix_append_cases h with hshort | ⟨b, hb, hlong⟩
        · exact hshort.trans (List.prefix_append _ _)
        · rcases prefix_or_cut_of_prefix_active hls hlong with hall | ⟨p, q, rest, rfl, hp, hq, hbehind⟩
          · rw [hb]
            exact (List.prefix_append_right_inj _).mpr hall
          · refine absurd ⟨lead, front, tail ++ p, q, rest, ?_, fun hmem => hline (by simp [hsplit, hmem]),
              ?_, by simp [htail], by rw [hb, List.append_assoc], hq, hbehind⟩ (hcut pin)
            · rw [htext, stacked_cons, hsplit, hp]
              simp
            · rw [← hfront, ← hsplit]
              simpa using hsign

/-- Without a pin that begins on a line that is commented out or is cut by one, the lines that are not
commented out decide. -/
theorem firstPin_eq_active (hoperator : '\n' ∉ operator.toList)
    (hcomment : ∀ pin : VersionPin operator.toList, ¬ OnComment pin.text text)
    (hcut : ∀ pin : VersionPin operator.toList, ¬ Interrupted pin.text text) :
    firstPin operator text = firstPin operator (stacked (activeLines text)) := by
  have hall : firstPin operator text =
      firstPin operator (stacked ((Text.splitChar '\n' text).filter (!isCommented ·))) := by
    rw [← firstPin_cons_break, ← stacked_splitChar]
    have hstacked : '\n' :: text = [] ++ stacked (Text.splitChar '\n' text) := (stacked_splitChar text).symm
    exact firstPin_stacked hoperator (fun l hl => Text.notMem_of_mem_splitChar hl) hstacked hcomment hcut
  rw [hall, activeLines]
  rcases splitChar_eq_lines text with hlines | hlines
  · rw [hlines]
  · have hlast : [([] : List Char)].filter (!isCommented ·) = [[]] := rfl
    rw [hlines, List.filter_append, hlast, stacked_append]
    exact firstPin_concat _

/-- A pin decides if no other one with its operator begins before it. -/
theorem firstPin_of_first (pin : VersionPin operator.toList) {lead rest : List Char}
    (hfirst : ∀ (earlier : VersionPin operator.toList) (front more : List Char),
      lead ++ (pin.text ++ rest) = front ++ (earlier.text ++ more) → lead.length ≤ front.length) :
    firstPin operator (lead ++ (pin.text ++ rest)) = some pin.version := by
  have hlead : firstOn operator lead (pin.text ++ rest) = none := by
    refine firstOn_eq_none fun front tail hsplit htail => ?_
    rw [← Option.not_isSome_iff_eq_none]
    intro hsome
    obtain ⟨version, hversion⟩ := Option.isSome_iff_exists.mp hsome
    obtain ⟨earlier, more, hmore, -⟩ := pinAt_iff.mp hversion
    have hlength := hfirst earlier front more (by rw [hsplit, List.append_assoc, hmore])
    have hpos := List.length_pos_of_ne_nil htail
    rw [hsplit, List.length_append] at hlength
    omega
  have hpin : pinAt operator (pin.text ++ rest) = some pin.version := pinAt_iff.mpr ⟨pin, rest, rfl, rfl⟩
  obtain ⟨more, hmore⟩ := pin.text_eq_cons
  rw [firstPin_append, hlead, Option.none_or, firstPin]
  rw [hmore, List.cons_append] at hpin ⊢
  rw [List.tails_cons, List.findSome?_cons, hpin]

end

/-! ### The target of an application -/

theorem pinnedVersion?_eq (text : List Char) :
    pinnedVersion? text = ((firstPin "~>" text).or (firstPin ">=" text)).map String.ofList := by
  have hexprs : pinnedVersion? text = (railsPins.map Pattern.expr).findSome? fun e =>
      ((e.search text).map (·.group 1)).map String.ofList := by
    rw [List.findSome?_map, pinnedVersion?]
    congr 1
    funext p
    rw [Function.comp_apply, Option.map_map]
    rfl
  rw [hexprs, railsPins_expr, List.findSome?_cons, findSome?_singleton, search_pin, search_pin]
  unfold firstPin
  cases text.tails.findSome? (pinAt "~>") <;> rfl

/-- Trees whose Gemfiles differ only in lines that are commented out have the same target, as long as no
pin begins on such a line or is cut in two by one. A pin that begins on such a line decides like any
other: the first pin with `~>` tells the target, wherever it stands. -/
theorem detectTarget_activeLines (t : Tree) (root : Root) :
    (∀ (t' : Tree) (root' : Root),
      activeLines (gemfileText t root) = activeLines (gemfileText t' root') →
      (∀ text ∈ [gemfileText t root, gemfileText t' root'], ∀ operator ∈ ["~>", ">="],
        ∀ pin : VersionPin operator.toList, ¬ OnComment pin.text text ∧ ¬ Interrupted pin.text text) →
      detectTarget t root = detectTarget t' root') ∧
    ∀ (pin : VersionPin "~>".toList) (lead rest : List Char),
      gemfileText t root = lead ++ (pin.text ++ rest) →
      (∀ (earlier : VersionPin "~>".toList) (front more : List Char),
        lead ++ (pin.text ++ rest) = front ++ (earlier.text ++ more) → lead.length ≤ front.length) →
      detectTarget t root = String.ofList pin.version := by
  constructor
  -- A pin is found by either operator, and for each of them the active lines decide.
  · intro t' root' hactive hpins
    have hsame : ∀ operator ∈ ["~>", ">="],
        firstPin operator (gemfileText t root) = firstPin operator (gemfileText t' root') := by
      intro operator hoperator
      have hsolid : '\n' ∉ operator.toList := by
        rcases List.mem_pair.mp hoperator with rfl | rfl
        · decide
        · decide
      have hleft := hpins _ List.mem_cons_self operator hoperator
      have hright := hpins (gemfileText t' root') (by simp) operator hoperator
      rw [firstPin_eq_active hsolid (fun pin => (hleft pin).1) fun pin => (hleft pin).2,
        firstPin_eq_active hsolid (fun pin => (hright pin).1) fun pin => (hright pin).2, hactive]
    rw [detectTarget, detectTarget, pinnedVersion?_eq, pinnedVersion?_eq, hsame "~>" (by simp),
      hsame ">=" (by simp)]
  · intro pin lead rest htext hfirst
    rw [detectTarget, pinnedVersion?_eq, htext, firstPin_of_first pin hfirst]
    rfl

/-- An application that consists of a Gemfile. -/
def gemfileOnly (text : String) : Tree := { files := [(["Gemfile"], Text.encode text.toList)] }

/-- No pin touches a line that is commented out in a text in which no such line and nothing before one
holds the letter that pins begin with. -/
theorem untouched_of_letter {operator : String} {text : List Char}
    (hcomments : ∀ l ∈ Text.comments text, 'g' ∉ l)
    (hbehind : ∀ s ∈ text.tails, s.head? = some 'g' → Text.comments s.tail = [])
    (pin : VersionPin operator.toList) : ¬ OnComment pin.text text ∧ ¬ Interrupted pin.text text := by
  obtain ⟨more, hmore⟩ := pin.text_eq_cons
  rw [hmore]
  constructor
  · intro h
    obtain ⟨l, hl, hmem⟩ := h.exists_comment (by decide)
    exact hcomments l hl hmem
  · intro h
    obtain ⟨s, hs, hne⟩ := h.exists_comment (by decide)
    exact hne (hbehind _ ((List.mem_tails _ _).mpr hs) rfl)

/-- The call `gem 'rails', '~> 5.0'`. -/
def pinFiveZero : VersionPin "~>".toList where
  call := ⟨[' '], '\'', '\'', isBlank_space, space_ne_nil, isQuote_straight, isQuote_straight⟩
  space := [' ']
  opening := '\''
  gap := [' ']
  version := "5.0".toList
  closing := '\''
  space_blank := isBlank_space
  space_ne := space_ne_nil
  isQuote_opening := isQuote_straight
  gap_blank := isBlank_space
  gap_ne := space_ne_nil
  version_plain := by decide
  version_ne := by decide
  isQuote_closing := isQuote_straight

theorem detectTarget_activeLines_sixOne :
    detectTarget (gemfileOnly "# old\ngem 'rails', '~> 6.1'\n") ⟨[], "."⟩ =
        detectTarget (gemfileOnly "  # new\n# newer\ngem 'rails', '~> 6.1'") ⟨[], "."⟩ ∧
      detectTarget (gemfileOnly "# gem 'rails', '~> 5.0'\n") ⟨[], "."⟩ = "5.0" := by
  have hleft : gemfileText (gemfileOnly "# old\ngem 'rails', '~> 6.1'\n") ⟨[], "."⟩ =
      "# old\ngem 'rails', '~> 6.1'\n".toList := by decide
  have hright : gemfileText (gemfileOnly "  # new\n# newer\ngem 'rails', '~> 6.1'") ⟨[], "."⟩ =
      "  # new\n# newer\ngem 'rails', '~> 6.1'".toList := by decide
  refine ⟨(detectTarget_activeLines _ _).1 _ _ (by decide)
    fun text htext operator _ pin => ?_, ?_⟩
  · rcases List.mem_pair.mp htext with rfl | rfl
    · rw [hleft]
      exact untouched_of_letter (by decide) (by decide) pin
    · rw [hright]
      exact untouched_of_letter (by decide) (by decide) pin
  · have htext : gemfileText (gemfileOnly "# gem 'rails', '~> 5.0'\n") ⟨[], "."⟩ =
        "# ".toList ++ (pinFiveZero.text ++ ['\n']) := by decide
    refine (detectTarget_activeLines _ _).2 pinFiveZero _ _ htext fun earlier front more heq => ?_
    -- A pin that begins earlier would begin with another letter.
    obtain ⟨rest, hrest⟩ := earlier.text_eq_cons
    rw [hrest] at heq
    match front with
    | [] => exact absurd (List.cons_eq_cons.mp heq).1 (by decide)
    | [_] => exact absurd (List.cons_eq_cons.mp (List.cons_eq_cons.mp heq).2).1 (by decide)
    | _ :: _ :: front => simp

/-- A pin that is commented out decides against the one below it. -/
theorem detectTarget_commentedPin :
    activeLines (gemfileText (gemfileOnly "# gem 'rails', '~> 5.0'\ngem 'rails', '~> 6.1'\n") ⟨[], "."⟩) =
        activeLines (gemfileText (gemfileOnly "gem 'rails', '~> 6.1'\n") ⟨[], "."⟩) ∧
      detectTarget (gemfileOnly "# gem 'rails', '~> 5.0'\ngem 'rails', '~> 6.1'\n") ⟨[], "."⟩ = "5.0" ∧
      detectTarget (gemfileOnly "gem 'rails', '~> 6.1'\n") ⟨[], "."⟩ = "6.1" := by
  decide +kernel

end RailsUpgrade.Project
