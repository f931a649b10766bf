import Mathlib.Data.List.Infix
import RailsUpgrade.Gemfile
import RailsUpgrade.Proofs.Lines
import RailsUpgrade.Proofs.OnLine

/-!
# `RailsUpgrade.Proofs.RailsPin`: the pin of Rails in a Gemfile

`railsGem` finds calls that ask for Rails with a version, and each of them becomes the pin of a
release. The calls need not stand on a line of their own, nor on one line at all, and a version may
reach into the next call.

* `RailsCall` is what the pattern finds, and `Pin` what is put in its place;
* `Tidy`: every call that asks for Rails is the pin, and no call has a line break before its quote;
* `tidy_pass`: a text without such breaks is tidy once all calls that ask for Rails are pinned;
* `Tidy.insert`: a tidy text stays so if harmless lines are put into it.
-/

set_option autoImplicit false

namespace RailsUpgrade.Gemfile

open Pattern (Expr CharSet Pass Swap reads_chars reads_run reads_of_mem_ends canTake_seq canTake_one
  canTake_star canTake_plus canTake_chars pass_replaceAll)
open Text (StartsBreak)

/-! ### Quotes and gaps -/

/-- Both quotes. -/
def isQuote (c : Char) : Bool := c == '\'' || c == '"'

def quoteSet : CharSet := .ofItems [.one '\'', .one '"']

def gapSet : CharSet := .ofItems [.kind .blank false false]

/-- What may stand between the quotes of a version. -/
def versionSet : CharSet := .butItems [.one '\'', .one '"', .one '\n']

@[simp] theorem mem_quoteSet (x : Char) : quoteSet.mem x = isQuote x := by
  simp [quoteSet, isQuote, Pattern.CharItem.mem]

@[simp] theorem mem_gapSet (x : Char) : gapSet.mem x = Text.isBlank x := by
  simp [gapSet, Pattern.CharItem.mem, Pattern.CharKind.mem]

@[simp] theorem mem_versionSet (x : Char) : versionSet.mem x = (!isQuote x && x != '\n') := by
  simp [versionSet, isQuote, Pattern.CharItem.mem, bne, Bool.and_assoc]

theorem all_gapSet (s : List Char) : s.all gapSet.mem = s.all Text.isBlank := by
  rw [show gapSet.mem = Text.isBlank from funext mem_gapSet]

theorem isBlank_eq_false_of_isQuote {c : Char} (h : isQuote c = true) : Text.isBlank c = false := by
  obtain rfl | rfl : c = '\'' ∨ c = '"' := by simpa [isQuote] using h
  · decide
  · decide

/-- Characters of different kinds differ. -/
theorem ne_of_holds {p : Char → Bool} {c x : Char} (h : p c = true) (hx : p x = false) : x ≠ c := by
  rintro rfl
  rw [h] at hx
  cases hx

/-- A run and what ends it are determined by the text. -/
theorem run_unique {p : Char → Bool} {s s' t t' : List Char} {x x' : Char} (hs : s.all p = true)
    (hs' : s'.all p = true) (hx : p x = false) (hx' : p x' = false)
    (h : s ++ x :: t = s' ++ x' :: t') : s = s' ∧ x = x' ∧ t = t' := by
  induction s generalizing s' with
  | nil =>
    cases s' with
    | nil => simpa using h
    | cons y s' =>
      obtain ⟨rfl, -⟩ : x = y ∧ _ := by simpa using h
      simp [hx] at hs'
  | cons y s ih =>
    cases s' with
    | nil =>
      obtain ⟨rfl, -⟩ : y = x' ∧ _ := by simpa using h
      simp [hx'] at hs
    | cons z s' =>
      obtain ⟨rfl, hmore⟩ : y = z ∧ s ++ x :: t = s' ++ x' :: t' := by simpa using h
      rw [List.all_cons, Bool.and_eq_true] at hs hs'
      obtain ⟨rfl, hrest⟩ := ih hs.2 hs'.2 hmore
      exact ⟨rfl, hrest⟩

theorem isQuote_straight : isQuote '\'' = true := by decide

theorem isBlank_space : [' '].all Text.isBlank = true := by decide

theorem space_ne_nil : [' '] ≠ [] := by decide

/-- A gap that is one space. -/
theorem gap_of_space {gap t t' : List Char} {quote : Char} (hgap : gap.all Text.isBlank = true)
    (hquote : isQuote quote = true) (h : gap ++ quote :: t = ' ' :: '\'' :: t') :
    '\n' ∉ gap ∧ quote = '\'' ∧ t = t' := by
  obtain ⟨rfl, hrest⟩ := run_unique (t := t) (x := quote) hgap (show [' '].all Text.isBlank = true by decide)
    (isBlank_eq_false_of_isQuote hquote) (by decide) h
  exact ⟨by decide, hrest⟩

/-! ### Calls -/

/-- A call that asks for Rails with a version. -/
structure RailsCall where
  gap : List Char
  space : List Char
  version : List Char
  opening : Char
  closing : Char
  opening' : Char
  closing' : Char
  gap_blank : gap.all Text.isBlank = true
  gap_ne : gap ≠ []
  space_blank : space.all Text.isBlank = true
  space_ne : space ≠ []
  version_plain : version.all versionSet.mem = true
  isQuote_opening : isQuote opening = true
  isQuote_closing : isQuote closing = true
  isQuote_opening' : isQuote opening' = true
  isQuote_closing' : isQuote closing' = true

namespace RailsCall

variable (call : RailsCall)

/-- What stands before the version, but for the first letter. -/
def front : List Char :=
  "em".toList ++ (call.gap ++ (call.opening :: "rails".toList ++
    (call.closing :: ',' :: (call.space ++ [call.opening']))))

def text : List Char := 'g' :: (call.front ++ (call.version ++ [call.closing']))

theorem g_notMem_front : 'g' ∉ call.front := by
  have hgap : 'g' ∉ call.gap := fun h =>
    ne_of_holds (List.all_eq_true.mp call.gap_blank _ h) (by decide) rfl
  have hspace : 'g' ∉ call.space := fun h =>
    ne_of_holds (List.all_eq_true.mp call.space_blank _ h) (by decide) rfl
  have hquote : ∀ {q : Char}, isQuote q = true → 'g' ≠ q := fun h => ne_of_holds h (by decide)
  simp [front, hgap, hspace, hquote call.isQuote_opening, hquote call.isQuote_closing,
    hquote call.isQuote_opening']

theorem text_ne_nil : call.text ≠ [] := by simp [text]

end RailsCall

/-- A call with a line break before its quote. -/
structure IsBroken (part : List Char) : Prop where
  shape : ∃ gap quote, part = "gem".toList ++ (gap ++ [quote]) ∧ gap.all Text.isBlank = true ∧
    '\n' ∈ gap ∧ isQuote quote = true

/-- A text without calls that have a line break before their quote. -/
def Unbroken (text : List Char) : Prop := ∀ part, part <:+: text → ¬ IsBroken part

/-- Whether a broken call begins a text. -/
def opensBroken (s : List Char) : Bool :=
  "gem".toList.isPrefixOf s && ((s.drop 3).takeWhile Text.isBlank).contains '\n' &&
    ((s.drop 3).dropWhile Text.isBlank).head?.any isQuote

theorem opensBroken_iff (s : List Char) :
    opensBroken s = true ↔ ∃ part, IsBroken part ∧ part <+: s := by
  simp only [opensBroken, Bool.and_eq_true, List.isPrefixOf_iff_prefix, List.contains_iff_mem]
  constructor
  · rintro ⟨⟨⟨rest, rfl⟩, hbreak⟩, hquote⟩
    have hrest : ("gem".toList ++ rest).drop 3 = rest := rfl
    rw [hrest] at hbreak hquote
    cases hdrop : rest.dropWhile Text.isBlank with
    | nil => simp [hdrop] at hquote
    | cons quote more =>
      have hsplit := List.takeWhile_append_dropWhile (p := Text.isBlank) (l := rest)
      rw [hdrop] at hsplit
      refine ⟨_, ⟨_, quote, rfl, List.all_takeWhile, hbreak, by simpa [hdrop] using hquote⟩, more, ?_⟩
      rw [List.append_assoc, List.append_assoc, List.singleton_append, hsplit]
  · rintro ⟨_, ⟨gap, quote, rfl, hgap, hbreak, hquote⟩, rest, rfl⟩
    have hdrop : ("gem".toList ++ (gap ++ [quote]) ++ rest).drop 3 = gap ++ quote :: rest := by simp
    have hsolid := isBlank_eq_false_of_isQuote hquote
    rw [hdrop, List.takeWhile_append_of_pos (List.all_eq_true.mp hgap),
      List.dropWhile_append_of_pos (List.all_eq_true.mp hgap)]
    refine ⟨⟨⟨gap ++ [quote] ++ rest, by simp⟩, List.mem_append_left _ hbreak⟩, ?_⟩
    simp [hsolid, hquote]

/-- Broken calls can be looked for at each place of a text. -/
theorem unbroken_iff (text : List Char) :
    (∀ s ∈ text.tails, opensBroken s = false) ↔ Unbroken text := by
  simp only [← Bool.not_eq_true, opensBroken_iff, List.mem_tails]
  constructor
  · rintro h part ⟨lead, rest, rfl⟩ hbroken
    exact h (part ++ rest) ⟨lead, by simp⟩ ⟨part, hbroken, List.prefix_append _ _⟩
  · rintro h s hsuffix ⟨part, hbroken, hstart⟩
    exact h part (hstart.isInfix.trans hsuffix.isInfix) hbroken

instance (text : List Char) : Decidable (Unbroken text) := decidable_of_iff _ (unbroken_iff text)

theorem Unbroken.of_infix {part text : List Char} (h : Unbroken text) (hpart : part <:+: text) :
    Unbroken part := fun s hs => h s (hs.trans hpart)

/-- What calls that ask for Rails are replaced by. The letter `g` begins a call and must not appear
again. -/
structure Pin where
  version : List Char
  plain : ∀ c ∈ version, versionSet.mem c = true ∧ c ≠ 'g'

def Pin.text (pin : Pin) : List Char := "gem 'rails', '".toList ++ (pin.version ++ ['\''])

/-- The pin is a call itself. -/
def Pin.call (pin : Pin) : RailsCall where
  gap := [' ']
  space := [' ']
  version := pin.version
  opening := '\''
  closing := '\''
  opening' := '\''
  closing' := '\''
  gap_blank := by decide
  gap_ne := by decide
  space_blank := by decide
  space_ne := by decide
  version_plain := List.all_eq_true.mpr fun c hc => (pin.plain c hc).1
  isQuote_opening := by decide
  isQuote_closing := by decide
  isQuote_opening' := by decide
  isQuote_closing' := by decide

theorem Pin.text_call (pin : Pin) : pin.call.text = pin.text := rfl

/-- Where one call begins no other one does. -/
theorem RailsCall.text_unique {call call' : RailsCall} {rest rest' : List Char}
    (h : call.text ++ rest = call'.text ++ rest') : call.text = call'.text ∧ rest = rest' := by
  have hgap : call.gap ++ (call.opening :: ("rails".toList ++ (call.closing :: ',' :: (call.space ++
      (call.opening' :: (call.version ++ (call.closing' :: rest))))))) =
      call'.gap ++ (call'.opening :: ("rails".toList ++ (call'.closing :: ',' :: (call'.space ++
      (call'.opening' :: (call'.version ++ (call'.closing' :: rest'))))))) := by
    simpa [text, front] using h
  -- Each run ends with a character that does not belong to it, so both calls are read alike.
  obtain ⟨hgap, hopening, hrest⟩ := run_unique call.gap_blank call'.gap_blank
    (isBlank_eq_false_of_isQuote call.isQuote_opening)
    (isBlank_eq_false_of_isQuote call'.isQuote_opening) hgap
  obtain ⟨hclosing, hrest⟩ := List.cons_eq_cons.mp (List.append_cancel_left hrest)
  obtain ⟨-, hrest⟩ := List.cons_eq_cons.mp hrest
  obtain ⟨hspace, hopening', hrest⟩ := run_unique call.space_blank call'.space_blank
    (isBlank_eq_false_of_isQuote call.isQuote_opening')
    (isBlank_eq_false_of_isQuote call'.isQuote_opening') hrest
  obtain ⟨hversion, hclosing', hrest⟩ := run_unique call.version_plain call'.version_plain
    (by simp [call.isQuote_closing']) (by simp [call'.isQuote_closing']) hrest
  simp [text, front, hgap, hopening, hclosing, hspace, hopening', hversion, hclosing', hrest]

/-! ### What the pattern finds -/

/-- What stands after the name of Rails. -/
def versionExpr : Expr :=
  .seq (.one quoteSet) (.chars "," (.seq (.plus gapSet) (.seq (.one quoteSet)
    (.seq (.star versionSet) (.one quoteSet)))))

theorem railsGem_expr : railsGem.expr =
    .chars "gem" (.seq (.plus gapSet) (.seq (.one quoteSet) (.chars "rails" versionExpr))) :=
  Pattern.expr_fixed String.toList_ofList (by decide)

/-- The swap that pins Rails. -/
def pinned (pin : Pin) : Swap := fun _ taken _ new => (∃ call : RailsCall, taken = call.text) ∧ new = pin.text

theorem exists_call_of_reads {s : List Char} {g : Pattern.Groups}
    (h : railsGem.expr.Reads [] s g) : ∃ call : RailsCall, s = call.text := by
  rw [railsGem_expr, reads_chars] at h
  obtain ⟨s, rfl, gap, _, s, hgap, ⟨q₁, _, s₁, ⟨⟨x₁, h₁, rfl⟩, rfl⟩, hrails, rfl⟩, rfl⟩ := h
  rw [reads_chars] at hrails
  obtain ⟨s, rfl, q₂, _, s₂, ⟨⟨x₂, h₂, rfl⟩, rfl⟩, hcomma, rfl⟩ := hrails
  rw [reads_chars] at hcomma
  obtain ⟨s, rfl, space, _, s, hspace, ⟨q₃, _, s₃, ⟨⟨x₃, h₃, rfl⟩, rfl⟩,
    ⟨version, _, s₄, hversion, ⟨⟨x₄, h₄, rfl⟩, rfl⟩, rfl⟩, rfl⟩, rfl⟩ := hcomma
  obtain ⟨hgapLength, hgap, -⟩ := reads_run.mp hgap
  obtain ⟨hspaceLength, hspace, -⟩ := reads_run.mp hspace
  obtain ⟨-, hversion, -⟩ := reads_run.mp hversion
  refine ⟨⟨gap, space, version, x₁, x₂, x₃, x₄, by rwa [all_gapSet] at hgap, ?_,
    by rwa [all_gapSet] at hspace, ?_, hversion, by simpa using h₁, by simpa using h₂,
    by simpa using h₃, by simpa using h₄⟩, by simp [RailsCall.text, RailsCall.front]⟩
  · rintro rfl
    simp at hgapLength
  · rintro rfl
    simp at hspaceLength

theorem canTake_call (call : RailsCall) (before after : List Char) :
    railsGem.expr.CanTake before call.text after := by
  have htext : call.text = "gem".toList ++ (call.gap ++ ([call.opening] ++ ("rails".toList ++
      ([call.closing] ++ (",".toList ++ (call.space ++ ([call.opening'] ++ (call.version ++
        [call.closing'])))))))) := by
    simp [RailsCall.text, RailsCall.front]
  rw [railsGem_expr, htext]
  refine canTake_chars (canTake_seq (canTake_plus ?_ call.gap_ne) (canTake_seq (canTake_one ?_)
    (canTake_chars (canTake_seq (canTake_one ?_) (canTake_chars (canTake_seq
      (canTake_plus ?_ call.space_ne) (canTake_seq (canTake_one ?_)
        (canTake_seq (canTake_star call.version_plain) (canTake_one ?_)))))))))
  · rw [all_gapSet, call.gap_blank]
  · rw [mem_quoteSet, call.isQuote_opening]
  · rw [mem_quoteSet, call.isQuote_closing]
  · rw [all_gapSet, call.space_blank]
  · rw [mem_quoteSet, call.isQuote_opening']
  · rw [mem_quoteSet, call.isQuote_closing']

theorem swaps_railsGem (pin : Pin) : railsGem.expr.Swaps (fun _ => pin.text) (pinned pin) where
  sound := by
    intro before after pos c hc
    obtain ⟨s, htakes, hreads⟩ := reads_of_mem_ends _ (List.mem_of_head? hc)
    obtain ⟨call, rfl⟩ := exists_call_of_reads hreads
    exact ⟨call.text, call.text_ne_nil, htakes, ⟨call, rfl⟩, rfl⟩
  complete := by
    rintro before taken after new pos ⟨⟨call, rfl⟩, -⟩ hnil
    obtain ⟨c, hc, -⟩ := canTake_call call before after
      { before, after := call.text ++ after, pos } rfl rfl
    rw [hnil] at hc
    cases hc

/-! ### Pinning Rails tidies a text -/

/-- Every call that asks for Rails is the pin, and no call has a line break before its quote. -/
structure Tidy (pin : Pin) (text : List Char) : Prop where
  pinned : ∀ call : RailsCall, call.text <:+: text → call.text = pin.text
  unbroken : Unbroken text

theorem Tidy.of_infix {pin : Pin} {part text : List Char} (h : Tidy pin text) (hpart : part <:+: text) :
    Tidy pin part :=
  ⟨fun call hcall => h.pinned call (hcall.trans hpart), h.unbroken.of_infix hpart⟩

/-- A call that asks for Rails, or a broken one. -/
def IsCall (part : List Char) : Prop := (∃ call : RailsCall, part = call.text) ∨ IsBroken part

theorem IsCall.exists_cons {part : List Char} (h : IsCall part) : ∃ more, part = 'g' :: more := by
  rcases h with ⟨call, rfl⟩ | ⟨gap, quote, rfl, -⟩
  · exact ⟨_, rfl⟩
  · exact ⟨_, rfl⟩

/-- A character that a text does not hold stands behind the text. -/
theorem exists_of_notMem {x : Char} {s t u v : List Char} (hx : x ∉ s)
    (h : s ++ t = u ++ x :: v) : ∃ a, u = s ++ a ∧ t = a ++ x :: v := by
  rcases List.append_eq_append_iff.mp h with ⟨a, rfl, rfl⟩ | ⟨a, rfl, hrest⟩
  · exact ⟨a, rfl, rfl⟩
  · cases a with
    | nil => exact ⟨[], by simp, by simpa using hrest.symm⟩
    | cons y a =>
      obtain ⟨rfl, -⟩ := List.cons_eq_cons.mp hrest
      exact absurd (by simp) hx

/-- A call that reaches from a place on into a later `g`: it ends before, or the letter belongs to
its version. -/
theorem IsCall.reaches {kept more part rest : List Char} (hpart : IsCall part) (hkept : kept ≠ [])
    (h : kept ++ 'g' :: more = part ++ rest) :
    part <+: kept ∨ ∃ call : RailsCall, ∃ version, kept = 'g' :: (call.front ++ version) ∧
      version.all versionSet.mem = true := by
  obtain ⟨tail, htail⟩ := hpart.exists_cons
  obtain ⟨x, kept, rfl⟩ := List.exists_cons_of_ne_nil hkept
  rcases List.append_eq_append_iff.mp h with ⟨a, hpart', hrest⟩ | ⟨a, hkept', -⟩
  · cases a with
    | nil => exact .inl ⟨[], by simpa using hpart'⟩
    | cons y a =>
      obtain ⟨rfl, -⟩ := List.cons_eq_cons.mp hrest
      obtain ⟨rfl, -⟩ : x = 'g' ∧ _ := by simpa [htail, eq_comm] using hpart'
      rcases hpart with ⟨call, rfl⟩ | ⟨gap, quote, rfl, hgap, -, hquote⟩
      · obtain ⟨version, rfl, hversion⟩ := exists_of_notMem call.g_notMem_front
          (List.cons_eq_cons.mp hpart').2
        refine .inr ⟨call, version, rfl, List.all_eq_true.mpr fun c hc => ?_⟩
        have hle : version.length ≤ call.version.length := by
          have hlength := congrArg List.length hversion
          simp only [List.length_append, List.length_cons, List.length_nil] at hlength
          omega
        have hstart : version <+: call.version :=
          List.prefix_of_prefix_length_le ⟨_, hversion.symm⟩ (List.prefix_append _ _) hle
        exact List.all_eq_true.mp call.version_plain c (hstart.subset hc)
      · -- Only the first letter of a broken call is a `g`.
        have hrest' : "em".toList ++ (gap ++ [quote]) = kept ++ 'g' :: a := by simpa using hpart'
        have hmem : 'g' ∈ "em".toList ++ (gap ++ [quote]) := by
          rw [hrest']
          simp
        have hno : 'g' ∉ gap := fun hg =>
          ne_of_holds (List.all_eq_true.mp hgap _ hg) (by decide) rfl
        simp [hno, ne_of_holds hquote (x := 'g') (by decide)] at hmem
  · exact .inl ⟨a, hkept'.symm⟩

/-- The gap of a call in a text without breaks holds no line break. -/
theorem Unbroken.break_notMem {text : List Char} (h : Unbroken text) {call : RailsCall}
    (hcall : call.text <:+: text) : '\n' ∉ call.gap := by
  intro hmem
  have hpart : "gem".toList ++ (call.gap ++ [call.opening]) <:+: call.text := by
    refine List.IsPrefix.isInfix ⟨"rails".toList ++ (call.closing :: ',' :: (call.space ++
      ([call.opening'] ++ (call.version ++ [call.closing'])))), ?_⟩
    simp [RailsCall.text, RailsCall.front]
  exact h _ (hpart.trans hcall) ⟨_, _, rfl, call.gap_blank, hmem, call.isQuote_opening⟩

theorem Pin.g_notMem (pin : Pin) : 'g' ∉ pin.call.front ++ (pin.version ++ ['\'']) := by
  have hversion : 'g' ∉ pin.version := fun h => (pin.plain _ h).2 rfl
  simp [hversion, pin.call.g_notMem_front]

/-- A pin is one line, so no broken call begins where it does. -/
theorem IsBroken.ne_pin {pin : Pin} {part : List Char} (h : IsBroken part) (more rest : List Char) :
    pin.text ++ more ≠ part ++ rest := by
  obtain ⟨gap, quote, rfl, hgap, hbreak, hquote⟩ := h
  intro heq
  have hpin : pin.text ++ more =
      "gem".toList ++ (' ' :: '\'' :: (("rails', '".toList ++ (pin.version ++ ['\''])) ++ more)) := rfl
  rw [hpin, List.append_assoc "gem".toList, List.append_assoc gap] at heq
  have hrun := List.append_cancel_left heq
  exact (gap_of_space hgap hquote hrun.symm).1 hbreak

/-- A call where a pin begins is the pin. -/
theorem IsCall.eq_pin {pin : Pin} {part rest more : List Char} (hpart : IsCall part)
    (h : pin.text ++ more = part ++ rest) : part = pin.text := by
  rcases hpart with ⟨call, rfl⟩ | hbroken
  · rw [← Pin.text_call] at h ⊢
    exact (RailsCall.text_unique h.symm).1
  · exact absurd h (hbroken.ne_pin more rest)

/-- Where a version reaches into another call, the text had a call from the same place on: its
version ends at the first quote of the other one. -/
theorem exists_call_of_reaches (call : RailsCall) {call' : RailsCall} {version : List Char} (after : List Char)
    (hversion : version.all versionSet.mem = true) (hgap : '\n' ∉ call'.gap) :
    ∃ found : RailsCall, ∃ rest,
      'g' :: (call.front ++ version) ++ (call'.text ++ after) = found.text ++ rest := by
  have hplain : (version ++ ("gem".toList ++ call'.gap)).all versionSet.mem = true := by
    have hgap' : call'.gap.all versionSet.mem = true := by
      refine List.all_eq_true.mpr fun c hc => ?_
      have hblank := List.all_eq_true.mp call'.gap_blank c hc
      have hquote : isQuote c = false := by
        by_contra hquote
        rw [isBlank_eq_false_of_isQuote (by simpa using hquote)] at hblank
        cases hblank
      have hbreak : c ≠ '\n' := fun h => hgap (h ▸ hc)
      simp [hquote, hbreak]
    have hgem : "gem".toList.all versionSet.mem = true := by decide
    simp only [List.all_append, hversion, hgem, hgap', Bool.and_self]
  refine ⟨{ call with
    version := _
    version_plain := hplain
    closing' := call'.opening
    isQuote_closing' := call'.isQuote_opening },
    "rails".toList ++ (call'.closing :: ',' :: (call'.space ++
      ([call'.opening'] ++ (call'.version ++ [call'.closing'])))) ++ after, ?_⟩
  simp [RailsCall.text, RailsCall.front]

/-- Nothing but pins are calls, once a pass has pinned all of them. -/
theorem eq_pin_of_pass {pin : Pin} {before text result : List Char}
    (h : Pass (pinned pin) before text result) (htext : Unbroken text) {lead part rest : List Char}
    (hresult : result = lead ++ (part ++ rest)) (hpart : IsCall part) : part = pin.text := by
  induction h generalizing lead with
  | done before =>
    obtain ⟨more, rfl⟩ := hpart.exists_cons
    simp at hresult
  | @keep before text result x idle more ih =>
    cases lead with
    | cons y lead =>
      have hmore : result = lead ++ (part ++ rest) := (List.cons_eq_cons.mp hresult).2
      exact ih (htext.of_infix (List.suffix_cons _ _).isInfix) hmore
    | nil =>
      -- A call from here on was there before, but then it was no pass that kept the character.
      have heq : [x] ++ result = part ++ rest := hresult
      obtain ⟨found, rest', hfound, hcall⟩ : ∃ found rest', [x] ++ text = found ++ rest' ∧
          IsCall found := by
        refine Pass.reflects more (by simp) ?_ heq hpart
        intro kept taken after new more found rest hkept hsuffix hswap _ heq hfound
        obtain ⟨⟨call, rfl⟩, rfl⟩ := hswap
        have hcall : call.text <:+: x :: text :=
          ((List.prefix_append _ _).isInfix.trans hsuffix.isInfix).trans (List.suffix_cons _ _).isInfix
        rcases hfound.reaches hkept heq with ⟨tail, rfl⟩ | ⟨call', version, rfl, hversion⟩
        · exact ⟨found, tail ++ (call.text ++ after), by simp, hfound⟩
        · obtain ⟨found', rest', heq'⟩ :=
            exists_call_of_reaches call' after hversion (htext.break_notMem hcall)
          exact ⟨found'.text, rest', heq', .inl ⟨found', rfl⟩⟩
      rcases hcall with ⟨call, rfl⟩ | hbroken
      · exact absurd ⟨⟨call, rfl⟩, rfl⟩ (idle call.text rest' pin.text hfound)
      · exact absurd hbroken (htext found ⟨[], rest', by simpa using hfound.symm⟩)
  | @hit before taken after new result _ swapped more ih =>
    obtain ⟨⟨call, rfl⟩, rfl⟩ := swapped
    cases lead with
    | nil => exact hpart.eq_pin hresult
    | cons y lead =>
      obtain ⟨tail, rfl⟩ := hpart.exists_cons
      obtain ⟨lead', -, hresult⟩ := exists_of_notMem (t := result) pin.g_notMem
        (List.cons_eq_cons.mp hresult).2
      exact ih (htext.of_infix (List.suffix_append _ _).isInfix) hresult

/-- A text without breaks is tidy once all calls that ask for Rails are pinned. -/
theorem tidy_pass {pin : Pin} {text result : List Char} (h : Pass (pinned pin) [] text result)
    (htext : Unbroken text) : Tidy pin result where
  pinned := by
    rintro call ⟨lead, rest, hresult⟩
    exact eq_pin_of_pass h htext (by simpa using hresult.symm) (.inl ⟨call, rfl⟩)
  unbroken := by
    rintro part ⟨lead, rest, hresult⟩ hbroken
    obtain rfl := eq_pin_of_pass h htext (by simpa using hresult.symm) (.inr hbroken)
    exact hbroken.ne_pin [] [] rfl

/-- In a tidy text there is nothing left to pin. -/
theorem Tidy.replaceAll_railsGem {pin : Pin} {text : List Char} (h : Tidy pin text) :
    railsGem.expr.replaceAll (fun _ => pin.text) text = text := by
  refine (pass_replaceAll (swaps_railsGem pin) text).eq_self ?_
  rintro lead taken after new htext ⟨⟨call, rfl⟩, rfl⟩
  exact (h.pinned call ⟨lead, after, by simpa using htext.symm⟩).symm

/-! ### Harmless lines -/

/-- Every line break is followed by blanks and a quote. -/
def BreaksQuoted (part : List Char) : Prop :=
  ∀ lead rest, part = lead ++ '\n' :: rest → ∃ gap quote more, rest = gap ++ quote :: more ∧
    gap.all Text.isBlank = true ∧ isQuote quote = true

theorem breaksQuoted_of_notMem {s : List Char} (h : '\n' ∉ s) : BreaksQuoted s := by
  rintro lead rest rfl
  simp at h

theorem breaksQuoted_append {s t : List Char} (hs : '\n' ∉ s) (ht : BreaksQuoted t) :
    BreaksQuoted (s ++ t) := by
  intro lead rest h
  obtain ⟨lead', -, hrest⟩ := exists_of_notMem hs h
  exact ht lead' rest hrest

/-- A line break that stands in a gap or behind its end. -/
theorem break_of_gap {gap t lead rest : List Char} {x : Char} (hx : x ≠ '\n')
    (h : gap ++ x :: t = lead ++ '\n' :: rest) :
    (∃ a, gap = lead ++ '\n' :: a ∧ rest = a ++ x :: t) ∨ ∃ a, t = a ++ '\n' :: rest := by
  rcases List.append_eq_append_iff.mp h with ⟨a, rfl, hrest⟩ | ⟨a, rfl, hrest⟩
  · cases a with
    | nil => exact absurd (by simpa using hrest) (fun h : x = '\n' ∧ t = rest => hx h.1)
    | cons y a => exact .inr ⟨a, (List.cons_eq_cons.mp hrest).2⟩
  · cases a with
    | nil => exact absurd (by simpa using hrest) (fun h : '\n' = x ∧ rest = t => hx h.1.symm)
    | cons y a =>
      obtain ⟨rfl, rfl⟩ := List.cons_eq_cons.mp hrest
      exact .inl ⟨a, rfl, rfl⟩

theorem breaksQuoted_gap {gap t : List Char} {quote : Char} (hgap : gap.all Text.isBlank = true)
    (hquote : isQuote quote = true) (ht : BreaksQuoted t) : BreaksQuoted (gap ++ quote :: t) := by
  intro lead rest h
  have hbreak : quote ≠ '\n' := (ne_of_holds hquote (by decide)).symm
  rcases break_of_gap hbreak h with ⟨a, rfl, rfl⟩ | ⟨a, rfl⟩
  · refine ⟨a, quote, t, rfl, ?_, hquote⟩
    simp only [List.all_append, List.all_cons, Bool.and_eq_true] at hgap
    exact hgap.2.2
  · exact ht a rest rfl

theorem IsCall.breaksQuoted {part : List Char} (h : IsCall part) : BreaksQuoted part := by
  have hquote : ∀ {q : Char}, isQuote q = true → '\n' ≠ q := fun h => ne_of_holds h (by decide)
  rcases h with ⟨call, rfl⟩ | ⟨gap, quote, rfl, hgap, -, hq⟩
  · have hversion : '\n' ∉ call.version := fun h => by
      simpa using List.all_eq_true.mp call.version_plain _ h
    have htext : call.text = "gem".toList ++ (call.gap ++ call.opening :: (("rails".toList ++
        [call.closing, ',']) ++ (call.space ++ call.opening' :: (call.version ++ [call.closing'])))) := by
      simp [RailsCall.text, RailsCall.front]
    rw [htext]
    refine breaksQuoted_append (by decide) (breaksQuoted_gap call.gap_blank call.isQuote_opening
      (breaksQuoted_append ?_ (breaksQuoted_gap call.space_blank call.isQuote_opening'
        (breaksQuoted_of_notMem ?_))))
    · simp [hquote call.isQuote_closing]
    · simp [hversion, hquote call.isQuote_closing']
  · exact breaksQuoted_append (by decide) (breaksQuoted_gap hgap hq (breaksQuoted_of_notMem (by simp)))

/-- A text that ends with a line break, if it is not empty. -/
def EndsBreak (s : List Char) : Prop := s = [] ∨ ∃ lead, s = lead ++ ['\n']

/-- What holds no line break ends before one. -/
theorem prefix_of_startsBreak {s t block after : List Char} (hs : '\n' ∉ s)
    (hafter : StartsBreak after) (h : s ++ t = block ++ after) : s <+: block := by
  rcases hafter with rfl | ⟨rest, rfl⟩
  · exact ⟨t, by simpa using h⟩
  · obtain ⟨a, rfl, -⟩ := exists_of_notMem hs h
    exact List.prefix_append _ _

/-- A call ends with a quote. -/
theorem IsCall.exists_concat {part : List Char} (h : IsCall part) :
    ∃ front quote, part = front ++ [quote] ∧ isQuote quote = true := by
  rcases h with ⟨call, rfl⟩ | ⟨gap, quote, rfl, -, -, hquote⟩
  · exact ⟨'g' :: (call.front ++ call.version), call.closing', by simp [RailsCall.text],
      call.isQuote_closing'⟩
  · exact ⟨"gem".toList ++ gap, quote, by simp, hquote⟩

/-- Tidiness is about calls only. -/
theorem Tidy.of_calls {pin : Pin} {text text' : List Char} (h : Tidy pin text)
    (hcalls : ∀ part, IsCall part → part <:+: text' → part <:+: text) : Tidy pin text' :=
  ⟨fun call hcall => h.pinned call (hcalls _ (.inl ⟨call, rfl⟩) hcall),
    fun part hpart hbroken => h.unbroken part (hcalls _ (.inr hbroken) hpart) hbroken⟩

theorem Tidy.cons_break {pin : Pin} {text : List Char} (h : Tidy pin text) :
    Tidy pin ('\n' :: text) := by
  refine h.of_calls fun part hpart hinfix => ?_
  rcases List.infix_cons_iff.mp hinfix with hstart | hinfix
  · obtain ⟨more, rfl⟩ := hpart.exists_cons
    obtain ⟨rest, hrest⟩ := hstart
    simp at hrest
  · exact hinfix

theorem Tidy.concat_break {pin : Pin} {text : List Char} (h : Tidy pin text) :
    Tidy pin (text ++ ['\n']) := by
  refine h.of_calls fun part hpart hinfix => ?_
  obtain ⟨front, quote, rfl, hquote⟩ := hpart.exists_concat
  rcases List.infix_concat_iff.mp hinfix with hsuffix | hinfix
  · obtain ⟨lead, hlead⟩ := hsuffix
    rw [← List.append_assoc] at hlead
    obtain ⟨-, hlast⟩ := List.append_inj' hlead rfl
    obtain rfl : quote = '\n' := by simpa using hlast
    simp [isQuote] at hquote
  · exact hinfix

/-- Lines that are no part of a call over several lines and hold no call that asks for Rails: they
begin with no quote, every `gem` in them is followed by a space and a quote, and none of these quotes
opens the name of Rails. -/
structure Harmless (block : List Char) : Prop where
  solid : ∃ gap x rest, block = gap ++ x :: rest ∧ gap.all Text.isBlank = true ∧
    Text.isBlank x = false ∧ isQuote x = false
  noRails : ∀ quote, isQuote quote = true → ¬ '\'' :: ("rails".toList ++ [quote]) <:+: block
  gems : ∀ rest, "gem".toList ++ rest <:+ block → ∃ more, rest = ' ' :: '\'' :: more

/-- How a call begins: with a gap that holds a line break, or with the name of Rails. -/
theorem IsCall.exists_start {part : List Char} (h : IsCall part) : ∃ gap quote more,
    part = "gem".toList ++ (gap ++ quote :: more) ∧ gap.all Text.isBlank = true ∧
      isQuote quote = true ∧
      ('\n' ∈ gap ∨ ∃ closing, isQuote closing = true ∧ "rails".toList ++ [closing] <+: more) := by
  rcases h with ⟨call, rfl⟩ | ⟨gap, quote, rfl, hgap, hbreak, hquote⟩
  · refine ⟨call.gap, call.opening, "rails".toList ++ [call.closing] ++
      (',' :: (call.space ++ (call.opening' :: (call.version ++ [call.closing'])))), ?_,
      call.gap_blank, call.isQuote_opening, .inr ⟨call.closing, call.isQuote_closing, ?_⟩⟩
    · simp [RailsCall.text, RailsCall.front]
    · exact List.prefix_append _ _
  · exact ⟨gap, quote, [], rfl, hgap, hquote, .inl hbreak⟩

/-- No call begins in a harmless block. -/
theorem Harmless.not_begins {block more after part rest : List Char} (h : Harmless block)
    (hmore : more <:+ block) (hafter : StartsBreak after) (hpart : IsCall part) :
    more ++ after ≠ part ++ rest := by
  intro heq
  obtain ⟨gap, quote, tail, rfl, hgap, hquote, hstart⟩ := hpart.exists_start
  rw [List.append_assoc] at heq
  obtain ⟨inner, rfl⟩ := prefix_of_startsBreak (by decide) hafter heq.symm
  obtain ⟨name, rfl⟩ := h.gems inner hmore
  rw [List.append_assoc "gem".toList] at heq
  have hinner := List.append_cancel_left heq
  rw [List.append_assoc gap] at hinner
  obtain ⟨hline, -, hname⟩ := gap_of_space hgap hquote hinner.symm
  rcases hstart with hbreak | ⟨closing, hclosing, rails, rfl⟩
  · exact hline hbreak
  · change ("rails".toList ++ [closing] ++ rails) ++ rest = name ++ after at hname
    rw [List.append_assoc] at hname
    have hnoBreak : '\n' ∉ "rails".toList ++ [closing] := by
      simp [ne_of_holds hclosing (x := '\n') (by decide)]
    obtain ⟨more, rfl⟩ := prefix_of_startsBreak hnoBreak hafter hname
    refine h.noRails closing hclosing (List.IsInfix.trans ⟨"gem ".toList, more, ?_⟩ hmore.isInfix)
    simp

/-- No call reaches from a line before a harmless block into the block. -/
theorem Harmless.not_reaches {block part rest : List Char} (h : Harmless block) (lead after : List Char)
    (hpart : IsCall part) (heq : lead ++ '\n' :: (block ++ after) = part ++ rest) :
    part <+: lead ++ ['\n'] := by
  obtain ⟨gap, x, more, rfl, hgap, hx, hquote⟩ := h.solid
  have hsplit : (lead ++ ['\n']) ++ (gap ++ x :: more ++ after) = part ++ rest := by
    simpa using heq
  rcases List.append_eq_append_iff.mp hsplit with ⟨a, rfl, hrest⟩ | ⟨a, hlead, -⟩
  · cases a with
    | nil => simp
    | cons y a =>
      -- A call that goes on behind the line break has a quote where the block has none.
      obtain ⟨gap', quote, more', hbehind, hgap', hquote'⟩ :=
        hpart.breaksQuoted lead (y :: a) (by simp)
      rw [hbehind, List.append_assoc, List.append_assoc, List.cons_append, List.cons_append] at hrest
      obtain ⟨-, rfl, -⟩ := run_unique hgap hgap' hx (isBlank_eq_false_of_isQuote hquote') hrest
      rw [hquote] at hquote'
      cases hquote'
  · exact ⟨a, hlead.symm⟩

/-- A tidy text stays tidy if a harmless block is put between two of its lines. -/
theorem Tidy.insert {pin : Pin} {lead block after : List Char} (hlead : Tidy pin lead)
    (hafter : Tidy pin after) (hends : EndsBreak lead) (hstarts : StartsBreak after)
    (h : Harmless block) : Tidy pin (lead ++ (block ++ after)) := by
  have hcalls : ∀ part, IsCall part → part <:+: lead ++ (block ++ after) →
      part <:+: lead ∨ part <:+: after := by
    rintro part hpart ⟨first, rest, htext⟩
    have hhere : block ++ after ≠ part ++ rest := h.not_begins (List.suffix_refl _) hstarts hpart
    rw [List.append_assoc] at htext
    rcases List.append_eq_append_iff.mp htext.symm with ⟨a, rfl, hrest⟩ | ⟨a, rfl, hrest⟩
    · rcases List.append_eq_append_iff.mp hrest with ⟨b, rfl, hrest'⟩ | ⟨b, rfl, hrest'⟩
      · exact .inr ⟨b, rest, by simpa using hrest'.symm⟩
      · exact absurd hrest'.symm (h.not_begins (List.suffix_append _ _) hstarts hpart)
    · -- The call begins in front of the block.
      rcases hends with hnil | ⟨line, hline⟩
      · obtain ⟨rfl, rfl⟩ := List.append_eq_nil_iff.mp hnil
        exact absurd hrest.symm hhere
      · rcases List.eq_nil_or_concat a with rfl | ⟨a, x, rfl⟩
        · exact absurd hrest.symm hhere
        · obtain ⟨-, rfl⟩ : first ++ a = line ∧ x = '\n' := by
            rw [List.concat_eq_append, ← List.append_assoc] at hline
            simpa using List.append_inj' hline rfl
          have hstart := h.not_reaches a after hpart (by simpa using hrest.symm)
          exact .inl (hstart.isInfix.trans ⟨first, [], by simp⟩)
  refine ⟨fun call hcall => ?_, fun part hinfix hbroken => ?_⟩
  · rcases hcalls _ (.inl ⟨call, rfl⟩) hcall with hin | hin
    · exact hlead.pinned call hin
    · exact hafter.pinned call hin
  · rcases hcalls _ (.inr hbroken) hinfix with hin | hin
    · exact hlead.unbroken part hin hbroken
    · exact hafter.unbroken part hin hbroken

end RailsUpgrade.Gemfile
