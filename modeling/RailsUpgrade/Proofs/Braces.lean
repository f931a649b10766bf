import Mathlib.Data.List.Nodup
import RailsUpgrade.Path.Braces
import RailsUpgrade.Proofs.Ordered
import RailsUpgrade.Proofs.Path

/-!
# `RailsUpgrade.Proofs.Braces`: what a text with brace groups stands for

`Braces.Denotes` says what a text with balanced braces stands for, by the structure of the text: a
character stands for itself, a group for what its alternatives stand for, and parts one after the
other for what they stand for, one after the other. The commas of a group inside a group separate no
alternatives of the outer one.

Expanding works from the inside instead: it puts the options of a group without inner braces in its
place, while the groups around it are still texts.

* `closes_append`, `exists_closing`: every opening brace of a balanced text has its partner;
* `exists_alternatives`: a part without commas of its own belongs to one alternative;
* `denotes_iff_exists_option`: a text stands for what it stands for with one of the options in the
  place of an inner group;
* `expandWith_count`: as many steps as there are opening braces are enough;
* `expand_denotes`: expanding gives what a text stands for, each once, and leaves no inner group.
-/

set_option autoImplicit false

namespace RailsUpgrade.Braces

/-! ### Balanced braces -/

/-- How many groups are open behind a character, with `depth` groups open in front of it. -/
def depthAfter (depth : Nat) (c : Char) : Nat :=
  if c == '\x7b' then depth + 1 else if c == '\x7d' then depth - 1 else depth

/-- Whether a text closes `depth` open groups and those that it opens, and no other. -/
@[grind =] def closes : Nat → List Char → Bool
  | depth, [] => depth == 0
  | depth, c :: rest => !(c == '\x7d' && depth == 0) && closes (depthAfter depth c) rest

/-- Whether every brace of a text has its partner. -/
def isBalanced (s : List Char) : Bool := closes 0 s

/-- A text without braces. -/
def Braceless (s : List Char) : Prop := '\x7b' ∉ s ∧ '\x7d' ∉ s

/-- A group around a text. -/
def grouped (inner : List Char) : List Char := '\x7b' :: (inner ++ ['\x7d'])

variable {s t inner inner' left right rest rest' : List Char} {c : Char} {depth : Nat}

@[simp] theorem depthAfter_opening (depth : Nat) : depthAfter depth '\x7b' = depth + 1 := rfl

@[simp] theorem depthAfter_closing (depth : Nat) : depthAfter depth '\x7d' = depth - 1 := rfl

theorem depthAfter_of_ne (hc : c ≠ '\x7b' ∧ c ≠ '\x7d') (depth : Nat) :
    depthAfter depth c = depth := by
  simp [depthAfter, hc.1, hc.2]

/-- A character is an opening brace, a closing one, or no brace. -/
theorem brace_cases (c : Char) : c = '\x7b' ∨ c = '\x7d' ∨ c ≠ '\x7b' ∧ c ≠ '\x7d' := by
  by_cases hopen : c = '\x7b'
  · exact .inl hopen
  · by_cases hclose : c = '\x7d'
    · exact .inr (.inl hclose)
    · exact .inr (.inr ⟨hopen, hclose⟩)

theorem closes_opening : closes depth ('\x7b' :: rest) = closes (depth + 1) rest := by
  simp [closes]

theorem closes_closing : closes (depth + 1) ('\x7d' :: rest) = closes depth rest := by
  simp [closes]

theorem closes_of_ne (hc : c ≠ '\x7b' ∧ c ≠ '\x7d') : closes depth (c :: rest) = closes depth rest := by
  simp [closes, hc.2, depthAfter_of_ne hc]

/-- A closing brace without a group is not balanced. -/
theorem not_closes_zero : closes 0 ('\x7d' :: rest) = false := by
  simp [closes]

/-- Of two texts one after the other the first closes some groups and the second those left. -/
theorem closes_append (h : closes depth s = true) (more : Nat) (t : List Char) :
    closes (depth + more) (s ++ t) = closes more t := by
  induction s generalizing depth with
  | nil =>
    obtain rfl : depth = 0 := by simpa [closes] using h
    rw [List.nil_append, Nat.zero_add]
  | cons c s ih =>
    rw [List.cons_append]
    obtain rfl | rfl | hc := brace_cases c
    · rw [closes_opening] at h ⊢
      rw [← ih h, Nat.add_right_comm]
    · cases depth with
      | zero => simp [not_closes_zero] at h
      | succ depth =>
        rw [closes_closing] at h
        rw [Nat.add_right_comm, closes_closing, ih h]
    · rw [closes_of_ne hc] at h ⊢
      exact ih h

/-- A balanced text in front closes no group. -/
theorem closes_balanced_append (h : isBalanced s = true) (depth : Nat) (t : List Char) :
    closes depth (s ++ t) = closes depth t := by
  simpa using closes_append h depth t

/-- What closes more than `depth` groups has a part that closes all those above `depth` but one, up to
the brace that closes this one. -/
theorem exists_closing_above {above : Nat} (h : closes (above + depth + 1) s = true) :
    ∃ inner rest, s = inner ++ '\x7d' :: rest ∧ closes above inner = true ∧
      closes depth rest = true := by
  induction s generalizing above with
  | nil => simp [closes] at h
  | cons c s ih =>
    obtain rfl | rfl | hc := brace_cases c
    · rw [closes_opening, Nat.add_right_comm above] at h
      obtain ⟨inner, rest, rfl, hinner, hrest⟩ := ih h
      exact ⟨'\x7b' :: inner, rest, rfl, by rwa [closes_opening], hrest⟩
    · rw [closes_closing] at h
      cases above with
      | zero => exact ⟨[], s, rfl, rfl, by rwa [Nat.zero_add] at h⟩
      | succ above =>
        rw [Nat.add_right_comm above] at h
        obtain ⟨inner, rest, rfl, hinner, hrest⟩ := ih h
        exact ⟨'\x7d' :: inner, rest, rfl, by rwa [closes_closing], hrest⟩
    · rw [closes_of_ne hc] at h
      obtain ⟨inner, rest, rfl, hinner, hrest⟩ := ih h
      exact ⟨c :: inner, rest, rfl, by rwa [closes_of_ne hc], hrest⟩

/-- Behind an opening brace stands a balanced text up to its partner. -/
theorem exists_closing (h : isBalanced ('\x7b' :: s) = true) :
    ∃ inner rest, s = inner ++ '\x7d' :: rest ∧ isBalanced inner = true ∧ isBalanced rest = true := by
  rw [isBalanced, closes_opening] at h
  have habove : closes (0 + 0 + 1) s = true := h
  exact exists_closing_above habove

/-- A closing brace behind a balanced text is the partner of one in front of it. -/
theorem not_balanced_closing (h : isBalanced inner = true) :
    isBalanced (inner ++ '\x7d' :: rest) = false := by
  rw [isBalanced, closes_balanced_append h, not_closes_zero]

/-- The partner of an opening brace is told from the text behind it. -/
theorem closing_unique (h : isBalanced inner = true) (h' : isBalanced inner' = true)
    (heq : inner ++ '\x7d' :: rest = inner' ++ '\x7d' :: rest') : inner = inner' ∧ rest = rest' := by
  obtain ⟨part, rfl, hpart⟩ | ⟨part, rfl, hpart⟩ := List.append_eq_append_iff.mp heq
  · cases part with
    | nil => simpa using hpart
    | cons x part =>
      obtain ⟨rfl, -⟩ := List.cons_eq_cons.mp hpart
      rw [not_balanced_closing h] at h'
      cases h'
  · cases part with
    | nil => simpa using hpart.symm
    | cons x part =>
      obtain ⟨rfl, -⟩ := List.cons_eq_cons.mp hpart
      rw [not_balanced_closing h'] at h
      cases h

theorem Braceless.cons_iff : Braceless (c :: s) ↔ (c ≠ '\x7b' ∧ c ≠ '\x7d') ∧ Braceless s := by
  simp only [Braceless, List.mem_cons, not_or, ne_comm (a := c), ne_eq]
  tauto

/-- A text without braces closes no group. -/
theorem Braceless.closes_append (h : Braceless s) (depth : Nat) (t : List Char) :
    closes depth (s ++ t) = closes depth t := by
  induction s with
  | nil => rfl
  | cons c s ih =>
    obtain ⟨hc, hs⟩ := Braceless.cons_iff.mp h
    rw [List.cons_append, closes_of_ne hc, ih hs]

theorem Braceless.isBalanced (h : Braceless s) : isBalanced s = true := by
  rw [Braces.isBalanced, ← List.append_nil s, h.closes_append]
  rfl

theorem grouped_append (inner t : List Char) : grouped inner ++ t = '\x7b' :: (inner ++ '\x7d' :: t) := by
  simp [grouped]

/-- A group around a text without braces closes no other group. -/
theorem Braceless.closes_grouped (h : Braceless inner) (depth : Nat) (t : List Char) :
    closes depth (grouped inner ++ t) = closes depth t := by
  rw [grouped_append, closes_opening, h.closes_append, closes_closing]

/-- What closes as much may stand in place of each other. -/
theorem closes_congr (h : ∀ depth, closes depth s = closes depth t) (left : List Char) (depth : Nat) :
    closes depth (left ++ s) = closes depth (left ++ t) := by
  induction left generalizing depth with
  | nil => exact h depth
  | cons c left ih => rw [List.cons_append, List.cons_append, closes, closes, ih]

/-- A group that is not closed is not balanced. -/
theorem not_balanced_opening (h : Braceless inner) (depth : Nat) (left : List Char) :
    closes depth (left ++ '\x7b' :: inner) = false := by
  have hopen : ∀ depth, closes depth ('\x7b' :: inner) = false := by
    intro depth
    have hinner := h.closes_append (depth + 1) []
    rw [List.append_nil] at hinner
    rw [closes_opening, hinner]
    rfl
  induction left generalizing depth with
  | nil => exact hopen depth
  | cons c left ih => rw [List.cons_append, closes, ih, Bool.and_false]

/-- A group without inner braces lies in front of a brace that closes a balanced text, or behind
it. -/
theorem grouped_cases (h : isBalanced inner = true) (hgroup : Braceless s)
    (heq : inner ++ '\x7d' :: rest = left ++ (grouped s ++ right)) :
    (∃ part, inner = left ++ (grouped s ++ part) ∧ right = part ++ '\x7d' :: rest) ∨
      ∃ part, left = inner ++ '\x7d' :: part ∧ rest = part ++ (grouped s ++ right) := by
  -- The brace that closes stands in the text behind the group, or in front of it.
  obtain ⟨part, rfl, hpart⟩ | ⟨part, rfl, hpart⟩ := List.append_eq_append_iff.mp heq
  · right
    cases part with
    | nil =>
      rw [grouped_append] at hpart
      exact absurd (List.cons_eq_cons.mp hpart).1 (by decide)
    | cons x part =>
      obtain ⟨rfl, htail⟩ := List.cons_eq_cons.mp hpart
      exact ⟨part, rfl, htail⟩
  · left
    cases part with
    | nil =>
      rw [grouped_append] at hpart
      exact absurd (List.cons_eq_cons.mp hpart).1 (by decide)
    | cons x part =>
      rw [grouped_append] at hpart
      obtain ⟨rfl, htail⟩ := List.cons_eq_cons.mp hpart
      -- Within the group it would close the group too early.
      obtain ⟨more, rfl, hmore⟩ | ⟨more, rfl, hmore⟩ := List.append_eq_append_iff.mp htail
      · cases more with
        | nil =>
          rw [List.append_nil, isBalanced, not_balanced_opening hgroup] at h
          cases h
        | cons x more =>
          obtain ⟨rfl, hright⟩ := List.cons_eq_cons.mp hmore
          exact ⟨more, by simp [grouped], hright⟩
      · cases more with
        | nil =>
          rw [List.append_nil] at hgroup
          rw [isBalanced, not_balanced_opening hgroup] at h
          cases h
        | cons x more =>
          obtain ⟨rfl, -⟩ := List.cons_eq_cons.mp hmore
          exact absurd (by simp) hgroup.2

/-! ### Alternatives -/

/-- The pieces of a text between the commas in front of which no group is open. -/
@[grind =] def alternativesIn : Nat → List Char → List (List Char)
  | _, [] => [[]]
  | depth, c :: rest =>
    if c == ',' && depth == 0 then [] :: alternativesIn depth rest
    else (alternativesIn (depthAfter depth c) rest).modifyHead (c :: ·)

/-- The alternatives of a group, told from the text between its braces. Commas of groups inside do not
count. -/
def alternatives (inner : List Char) : List (List Char) := alternativesIn 0 inner

/-- The alternatives of a balanced text are balanced. -/
theorem closes_alternativesIn (h : closes depth s = true) :
    ∃ first more, alternativesIn depth s = first :: more ∧ closes depth first = true ∧
      ∀ piece ∈ more, isBalanced piece = true := by
  induction s generalizing depth with
  | nil => exact ⟨[], [], rfl, h, by simp⟩
  | cons c s ih =>
    rw [closes, Bool.and_eq_true] at h
    obtain ⟨first, more, hpieces, hfirst, hmore⟩ := ih h.2
    rw [alternativesIn]
    split
    · rename_i hcomma
      rw [Bool.and_eq_true, beq_iff_eq, beq_iff_eq] at hcomma
      obtain ⟨rfl, rfl⟩ := hcomma
      have hdepth : depthAfter 0 ',' = 0 := rfl
      rw [hdepth] at hpieces hfirst
      refine ⟨[], first :: more, by rw [hpieces], rfl, fun piece hpiece => ?_⟩
      obtain rfl | hpiece := List.mem_cons.mp hpiece
      · exact hfirst
      · exact hmore piece hpiece
    · exact ⟨c :: first, more, by rw [hpieces]; rfl, by rw [closes, h.1, hfirst]; rfl, hmore⟩

theorem isBalanced_of_mem_alternatives {choice : List Char} (h : isBalanced inner = true)
    (hchoice : choice ∈ alternatives inner) : isBalanced choice = true := by
  obtain ⟨first, more, hpieces, hfirst, hmore⟩ := closes_alternativesIn h
  rw [alternatives, hpieces] at hchoice
  obtain rfl | hchoice := List.mem_cons.mp hchoice
  · exact hfirst
  · exact hmore _ hchoice

theorem alternativesIn_ne_nil (depth : Nat) (s : List Char) : alternativesIn depth s ≠ [] := by
  induction s generalizing depth with
  | nil => simp [alternativesIn]
  | cons c s ih =>
    rw [alternativesIn]
    split
    · simp
    · simpa using ih _

theorem modifyHead_nil_append (pieces : List (List Char)) :
    pieces.modifyHead ([] ++ ·) = pieces := by
  cases pieces <;> rfl

/-- A part that belongs to one alternative as a whole. -/
def Uncut (part : List Char) : Prop :=
  ∀ depth rest, alternativesIn depth (part ++ rest) = (alternativesIn depth rest).modifyHead (part ++ ·)

theorem uncut_of_braceless (h : Braceless s) (hcomma : ',' ∉ s) : Uncut s := by
  intro depth rest
  induction s with
  | nil => rw [modifyHead_nil_append, List.nil_append]
  | cons c s ih =>
    obtain ⟨hc, hs⟩ := Braceless.cons_iff.mp h
    rw [List.mem_cons, not_or] at hcomma
    have hne : (c == ',') = false := by simpa using Ne.symm hcomma.1
    rw [List.cons_append, alternativesIn, hne, Bool.false_and, if_neg (by simp), depthAfter_of_ne hc,
      ih hs hcomma.2, List.modifyHead_modifyHead]
    rfl

/-- The commas of a group cut nothing around the group. -/
theorem uncut_grouped (h : Braceless inner) : Uncut (grouped inner) := by
  intro depth rest
  have hinner : ∀ rest, alternativesIn (depth + 1) (inner ++ rest) =
      (alternativesIn (depth + 1) rest).modifyHead (inner ++ ·) := by
    intro rest
    induction inner with
    | nil => rw [modifyHead_nil_append, List.nil_append]
    | cons c inner ih =>
      obtain ⟨hc, hinner⟩ := Braceless.cons_iff.mp h
      rw [List.cons_append, alternativesIn, if_neg (by simp), depthAfter_of_ne hc, ih hinner,
        List.modifyHead_modifyHead]
      rfl
  rw [grouped_append, alternativesIn, if_neg (by simp), depthAfter_opening, hinner, alternativesIn,
    if_neg (by simp), depthAfter_closing, Nat.add_sub_cancel, List.modifyHead_modifyHead,
    List.modifyHead_modifyHead]
  congr 1
  funext piece
  simp [grouped]

/-- A part that is not cut belongs to one alternative, and the others do not depend on it. -/
theorem exists_alternatives (left right : List Char) (depth : Nat) :
    ∃ before left' right' after, left'.length ≤ left.length ∧ ∀ part, Uncut part →
      alternativesIn depth (left ++ (part ++ right)) =
        before ++ (left' ++ (part ++ right')) :: after := by
  induction left generalizing depth with
  | nil =>
    obtain ⟨first, more, hpieces⟩ := List.exists_cons_of_ne_nil (alternativesIn_ne_nil depth right)
    refine ⟨[], [], first, more, le_rfl, fun part hpart => ?_⟩
    rw [List.nil_append, hpart, hpieces]
    rfl
  | cons c left ih =>
    obtain ⟨before, left', right', after, hle, hpieces⟩ := ih (depthAfter depth c)
    -- A comma outside of groups ends an alternative. Any other character belongs to the first one.
    by_cases hcomma : (c == ',' && depth == 0) = true
    · refine ⟨[] :: before, left', right', after, by simp; omega, fun part hpart => ?_⟩
      have hdepth : depthAfter depth c = depth := by
        rw [Bool.and_eq_true, beq_iff_eq] at hcomma
        rw [hcomma.1]
        rfl
      rw [List.cons_append, alternativesIn, if_pos hcomma, ← hdepth, hpieces part hpart]
      rfl
    · cases before with
      | nil =>
        refine ⟨[], c :: left', right', after, by simpa using hle, fun part hpart => ?_⟩
        rw [List.cons_append, alternativesIn, if_neg hcomma, hpieces part hpart]
        rfl
      | cons first before =>
        refine ⟨(c :: first) :: before, left', right', after, by simp; omega, fun part hpart => ?_⟩
        rw [List.cons_append, alternativesIn, if_neg hcomma, hpieces part hpart]
        rfl

/-! ### What a text stands for -/

/-- The texts that a text with balanced braces stands for. -/
inductive Denotes : List Char → List Char → Prop
  | nil : Denotes [] []
  /-- A character stands for itself. -/
  | plain {c : Char} {s t : List Char} (notBrace : c ≠ '\x7b' ∧ c ≠ '\x7d') (rest : Denotes s t) :
      Denotes (c :: s) (c :: t)
  /-- A group stands for what any of its alternatives stands for. -/
  | group {inner choice s t u : List Char} (balanced : isBalanced inner = true)
      (isChoice : choice ∈ alternatives inner) (chosen : Denotes choice t) (rest : Denotes s u) :
      Denotes ('\x7b' :: (inner ++ '\x7d' :: s)) (t ++ u)

theorem denotes_plain_iff (hc : c ≠ '\x7b' ∧ c ≠ '\x7d') :
    Denotes (c :: s) t ↔ ∃ u, t = c :: u ∧ Denotes s u := by
  constructor
  · intro h
    cases h with
    | plain _ rest => exact ⟨_, rfl, rest⟩
    | group => exact absurd rfl hc.1
  · rintro ⟨u, rfl, h⟩
    exact .plain hc h

theorem denotes_group_iff (h : isBalanced inner = true) :
    Denotes ('\x7b' :: (inner ++ '\x7d' :: s)) t ↔ ∃ choice ∈ alternatives inner, ∃ u v,
      Denotes choice u ∧ Denotes s v ∧ t = u ++ v := by
  constructor
  · intro hdenotes
    generalize htext : '\x7b' :: (inner ++ '\x7d' :: s) = text at hdenotes
    cases hdenotes with
    | nil => cases htext
    | plain notBrace => exact absurd (List.cons_eq_cons.mp htext).1.symm notBrace.1
    | group balanced isChoice chosen rest =>
      obtain ⟨rfl, rfl⟩ := closing_unique h balanced (List.cons_eq_cons.mp htext).2
      exact ⟨_, isChoice, _, _, chosen, rest, rfl⟩
  · rintro ⟨choice, hchoice, u, v, hu, hv, rfl⟩
    exact .group h hchoice hu hv

/-- A text without braces stands for itself. -/
theorem Braceless.denotes_append_iff (h : Braceless s) :
    Denotes (s ++ rest) t ↔ ∃ u, t = s ++ u ∧ Denotes rest u := by
  induction s generalizing t with
  | nil => simp
  | cons c s ih =>
    obtain ⟨hc, hs⟩ := Braceless.cons_iff.mp h
    rw [List.cons_append, denotes_plain_iff hc]
    simp only [ih hs]
    constructor
    · rintro ⟨_, rfl, u, rfl, hu⟩
      exact ⟨u, rfl, hu⟩
    · rintro ⟨u, rfl, hu⟩
      exact ⟨_, rfl, u, rfl, hu⟩

theorem Braceless.denotes_iff (h : Braceless s) : Denotes s t ↔ t = s := by
  have hdenotes : Denotes (s ++ []) t ↔ _ := h.denotes_append_iff
  rw [List.append_nil] at hdenotes
  rw [hdenotes]
  constructor
  · rintro ⟨u, rfl, hu⟩
    cases hu
    rw [List.append_nil]
  · rintro rfl
    exact ⟨[], (List.append_nil _).symm, .nil⟩

/-! ### One group after the other -/

theorem mem_of_mem_splitChar {sep : Char} {s piece : List Char} (hpiece : piece ∈ Text.splitChar sep s)
    (h : c ∈ piece) : c ∈ s := by
  fun_induction Text.splitChar sep s generalizing piece with
  | case1 =>
    rw [List.mem_singleton.mp hpiece] at h
    exact h
  | case2 x rest hx ih =>
    obtain rfl | hpiece := List.mem_cons.mp hpiece
    · cases h
    · exact .tail _ (ih hpiece h)
  | case3 x rest hx hnil ih => exact absurd hnil (Text.splitChar_ne_nil sep rest)
  | case4 x rest hx first pieces hpieces ih =>
    rw [hpieces] at ih
    obtain rfl | hpiece := List.mem_cons.mp hpiece
    · obtain rfl | h := List.mem_cons.mp h
      · exact .head _
      · exact .tail _ (ih (.head _) h)
    · exact .tail _ (ih (.tail _ hpiece) h)

/-- The options of a group without inner braces: no braces and no commas. -/
theorem braceless_of_option (h : Braceless inner) {option : List Char}
    (hoption : option ∈ Text.splitChar ',' inner) : Braceless option ∧ ',' ∉ option :=
  ⟨⟨fun hmem => h.1 (mem_of_mem_splitChar hoption hmem),
    fun hmem => h.2 (mem_of_mem_splitChar hoption hmem)⟩, Text.notMem_of_mem_splitChar hoption⟩

/-- The alternatives of a group without inner braces are its options. -/
theorem Braceless.alternatives_eq (h : Braceless inner) :
    alternatives inner = Text.splitChar ',' inner := by
  rw [alternatives]
  induction inner with
  | nil => rfl
  | cons c inner ih =>
    obtain ⟨hc, hinner⟩ := Braceless.cons_iff.mp h
    rw [alternativesIn, Text.splitChar, depthAfter_of_ne hc, ih hinner]
    by_cases hcomma : (c == ',') = true
    · simp [hcomma]
    · simp only [hcomma, Bool.false_and, Bool.false_eq_true, if_false]
      obtain ⟨first, more, hpieces⟩ := List.exists_cons_of_ne_nil (Text.splitChar_ne_nil ',' inner)
      rw [hpieces]
      rfl

/-- A balanced text is as balanced with any option in the place of an inner group. -/
theorem isBalanced_option (h : Braceless inner) {option : List Char}
    (hoption : option ∈ Text.splitChar ',' inner) (left right : List Char) :
    isBalanced (left ++ (option ++ right)) = isBalanced (left ++ (grouped inner ++ right)) :=
  closes_congr (fun depth => by
    rw [(braceless_of_option h hoption).1.closes_append, h.closes_grouped]) left 0

/-- If this holds of inner groups in the alternatives of a group, it holds of inner groups in the
group. -/
theorem exists_choice_iff (hinner : Braceless inner)
    (h : isBalanced (left ++ (grouped inner ++ right)) = true)
    (ih : ∀ left' right', left'.length ≤ left.length →
      isBalanced (left' ++ (grouped inner ++ right')) = true →
      (Denotes (left' ++ (grouped inner ++ right')) t ↔
        ∃ option ∈ Text.splitChar ',' inner, Denotes (left' ++ (option ++ right')) t)) :
    (∃ choice ∈ alternatives (left ++ (grouped inner ++ right)), Denotes choice t) ↔
      ∃ option ∈ Text.splitChar ',' inner,
        ∃ choice ∈ alternatives (left ++ (option ++ right)), Denotes choice t := by
  obtain ⟨before, left', right', after, hle, hpieces⟩ := exists_alternatives left right 0
  have hwhole := hpieces _ (uncut_grouped hinner)
  have hoptions : ∀ option ∈ Text.splitChar ',' inner, alternatives (left ++ (option ++ right)) =
      before ++ (left' ++ (option ++ right')) :: after := by
    intro option hoption
    obtain ⟨hplain, hcomma⟩ := braceless_of_option hinner hoption
    exact hpieces _ (uncut_of_braceless hplain hcomma)
  have hone := ih left' right' hle
    (isBalanced_of_mem_alternatives h (by rw [alternatives, hwhole]; simp))
  -- Choices without the group are the same for all options, so the first option serves for them.
  obtain ⟨first, hfirst⟩ := List.exists_mem_of_ne_nil _ (Text.splitChar_ne_nil ',' inner)
  rw [alternatives, hwhole]
  constructor
  · rintro ⟨choice, hchoice, ht⟩
    obtain hchoice | hchoice := List.mem_append.mp hchoice
    · exact ⟨first, hfirst, choice, by rw [hoptions _ hfirst]; simp [hchoice], ht⟩
    · obtain rfl | hchoice := List.mem_cons.mp hchoice
      · obtain ⟨option, hoption, ht⟩ := hone.mp ht
        exact ⟨option, hoption, _, by rw [hoptions _ hoption]; simp, ht⟩
      · exact ⟨first, hfirst, choice, by rw [hoptions _ hfirst]; simp [hchoice], ht⟩
  · rintro ⟨option, hoption, choice, hchoice, ht⟩
    rw [hoptions _ hoption] at hchoice
    obtain hchoice | hchoice := List.mem_append.mp hchoice
    · exact ⟨choice, by simp [hchoice], ht⟩
    · obtain rfl | hchoice := List.mem_cons.mp hchoice
      · exact ⟨_, by simp, hone.mpr ⟨option, hoption, ht⟩⟩
      · exact ⟨choice, by simp [hchoice], ht⟩

/-- A text stands for what it stands for with one of the options in the place of an inner group. -/
theorem denotes_iff_exists_option (hinner : Braceless inner)
    (h : isBalanced (left ++ (grouped inner ++ right)) = true) :
    Denotes (left ++ (grouped inner ++ right)) t ↔
      ∃ option ∈ Text.splitChar ',' inner, Denotes (left ++ (option ++ right)) t := by
  -- The groups around the inner one are opened from the left, one character at a time.
  induction hlength : left.length using Nat.strong_induction_on generalizing left right t with
  | _ length ih =>
  subst hlength
  cases left with
  | nil =>
    rw [List.nil_append, grouped_append, denotes_group_iff hinner.isBalanced, hinner.alternatives_eq]
    refine exists_congr fun option => and_congr_right fun hoption => ?_
    have hplain := (braceless_of_option hinner hoption).1
    rw [List.nil_append, hplain.denotes_append_iff]
    constructor
    · rintro ⟨u, v, hu, hv, rfl⟩
      exact ⟨v, by rw [hplain.denotes_iff.mp hu], hv⟩
    · rintro ⟨v, rfl, hv⟩
      exact ⟨option, v, hplain.denotes_iff.mpr rfl, hv, rfl⟩
  | cons c left =>
    simp only [List.cons_append] at h ⊢
    obtain rfl | rfl | hc := brace_cases c
    · obtain ⟨group, rest, htext, hgroup, hrest⟩ := exists_closing h
      obtain ⟨part, rfl, rfl⟩ | ⟨part, rfl, rfl⟩ := grouped_cases hgroup hinner htext.symm
      · -- The inner group lies in one alternative of the outer one.
        have houter : ∀ text, left ++ (text ++ (part ++ '\x7d' :: rest)) =
            (left ++ (text ++ part)) ++ '\x7d' :: rest := by simp
        have hchoice := fun u => exists_choice_iff hinner hgroup (t := u)
          fun left' right' hle hbalanced => ih left'.length (by simp; omega) hbalanced rfl
        simp only [houter]
        rw [denotes_group_iff hgroup]
        constructor
        · rintro ⟨choice, hmem, u, v, hu, hv, rfl⟩
          obtain ⟨option, hoption, other, hother, hu⟩ := (hchoice u).mp ⟨choice, hmem, hu⟩
          have hoptional := isBalanced_option hinner hoption left part
          exact ⟨option, hoption, .group (hoptional.trans hgroup) hother hu hv⟩
        · rintro ⟨option, hoption, ht⟩
          have hoptional := isBalanced_option hinner hoption left part
          obtain ⟨other, hother, u, v, hu, hv, rfl⟩ :=
            (denotes_group_iff (hoptional.trans hgroup)).mp ht
          obtain ⟨choice, hmem, hu⟩ := (hchoice u).mpr ⟨option, hoption, other, hother, hu⟩
          exact ⟨choice, hmem, u, v, hu, hv, rfl⟩
      · -- The inner group lies behind the outer one.
        have houter : ∀ text, (group ++ '\x7d' :: part) ++ (text ++ right) =
            group ++ '\x7d' :: (part ++ (text ++ right)) := by simp
        have hbehind := fun v => ih part.length (by simp; omega) (t := v) hrest rfl
        simp only [houter, denotes_group_iff hgroup]
        constructor
        · rintro ⟨choice, hmem, u, v, hu, hv, rfl⟩
          obtain ⟨option, hoption, hv⟩ := (hbehind v).mp hv
          exact ⟨option, hoption, choice, hmem, u, v, hu, hv, rfl⟩
        · rintro ⟨option, hoption, choice, hmem, u, v, hu, hv, rfl⟩
          exact ⟨choice, hmem, u, v, hu, (hbehind v).mpr ⟨option, hoption, hv⟩, rfl⟩
    · rw [isBalanced, not_closes_zero] at h
      cases h
    · rw [isBalanced, closes_of_ne hc] at h
      rw [denotes_plain_iff hc]
      simp only [denotes_plain_iff hc]
      have hrest := fun u => ih left.length (by simp) (t := u) h rfl
      constructor
      · rintro ⟨u, rfl, hu⟩
        obtain ⟨option, hoption, hu⟩ := (hrest u).mp hu
        exact ⟨option, hoption, u, rfl, hu⟩
      · rintro ⟨option, hoption, u, rfl, hu⟩
        exact ⟨u, rfl, (hrest u).mpr ⟨option, hoption, hu⟩⟩

/-! ### Expanding -/

theorem innerOf?_eq_some {inner right : List Char} (h : innerOf? s = some (inner, right)) :
    s = inner ++ '\x7d' :: right ∧ Braceless inner := by
  fun_induction innerOf? s generalizing inner with
  | case1 => cases h
  | case2 c rest hclose =>
    cases h
    exact ⟨by rw [eq_of_beq hclose]; rfl, by simp [Braceless]⟩
  | case3 => cases h
  | case4 c rest hclose hopen ih =>
    obtain ⟨⟨inner', right'⟩, hinner, heq⟩ := Option.map_eq_some_iff.mp h
    cases heq
    obtain ⟨rfl, hplain⟩ := ih hinner
    exact ⟨rfl, Braceless.cons_iff.mpr ⟨⟨by simpa using hopen, by simpa using hclose⟩, hplain⟩⟩

theorem innerOf?_append (h : Braceless inner) (right : List Char) :
    innerOf? (inner ++ '\x7d' :: right) = some (inner, right) := by
  induction inner with
  | nil => rfl
  | cons c inner ih =>
    obtain ⟨hc, hinner⟩ := Braceless.cons_iff.mp h
    simp [innerOf?, hc.1, hc.2, ih hinner]

/-- What is found is a group without inner braces. -/
theorem split?_eq_some {parts : Split} (h : split? s = some parts) :
    s = parts.left ++ (grouped parts.inner ++ parts.right) ∧ Braceless parts.inner := by
  fun_induction split? s generalizing parts with
  | case1 => cases h
  | case2 c rest inner right hfound =>
    cases h
    split at hfound
    · rename_i hopen
      obtain ⟨rfl, hplain⟩ := innerOf?_eq_some hfound
      exact ⟨by rw [eq_of_beq hopen, List.nil_append, grouped_append], hplain⟩
    · cases hfound
  | case3 c rest hnone ih =>
    obtain ⟨parts', hparts, rfl⟩ := Option.map_eq_some_iff.mp h
    obtain ⟨hrest, hplain⟩ := ih hparts
    exact ⟨by rw [hrest]; rfl, hplain⟩

/-- If nothing is found, there is no group without inner braces. -/
theorem split?_ne_none (h : Braceless inner) (left right : List Char) :
    split? (left ++ (grouped inner ++ right)) ≠ none := by
  induction left with
  | nil =>
    rw [List.nil_append, grouped_append, split?]
    simp [innerOf?_append h]
  | cons c left ih =>
    rw [List.cons_append, split?]
    split
    · simp
    · simpa using ih

/-- A balanced text without opening braces has no closing ones. -/
theorem braceless_of_balanced (h : isBalanced s = true) (hopen : '\x7b' ∉ s) : Braceless s := by
  refine ⟨hopen, fun hclose => ?_⟩
  obtain ⟨left, right, rfl, hleft⟩ := List.eq_append_cons_of_mem hclose
  have hplain : Braceless left := ⟨fun hmem => hopen (by simp [hmem]), hleft⟩
  rw [not_balanced_closing hplain.isBalanced] at h
  cases h

/-- If nothing is found in a balanced text, it has no braces: its last opening brace would open a group
without inner braces. -/
theorem braceless_of_split? (h : isBalanced s = true) (hnone : split? s = none) : Braceless s := by
  refine braceless_of_balanced h fun hopen => ?_
  obtain ⟨tail, front, hs, hlast⟩ := List.eq_append_cons_of_mem (List.mem_reverse.mpr hopen)
  obtain rfl : s = front.reverse ++ '\x7b' :: tail.reverse := by simpa using congrArg List.reverse hs
  have hclose : '\x7d' ∈ tail.reverse := by
    by_contra hclose
    rw [isBalanced, not_balanced_opening ⟨by simpa using hlast, hclose⟩] at h
    cases h
  obtain ⟨inner, right, htail, hinner⟩ := List.eq_append_cons_of_mem hclose
  have hplain : Braceless inner :=
    ⟨fun hmem => hlast (List.mem_reverse.mp (by simp [htail, hmem])), hinner⟩
  rw [htail, ← grouped_append] at hnone
  exact split?_ne_none hplain _ _ hnone

/-- A text with an option in the place of the group that was found. -/
def Split.with (parts : Split) (option : List Char) : List Char :=
  parts.left ++ (option ++ parts.right)

/-- Every step takes an opening brace away. -/
theorem count_with {parts : Split} (h : split? s = some parts) {option : List Char}
    (hoption : option ∈ Text.splitChar ',' parts.inner) :
    (parts.with option).count '\x7b' + 1 = s.count '\x7b' := by
  obtain ⟨hs, hplain⟩ := split?_eq_some h
  have hnone := List.count_eq_zero.mpr (braceless_of_option hplain hoption).1.1
  have hnone' := List.count_eq_zero.mpr hplain.1
  simp only [Split.with, hs, grouped_append, List.count_append, List.count_cons_self, hnone, hnone',
    List.count_cons_of_ne (show '\x7d' ≠ '\x7b' by decide)]
  omega

theorem expandWith_of_none (h : split? s = none) (fuel : Nat) : expandWith fuel s = [s] := by
  cases fuel with
  | zero => rfl
  | succ fuel => rw [expandWith, h]

theorem expandWith_of_some {parts : Split} (h : split? s = some parts) (fuel : Nat) :
    expandWith (fuel + 1) s = (Text.splitChar ',' parts.inner).foldl
      (fun seen option => addNew seen (expandWith fuel (parts.with option))) [] := by
  simp only [expandWith, h, Split.with, List.append_assoc]

/-- As many steps as there are opening braces are enough. -/
theorem expandWith_count {fuel : Nat} (h : s.count '\x7b' ≤ fuel) :
    expandWith fuel s = expandWith (s.count '\x7b') s := by
  induction fuel using Nat.strong_induction_on generalizing s with
  | _ fuel ih =>
  cases hsplit : split? s with
  | none => rw [expandWith_of_none hsplit, expandWith_of_none hsplit]
  | some parts =>
    obtain ⟨first, hfirst⟩ := List.exists_mem_of_ne_nil _ (Text.splitChar_ne_nil ',' parts.inner)
    have hcount := count_with hsplit hfirst
    obtain ⟨fuel, rfl⟩ := Nat.exists_eq_add_one.mpr (show 0 < fuel by omega)
    rw [← hcount, expandWith_of_some hsplit, expandWith_of_some hsplit]
    refine List.foldl_ext _ _ _ fun seen option hoption => ?_
    have hcount' := count_with hsplit hoption
    have hfuel := ih fuel (by omega) (s := parts.with option) (by omega)
    have hless := ih ((parts.with first).count '\x7b') (by omega) (s := parts.with option) (by omega)
    rw [hfuel, hless]

/-- The texts that a text is expanded to. -/
def expansions (s : List Char) : List (List Char) := expandWith (s.count '\x7b') s

theorem expand_eq (pattern : String) : expand pattern = (expansions pattern.toList).map String.ofList :=
  rfl

theorem expansions_of_none (h : split? s = none) : expansions s = [s] := expandWith_of_none h _

/-- A group that is found is replaced by its options, one after the other. -/
theorem expansions_of_some {parts : Split} (h : split? s = some parts) :
    expansions s = (Text.splitChar ',' parts.inner).foldl
      (fun seen option => addNew seen (expansions (parts.with option))) [] := by
  obtain ⟨first, hfirst⟩ := List.exists_mem_of_ne_nil _ (Text.splitChar_ne_nil ',' parts.inner)
  have hcount := count_with h hfirst
  rw [expansions, ← hcount, expandWith_of_some h]
  refine List.foldl_ext _ _ _ fun seen option hoption => ?_
  have hcount' := count_with h hoption
  rw [expandWith_count (by omega : (parts.with option).count '\x7b' ≤ _), expansions]

section
variable {α : Type} {f : α → List (List Char)} {seen : List (List Char)} {xs : List α}

theorem mem_foldl_addNew : t ∈ xs.foldl (fun seen x => addNew seen (f x)) seen ↔
    t ∈ seen ∨ ∃ x ∈ xs, t ∈ f x := by
  induction xs generalizing seen with
  | nil => simp
  | cons x xs ih => simp [ih, mem_addNew, or_assoc]

theorem nodup_foldl_addNew (h : seen.Nodup) :
    (xs.foldl (fun seen x => addNew seen (f x)) seen).Nodup := by
  induction xs generalizing seen with
  | nil => exact h
  | cons x xs ih => exact ih (nodup_addNew _ _ h)

end

theorem mem_expansions_of_some {parts : Split} (h : split? s = some parts) :
    t ∈ expansions s ↔ ∃ option ∈ Text.splitChar ',' parts.inner, t ∈ expansions (parts.with option) := by
  rw [expansions_of_some h, mem_foldl_addNew]
  simp

theorem nodup_expansions (s : List Char) : (expansions s).Nodup := by
  cases h : split? s with
  | none =>
    simp [expansions_of_none h]
  | some parts =>
    rw [expansions_of_some h]
    exact nodup_foldl_addNew List.nodup_nil

/-- What a step keeps holds of every expansion, as it holds of a text in which nothing is found. -/
theorem expansions_induction {motive : List Char → Prop}
    (last : ∀ s, split? s = none → motive s)
    (step : ∀ s parts, split? s = some parts →
      (∀ option ∈ Text.splitChar ',' parts.inner, motive (parts.with option)) → motive s)
    (s : List Char) : motive s := by
  induction hcount : s.count '\x7b' using Nat.strong_induction_on generalizing s with
  | _ count ih =>
  cases h : split? s with
  | none => exact last s h
  | some parts =>
    refine step s parts h fun option hoption => ?_
    have hless := count_with h hoption
    exact ih _ (by omega) _ rfl

/-- In what comes out nothing is found any more. -/
theorem split?_of_mem_expansions (ht : t ∈ expansions s) : split? t = none := by
  induction s using expansions_induction with
  | last s h =>
    rw [expansions_of_none h] at ht
    rwa [List.mem_singleton.mp ht]
  | step s parts h ih =>
    obtain ⟨option, hoption, ht⟩ := (mem_expansions_of_some h).mp ht
    exact ih option hoption ht

/-- A balanced text is expanded to what it stands for. -/
theorem mem_expansions_iff (hbalanced : isBalanced s = true) : t ∈ expansions s ↔ Denotes s t := by
  induction s using expansions_induction generalizing t with
  | last s h =>
    rw [expansions_of_none h, List.mem_singleton, (braceless_of_split? hbalanced h).denotes_iff]
  | step s parts h ih =>
    obtain ⟨hs, hplain⟩ := split?_eq_some h
    rw [mem_expansions_of_some h]
    rw [hs] at hbalanced ⊢
    rw [denotes_iff_exists_option hplain hbalanced]
    refine exists_congr fun option => and_congr_right fun hoption => ?_
    exact ih option hoption ((isBalanced_option hplain hoption _ _).trans hbalanced)

theorem map_ofList_addNew (seen more : List (List Char)) :
    (addNew seen more).map String.ofList =
      addNew (seen.map String.ofList) (more.map String.ofList) := by
  induction more generalizing seen with
  | nil => rfl
  | cons x more ih =>
    have hcontains : (seen.map String.ofList).contains (String.ofList x) = seen.contains x := by
      rw [Bool.eq_iff_iff, List.contains_iff_mem, List.contains_iff_mem, List.mem_map]
      constructor
      · rintro ⟨y, hy, heq⟩
        rwa [← String.ofList_injective heq]
      · exact fun hx => ⟨x, hx, rfl⟩
    rw [addNew_cons, ih, List.map_cons, addNew_cons, hcontains]
    split
    · rfl
    · rw [List.map_append, List.map_singleton]

/-- A text without a group is its only expansion. In any other one the first group without inner braces
is replaced by each of its options, and the results are expanded in turn. -/
theorem expand_step (pattern : String) : expand pattern = match split? pattern.toList with
    | none => [pattern]
    | some parts => (Text.splitChar ',' parts.inner).foldl
      (fun seen option => addNew seen (expand (String.ofList (parts.with option)))) [] := by
  rw [expand_eq]
  cases h : split? pattern.toList with
  | none => rw [expansions_of_none h, List.map_singleton, String.ofList_toList]
  | some parts =>
    rw [expansions_of_some h]
    refine (List.foldl_hom (List.map String.ofList) fun seen option => ?_).symm
    rw [map_ofList_addNew, expand_eq, String.toList_ofList]

/-- The expansions of a text, each once, are what the text stands for if its braces are balanced. No
text, balanced or not, has an expansion with a group without inner braces. -/
theorem expand_denotes (pattern : String) :
    (expand pattern).Nodup ∧
    (isBalanced pattern.toList = true →
      ∀ t, t ∈ expand pattern ↔ Denotes pattern.toList t.toList) ∧
    (∀ t ∈ expand pattern, ∀ left inner right, t.toList = left ++ (grouped inner ++ right) →
      ¬ Braceless inner) ∧
    expand pattern = match split? pattern.toList with
      | none => [pattern]
      | some parts => (Text.splitChar ',' parts.inner).foldl
        (fun seen option => addNew seen (expand (String.ofList (parts.with option)))) [] := by
  have hmem : ∀ t, t ∈ expand pattern ↔ t.toList ∈ expansions pattern.toList := by
    intro t
    rw [expand_eq, List.mem_map]
    constructor
    · rintro ⟨chars, hchars, rfl⟩
      rwa [String.toList_ofList]
    · exact fun ht => ⟨t.toList, ht, String.ofList_toList⟩
  refine ⟨?_, fun hbalanced t => ?_, fun t ht left inner right htext hplain => ?_,
    expand_step pattern⟩
  · rw [expand_eq]
    exact List.Nodup.map (fun _ _ h => String.ofList_injective h) (nodup_expansions _)
  · rw [hmem, mem_expansions_iff hbalanced]
  · have hnone := split?_of_mem_expansions ((hmem t).mp ht)
    rw [htext] at hnone
    exact split?_ne_none hplain _ _ hnone

/-- A group in a group, with an option that is empty. -/
example : expand "{a,x{b,}}.rb" = ["a.rb", "xb.rb", "x.rb"] := by decide

end RailsUpgrade.Braces
