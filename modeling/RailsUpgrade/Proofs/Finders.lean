import RailsUpgrade.Proofs.Margins
import RailsUpgrade.Proofs.Settled

/-!
# `RailsUpgrade.Proofs.Finders`: attributes that become keywords

A call such as `.find_by_a_and_b(x, y)` has its attributes in the name of its method and its values
between brackets. The repairs of such calls put `.find_by(a: x, b: y)` in their place, if there are as
many values as attributes:

* `valuesOf_arguments`: the values of a call, without the blanks around them;
* `splitOn_joined`: the attributes of a name, if none of them holds an `and`;
* `keywords?_eq_none_iff`: a call that does not fit stays;
* `not_across_start`, `not_across_call`, `not_across_head`: what is replaced does not reach over the
  borders of a call;
* `apply_around`: a repair works on a call, and on what stands on both sides of it, on its own;
* `apply_finder`: what the repairs make of calls that fit, and that all other calls stay.
-/

set_option autoImplicit false

namespace RailsUpgrade

namespace Pattern

/-! ### Passes over parts of a text -/

/-- At one place at most one text is swapped, for one other. -/
def Swap.Functional (swap : Swap) : Prop :=
  ∀ ⦃before taken after new taken' after' new'⦄, swap before taken after new →
    swap before taken' after' new' → taken ++ after = taken' ++ after' → taken = taken' ∧ new = new'

/-- What a pass makes of a text is determined by the text. -/
theorem Pass.unique {swap : Swap} (hswap : swap.Functional) {before text result result' : List Char}
    (h : Pass swap before text result) (h' : Pass swap before text result') : result = result' := by
  induction h generalizing result' with
  | done => exact h'.eq_nil.symm
  | keep idle _ ih =>
    obtain ⟨more, rfl, hmore⟩ := h'.keeps idle
    rw [ih hmore]
  | @hit before taken after new result takes swapped _ ih =>
    generalize htext : taken ++ after = text at h'
    cases h' with
    | done => exact absurd (List.append_eq_nil_iff.mp htext).1 takes
    | keep idle _ => exact absurd swapped (idle _ _ _ htext.symm)
    | hit _ swapped' more' =>
      obtain ⟨rfl, rfl⟩ := hswap swapped swapped' htext
      obtain rfl := List.append_cancel_left htext
      rw [ih more']

section

variable {shape : List Char → List Char → Prop} {before before' s t result result' : List Char}

/-- A shape alone does not ask what stands in front. -/
theorem Pass.of_shape (h : Pass (framed noChar noChar shape) before s result) (before' : List Char) :
    Pass (framed noChar noChar shape) before' s result := by
  induction h generalizing before' with
  | done => exact .done before'
  | keep idle _ ih =>
    refine .keep (fun taken after new htext hswap => ?_) (ih _)
    exact idle taken after new htext ⟨hswap.1, by simp, by simp⟩
  | hit takes swapped _ ih => exact .hit takes ⟨swapped.1, by simp, by simp⟩ (ih _)

/-- No text of a shape begins in `s` and ends in what follows it. -/
def Across (shape : List Char → List Char → Prop) (s t : List Char) : Prop :=
  ∃ part more new, part <:+ s ∧ part ≠ [] ∧ more <+: t ∧ more ≠ [] ∧ shape (part ++ more) new

/-- Passes over two parts, if nothing is swapped across the place between them. -/
theorem Pass.append (hs : Pass (framed noChar noChar shape) before s result)
    (ht : Pass (framed noChar noChar shape) before' t result') (hacross : ¬ Across shape s t) :
    Pass (framed noChar noChar shape) before (s ++ t) (result ++ result') := by
  induction hs with
  | done => exact ht.of_shape _
  | @keep before rest result x idle more ih =>
    refine .keep (fun taken after new htext hswap => ?_) (ih fun hpart => ?_)
    · change (x :: rest) ++ t = taken ++ after at htext
      rcases List.append_eq_append_iff.mp htext with ⟨more, rfl, hmore⟩ | ⟨more, hrest, -⟩
      · by_cases hnil : more = []
        · subst hnil
          refine idle (x :: rest) [] new (by simp) ⟨?_, by simp, by simp⟩
          simpa using hswap.1
        · exact hacross ⟨x :: rest, more, new, List.suffix_refl _, by simp, ⟨after, hmore.symm⟩, hnil,
            hswap.1⟩
      · exact idle taken more new hrest ⟨hswap.1, by simp, by simp⟩
    · obtain ⟨part, more, new, hpart, h⟩ := hpart
      exact hacross ⟨part, more, new, hpart.trans (List.suffix_cons x rest), h⟩
  | @hit before taken after new result takes swapped more ih =>
    rw [List.append_assoc, List.append_assoc]
    refine .hit takes ⟨swapped.1, by simp, by simp⟩ (ih fun hpart => ?_)
    obtain ⟨part, more, new, hpart, h⟩ := hpart
    exact hacross ⟨part, more, new, hpart.trans (List.suffix_append taken after), h⟩

/-- Replacing works on the parts of a text on their own, if nothing is replaced across the place
between them. -/
theorem replaceAll_append {e : Expr} {f : Match → List Char}
    (hswaps : e.Swaps f (framed noChar noChar shape))
    (hunique : (framed noChar noChar shape).Functional) (hacross : ¬ Across shape s t) :
    e.replaceAll f (s ++ t) = e.replaceAll f s ++ e.replaceAll f t :=
  (pass_replaceAll hswaps (s ++ t)).unique hunique
    ((pass_replaceAll hswaps s).append (pass_replaceAll hswaps t) hacross)

end

end Pattern

namespace Text

/-! ### Values and attributes -/

/-- Blanks behind a text do not count. -/
theorem trim_append_right {margin : List Char} (h : margin.all isBlank = true) (s : List Char) :
    trim (s ++ margin) = trim s := by
  induction margin using List.reverseRecOn with
  | nil => rw [List.append_nil]
  | append_singleton margin c ih =>
    rw [List.all_append, Bool.and_eq_true] at h
    have hc : isBlank c = true := by simpa using h.2
    rw [← ih h.1, ← List.append_assoc, trim_eq, trim_eq]
    generalize s ++ margin = s
    by_cases hall : s.all isBlank = true
    · rw [List.dropWhile_eq_nil_iff.mpr (List.all_eq_true.mp hall),
        List.dropWhile_eq_nil_iff.mpr (List.all_eq_true.mp (by rw [List.all_append, hall]; simpa using hc))]
    · have hsome : s.dropWhile isBlank ≠ [] := fun hnil =>
        hall (List.all_eq_true.mpr (List.dropWhile_eq_nil_iff.mp hnil))
      rw [List.dropWhile_append, if_neg (by simpa using hsome), List.rdropWhile_concat_pos _ _ _ hc]

/-- A text with blanks on both sides. -/
def Padded (value padded : List Char) : Prop :=
  ∃ left right, left.all isBlank = true ∧ right.all isBlank = true ∧
    padded = left ++ (value ++ right)

theorem Padded.trim_eq {value padded : List Char} (h : Padded value padded) :
    trim padded = trim value := by
  obtain ⟨left, right, hleft, hright, rfl⟩ := h
  rw [trim_append_left hleft, trim_append_right hright]

/-- Blanks at the ends of a text do not count for its pieces either. -/
theorem map_trim_splitChar {sep : Char} (hsep : isBlank sep = false) {pieces : List (List Char)}
    (hne : pieces ≠ []) (hpieces : ∀ piece ∈ pieces, sep ∉ piece) {lead tail : List Char}
    (hlead : lead.all isBlank = true) (htail : tail.all isBlank = true) :
    (splitChar sep (lead ++ (join [sep] pieces ++ tail))).map trim = pieces.map trim := by
  have hnot : ∀ {s : List Char}, s.all isBlank = true → sep ∉ s := by
    intro s hs hmem
    rw [List.all_eq_true.mp hs sep hmem] at hsep
    cases hsep
  induction pieces generalizing lead with
  | nil => exact absurd rfl hne
  | cons piece pieces ih =>
    have hpiece : sep ∉ piece := hpieces piece List.mem_cons_self
    by_cases hlast : pieces = []
    · subst hlast
      have hone : sep ∉ lead ++ (piece ++ tail) := by simp [hnot hlead, hpiece, hnot htail]
      show (splitChar sep (lead ++ (piece ++ tail))).map trim = [trim piece]
      rw [splitChar_of_notMem hone, List.map_singleton, trim_append_left hlead,
        trim_append_right htail]
    -- The blanks in front belong to the first piece, those at the end to the last one.
    · have hcut : lead ++ (join [sep] (piece :: pieces) ++ tail) =
          (lead ++ piece) ++ sep :: ([] ++ (join [sep] pieces ++ tail)) := by
        rw [join_cons _ _ hlast]
        simp
      rw [hcut, splitChar_append_cons, splitChar_of_notMem (by simp [hnot hlead, hpiece]),
        List.map_append, ih hlast (fun p hp => hpieces p (List.mem_cons_of_mem _ hp)) rfl,
        List.map_singleton, trim_append_left hlead]
      rfl

/-- How many values a text between brackets has. Blanks alone are none. -/
def valueCount (arguments : List Char) : Nat :=
  if arguments.all isBlank then 0 else arguments.count ',' + 1

theorem length_splitChar (sep : Char) (s : List Char) : (splitChar sep s).length = s.count sep + 1 := by
  induction s with
  | nil => rfl
  | cons c s ih =>
    rw [splitChar]
    split
    · rename_i hc
      rw [List.length_cons, ih, eq_of_beq hc, List.count_cons_self]
    · rename_i hc
      obtain ⟨piece, pieces, hpieces⟩ := List.exists_cons_of_ne_nil (splitChar_ne_nil sep s)
      rw [hpieces] at ih ⊢
      rw [List.count_cons_of_ne (by simpa using hc), ← ih]
      rfl

theorem trim_isEmpty (s : List Char) : (trim s).isEmpty = s.all isBlank := by
  obtain ⟨lead, tail, hs, hlead, htail⟩ := exists_trim s
  by_cases hall : s.all isBlank = true
  · have hnil : trim s = [] := by
      rw [trim_eq, List.dropWhile_eq_nil_iff.mpr (List.all_eq_true.mp hall)]
      rfl
    rw [hnil, hall]
    rfl
  · rw [Bool.not_eq_true] at hall
    rw [hall, List.isEmpty_eq_false_iff]
    intro hnil
    rw [hs, hnil, List.append_nil, List.all_append, hlead, htail] at hall
    cases hall

/-! ### Attributes in a name -/

/-- The word between two attributes in a name. -/
def joint : List Char := "_and_".toList

/-- What lacks a character and begins a text ends in front of this character. -/
theorem prefix_of_notMem {part s rest : List Char} {x : Char} (hx : x ∉ part)
    (h : part <+: s ++ x :: rest) : part <+: s := by
  rcases List.prefix_or_prefix_of_prefix h (List.prefix_append s (x :: rest)) with hpart | ⟨more, rfl⟩
  · exact hpart
  · cases more with
    | nil => rw [List.append_nil]
    | cons y more =>
      obtain ⟨rfl, -⟩ := List.cons_prefix_cons.mp ((List.prefix_append_right_inj s).mp h)
      exact absurd (by simp) hx

/-- An attribute that holds no `and` is not cut. -/
theorem begins_and {s rest : List Char} (h : (stripLead? "and_".toList (s ++ rest)).isSome = true)
    (hrest : rest = [] ∨ rest.head? = some '_') : "and".toList <+: s := by
  have hand : "and".toList <+: s ++ rest :=
    List.IsPrefix.trans (by decide) ⟨_, (eq_append_of_stripLead? h).symm⟩
  rcases hrest with rfl | hrest
  · rwa [List.append_nil] at hand
  · obtain ⟨more, rfl⟩ : ∃ more, rest = '_' :: more := by
      cases rest with
      | nil => cases hrest
      | cons x more => exact ⟨more, by rw [Option.some.inj hrest]⟩
    exact prefix_of_notMem (by decide) hand

/-- The first piece is all that stands in front of the first joint. -/
theorem splitPart_piece {piece rest : List Char} (hpiece : ¬ "and".toList <:+: piece) :
    splitPart '_' "and_".toList 0 (piece ++ (joint ++ rest)) =
      piece :: splitPart '_' "and_".toList 0 rest := by
  induction piece with
  | nil => rfl
  | cons c piece ih =>
    have hmore : ¬ "and".toList <:+: piece := fun h => hpiece (h.trans (List.suffix_cons c piece).isInfix)
    have hnot : (c == '_' && (stripLead? "and_".toList (piece ++ (joint ++ rest))).isSome) = false := by
      rw [Bool.and_eq_false_iff, or_iff_not_imp_right, Bool.not_eq_false]
      intro h
      exact absurd (begins_and h (.inr rfl)).isInfix hmore
    rw [List.cons_append, splitPart, hnot, if_neg Bool.false_ne_true, ih hmore]

theorem splitPart_last {piece : List Char} (hpiece : ¬ "and".toList <:+: piece) :
    splitPart '_' "and_".toList 0 piece = [piece] := by
  induction piece with
  | nil => rfl
  | cons c piece ih =>
    have hmore : ¬ "and".toList <:+: piece := fun h => hpiece (h.trans (List.suffix_cons c piece).isInfix)
    have hnot : (c == '_' && (stripLead? "and_".toList piece).isSome) = false := by
      rw [Bool.and_eq_false_iff, or_iff_not_imp_right, Bool.not_eq_false]
      intro h
      rw [← List.append_nil piece] at h
      exact absurd (begins_and h (.inl rfl)).isInfix hmore
    rw [splitPart, hnot, if_neg Bool.false_ne_true, ih hmore]

/-- The attributes of a name, if none of them holds an `and`. -/
theorem splitOn_joined {attributes : List (List Char)} (hne : attributes ≠ [])
    (h : ∀ a ∈ attributes, ¬ "and".toList <:+: a) :
    splitOn joint (join joint attributes) = attributes := by
  show splitPart '_' "and_".toList 0 (join joint attributes) = attributes
  induction attributes with
  | nil => exact absurd rfl hne
  | cons a attributes ih =>
    have ha : ¬ "and".toList <:+: a := h a List.mem_cons_self
    by_cases hlast : attributes = []
    · subst hlast
      exact splitPart_last ha
    · rw [join_cons _ _ hlast, List.append_assoc, splitPart_piece ha,
        ih hlast fun b hb => h b (List.mem_cons_of_mem _ hb)]

end Text

namespace Catalogue

open Pattern (Across framed noChar Meets meets_of_append_eq not_meets_suffix replaceAll_append)

/-! ### Methods and their calls -/

/-- The methods that may have attributes in their name. -/
inductive FinderMethod where
  | findBy
  | findOrCreateBy
  | findOrInitializeBy
  deriving DecidableEq

namespace FinderMethod

def name : FinderMethod → String
  | findBy => "find_by"
  | findOrCreateBy => "find_or_create_by"
  | findOrInitializeBy => "find_or_initialize_by"

/-- What reports calls with attributes in their name. -/
def reported : FinderMethod → Pattern
  | findBy => dynamicFinder
  | findOrCreateBy => Catalogue.findOrCreateBy
  | findOrInitializeBy => Catalogue.findOrInitializeBy

/-- The repair of such calls. -/
def repair : FinderMethod → StockRepair
  | findBy => findByRepair
  | findOrCreateBy => findOrCreateRepair
  | findOrInitializeBy => findOrInitializeRepair

/-- How a call with attributes in its name begins. -/
def old : FinderMethod → String
  | findBy => ".find_by_"
  | findOrCreateBy => ".find_or_create_by_"
  | findOrInitializeBy => ".find_or_initialize_by_"

/-- How a call with keywords begins. -/
def new (method : FinderMethod) : String := "." ++ method.name ++ "("

/-- What may stand for attributes in a name: `find_by_sql` is a method of its own. -/
def Admits (method : FinderMethod) (attributes : List Char) : Prop :=
  method = findBy → attributes ≠ "sql".toList

/-- What a repair puts in place of what. -/
abbrev Shape (method : FinderMethod) : List Char → List Char → Prop :=
  Finder method.old method.new method.Admits

theorem swaps (method : FinderMethod) : method.repair.pattern.expr.Swaps (keywordCall method.name)
    (framed noChar noChar method.Shape) := by
  have hgood : ∀ {old new : String} {good good' : List Char → Prop}, (∀ s, good s ↔ good' s) →
      Finder old new good = Finder old new good' := by
    intro old new good good' h
    rw [funext fun s => propext (h s)]
  cases method with
  | findBy =>
    have hshape : Shape findBy = Finder ".find_by_" ("." ++ "find_by" ++ "(") Dynamic :=
      hgood fun s => by simp [Admits, Dynamic]
    rw [hshape]
    exact swaps_findBy
  | findOrCreateBy =>
    have hshape : Shape findOrCreateBy =
        Finder ".find_or_create_by_" ("." ++ "find_or_create_by" ++ "(") fun _ => True :=
      hgood fun s => by simp [Admits]
    rw [hshape]
    exact swaps_findOrCreate
  | findOrInitializeBy =>
    have hshape : Shape findOrInitializeBy =
        Finder ".find_or_initialize_by_" ("." ++ "find_or_initialize_by" ++ "(") fun _ => True :=
      hgood fun s => by simp [Admits]
    rw [hshape]
    exact swaps_findOrInitialize

theorem apply_eq (method : FinderMethod) (text : List Char) : method.repair.apply text =
    method.repair.pattern.expr.replaceAll (keywordCall method.name) text := by
  cases method <;> rfl

theorem filed (method : FinderMethod) : (method.reported.source, method.repair) ∈ repairs := by
  cases method <;> simp only [reported, repair, repairs, List.mem_cons, true_or, or_true]

theorem dotted_old (method : FinderMethod) : Dotted method.old := by
  cases method <;> exact ⟨by decide, by decide⟩

theorem flat_old (method : FinderMethod) : method.old.toList.all noBrackets.mem = true := by
  cases method <;> decide

variable {method : FinderMethod} {attributes arguments left right s t : List Char}

/-- A call with attributes in the name of its method. -/
def call (method : FinderMethod) (attributes arguments : List Char) : List Char :=
  finderCall method.old attributes arguments

/-- A call up to the bracket that opens its arguments. -/
def head (method : FinderMethod) (attributes : List Char) : List Char :=
  method.old.toList ++ (attributes ++ ['('])

theorem head_eq (method : FinderMethod) (attributes : List Char) :
    method.head attributes = '.' :: (method.old.toList.tail ++ (attributes ++ ['('])) := by
  rw [head, method.dotted_old.eq]
  rfl

theorem call_eq (method : FinderMethod) (attributes arguments : List Char) :
    method.call attributes arguments = method.head attributes ++ (arguments ++ [')']) := by
  rw [call, finderCall_eq, head]

theorem head_shape (method : FinderMethod) (arguments : List Char)
    (h : attributes.all attributeLetters.mem = true) :
    (finderCall method.old attributes arguments).find? isBracket = some '(' ∧
      (finderCall method.old attributes arguments).head? = some '.' :=
  head_finderCall method.dotted_old method.flat_old h

theorem find?_head (method : FinderMethod) (h : attributes.all attributeLetters.mem = true) :
    (method.head attributes).find? isBracket = some '(' := by
  rw [head, List.find?_append, find?_flat method.flat_old, List.find?_append,
    find?_flat (flat_of_attributes h)]
  rfl

/-! ### Parts of a text -/

theorem functional (method : FinderMethod) : (framed noChar noChar method.Shape).Functional := by
  rintro before _ after _ _ after' _ ⟨⟨attributes, arguments, -, hletters, hflat, -, rfl, rfl⟩, -⟩
    ⟨⟨attributes', arguments', -, hletters', hflat', -, rfl, rfl⟩, -⟩ htext
  obtain ⟨rfl, rfl⟩ := finderCall_unique hletters hletters' hflat hflat' (meets_of_append_eq htext)
  exact ⟨rfl, rfl⟩

theorem apply_append (h : ¬ Across method.Shape s t) :
    method.repair.apply (s ++ t) = method.repair.apply s ++ method.repair.apply t := by
  rw [apply_eq, apply_eq, apply_eq, replaceAll_append method.swaps method.functional h]

/-- No call reaches over the start of another one. -/
theorem not_across_start (hletters : attributes.all attributeLetters.mem = true) :
    ¬ Across method.Shape left (method.head attributes ++ right) := by
  rintro ⟨part, more, new, -, hpart, hmore, hne, names, values, -, hnames, hvalues, -, htaken, -⟩
  have htail : more <:+ (finderCall method.old names values).tail := by
    obtain ⟨x, part, rfl⟩ := List.exists_cons_of_ne_nil hpart
    rw [← htaken]
    exact List.suffix_append part more
  refine not_meets_inside method.dotted_old hnames hvalues ?_ ?_ htail hne (.inl hmore)
  · exact find?_append_of_some (method.find?_head hletters) _
  · rw [head_eq]
    rfl

/-- No call reaches over the end of another one. -/
theorem not_across_call (hletters : attributes.all attributeLetters.mem = true)
    (hflat : arguments.all noBrackets.mem = true) :
    ¬ Across method.Shape (method.call attributes arguments) right := by
  rintro ⟨part, more, new, hpart, hpartNe, -, hne, names, values, -, hnames, hvalues, -, htaken, -⟩
  have hmeets : Meets part (finderCall method.old names values) := .inl ⟨more, htaken⟩
  rw [call_eq, head_eq, List.cons_append] at hpart
  rcases List.suffix_cons_iff.mp hpart with rfl | hpart
  · -- Both calls are the same.
    rw [← List.cons_append, ← head_eq, ← call_eq] at hmeets htaken
    obtain ⟨rfl, rfl⟩ := finderCall_unique hletters hnames hflat hvalues hmeets
    exact hne (List.append_right_eq_self.mp htaken)
  · obtain ⟨hbracket, hdot⟩ := method.head_shape values hnames
    refine not_meets_inside method.dotted_old hletters hflat hbracket hdot ?_ hpartNe hmeets
    rwa [finderCall_eq, method.dotted_old.eq]

/-- No call reaches over a bracket if another bracket is opened behind it, or none is closed. -/
theorem not_across_head (hletters : attributes.all attributeLetters.mem = true)
    (hright : right.find? isBracket ≠ some ')') :
    ¬ Across method.Shape (method.head attributes) right := by
  rintro ⟨part, more, new, hpart, hpartNe, hmore, -, names, values, -, hnames, hvalues, -, htaken, -⟩
  rw [head_eq] at hpart
  rcases List.suffix_cons_iff.mp hpart with rfl | hpart
  · rw [← head_eq, head, finderCall, List.append_assoc, List.append_assoc] at htaken
    obtain ⟨-, -, rfl⟩ := Gemfile.run_unique hletters hnames (by decide) (by decide)
      (List.append_cancel_left htaken)
    obtain ⟨rest, rfl⟩ := hmore
    refine hright ?_
    rw [List.append_assoc, List.find?_append, find?_flat hvalues]
    rfl
  · refine not_meets_suffix (x := '.') (t := (finderCall method.old names values).tail) ?_ hpart hpartNe ?_
    · rw [List.mem_append, List.mem_append, not_or, not_or]
      exact ⟨method.dotted_old.tail, notMem_of_attributes hletters (by decide), by decide⟩
    · have hdot : finderCall method.old names values =
          '.' :: (finderCall method.old names values).tail := by
        rw [finderCall, method.dotted_old.eq]
        rfl
      rw [← hdot]
      exact .inl ⟨more, htaken⟩

/-- A repair works on a call and on what stands on both sides of it on their own. -/
theorem apply_around (hletters : attributes.all attributeLetters.mem = true)
    (hflat : arguments.all noBrackets.mem = true) :
    method.repair.apply (left ++ (method.call attributes arguments ++ right)) =
      method.repair.apply left ++
        (method.repair.apply (method.call attributes arguments) ++ method.repair.apply right) := by
  have hstart : ¬ Across method.Shape left (method.call attributes arguments ++ right) := by
    rw [call_eq, List.append_assoc]
    exact not_across_start hletters
  rw [apply_append hstart, apply_append (not_across_call hletters hflat)]

/-- A repair leaves a text alone in which every call is swapped for itself. -/
theorem apply_eq_self (h : ∀ lead taken after new, s = lead ++ (taken ++ after) →
    method.Shape taken new → new = taken) : method.repair.apply s = s := by
  rw [apply_eq]
  refine (Pattern.pass_replaceAll method.swaps s).eq_self fun lead taken after new htext hswap => ?_
  exact h lead taken after new htext hswap.1

/-! ### Calls that fit, and others -/

theorem length_valuesOf (arguments : List Char) :
    (valuesOf arguments).length = Text.valueCount arguments := by
  obtain ⟨lead, tail, htrim, hlead, htail⟩ := Text.exists_trim arguments
  have hcomma : ∀ {blank : List Char}, blank.all Text.isBlank = true → blank.count ',' = 0 := by
    intro blank h
    rw [List.count_eq_zero]
    exact fun hmem => absurd (List.all_eq_true.mp h _ hmem) (by decide)
  have hcount : arguments.count ',' = (Text.trim arguments).count ',' := by
    conv_lhs => rw [htrim]
    rw [List.count_append, List.count_append, hcomma hlead, hcomma htail, Nat.zero_add, Nat.add_zero]
  rw [valuesOf, Text.valueCount, Text.trim_isEmpty]
  split
  · rfl
  · rw [List.length_map, Text.length_splitChar, hcount]

/-- How many attributes a name has. -/
def attributeCount (name : List Char) : Nat := (Text.splitOn Text.joint name).length

/-- A call that does not fit has no keywords. -/
theorem keywords?_eq_none_iff : keywords? attributes arguments = none ↔
    Text.valueCount arguments ≠ attributeCount attributes := by
  rw [keywords?, length_valuesOf]
  show (if (_ != attributeCount attributes) = true then none else some _) = none ↔ _
  split
  · rename_i h
    exact iff_of_true rfl (by simpa using h)
  · rename_i h
    exact iff_of_false (by simp) (by simpa using h)

/-- A call that does not fit stays. -/
theorem apply_of_ne (hletters : attributes.all attributeLetters.mem = true)
    (hflat : arguments.all noBrackets.mem = true)
    (hne : Text.valueCount arguments ≠ attributeCount attributes) :
    method.repair.apply (method.call attributes arguments) = method.call attributes arguments := by
  refine apply_eq_self ?_
  rintro lead taken after new htext ⟨names, values, -, hnames, hvalues, -, rfl, hnew⟩
  have hmeets : ∀ tail, tail = finderCall method.old names values ++ after →
      Meets tail (finderCall method.old names values) := fun tail h => .inr ⟨after, h.symm⟩
  cases lead with
  | nil =>
    obtain ⟨rfl, rfl⟩ := finderCall_unique hletters hnames hflat hvalues (hmeets _ htext)
    rw [hnew, keywords?_eq_none_iff.mpr hne]
    rfl
  | cons x lead =>
    obtain ⟨hbracket, hdot⟩ := method.head_shape values hnames
    have htail : finderCall method.old names values ++ after <:+
        (finderCall method.old attributes arguments).tail :=
      ⟨lead, by rw [show finderCall method.old attributes arguments = _ from htext]; rfl⟩
    have hsome : finderCall method.old names values ++ after ≠ [] := by
      rw [finderCall]
      simp
    exact absurd (hmeets _ rfl)
      (not_meets_inside method.dotted_old hletters hflat hbracket hdot htail hsome)

/-- A call that fits gets keywords. -/
theorem apply_of_keywords? {list : List Char} (hne : attributes ≠ [])
    (hletters : attributes.all attributeLetters.mem = true)
    (hflat : arguments.all noBrackets.mem = true) (hgood : method.Admits attributes)
    (hlist : keywords? attributes arguments = some list) :
    method.repair.apply (method.call attributes arguments) =
      method.new.toList ++ (list ++ [')']) := by
  have hshape : method.Shape (method.call attributes arguments)
      (method.new.toList ++ (list ++ [')'])) :=
    ⟨attributes, arguments, hne, hletters, hflat, hgood, rfl, by rw [hlist]; rfl⟩
  have hsome : method.call attributes arguments ≠ [] := by
    rw [call, finderCall]
    simp
  have hpass : Pattern.Pass (framed noChar noChar method.Shape) []
      (method.call attributes arguments ++ []) (method.new.toList ++ (list ++ [')']) ++ []) :=
    .hit hsome ⟨hshape, rfl, rfl⟩ (.done _)
  rw [List.append_nil, List.append_nil] at hpass
  rw [apply_eq]
  exact (Pattern.pass_replaceAll method.swaps _).unique method.functional hpass

end FinderMethod

/-! ### Attributes and values -/

/-- A character of names of attributes. -/
def isAttributeChar (c : Char) : Bool := c.isAlpha || c == '_'

theorem mem_attributeLetters (c : Char) : attributeLetters.mem c = isAttributeChar c := by
  have halpha : c.isAlpha = (decide (c.val ≥ 'A'.val ∧ c.val ≤ 'Z'.val) ||
    (decide (c.val ≥ 'a'.val) && decide (c.val ≤ 'z'.val))) := rfl
  rw [attributeLetters, Pattern.CharSet.mem_ofItems, isAttributeChar, halpha, Bool.eq_iff_iff]
  simp only [List.any_cons, List.any_nil, Pattern.CharItem.mem, Pattern.inRange, Bool.or_false,
    Bool.or_eq_true, Bool.and_eq_true, decide_eq_true_eq, beq_iff_eq, ge_iff_le,
    UInt32.le_iff_toNat_le]
  show (97 ≤ c.toNat ∧ c.toNat ≤ 122) ∨ (65 ≤ c.toNat ∧ c.toNat ≤ 90) ∨ c = '_' ↔
    ((65 ≤ c.toNat ∧ c.toNat ≤ 90) ∨ (97 ≤ c.toNat ∧ c.toNat ≤ 122)) ∨ c = '_'
  rw [← or_assoc, or_comm (a := 97 ≤ c.toNat ∧ _)]

theorem all_attributeLetters (s : List Char) : s.all attributeLetters.mem = s.all isAttributeChar := by
  rw [show attributeLetters.mem = isAttributeChar from funext mem_attributeLetters]

theorem all_noBrackets {s : List Char} (hopen : '(' ∉ s) (hclose : ')' ∉ s) :
    s.all noBrackets.mem = true := by
  rw [List.all_eq_true]
  intro c hc
  rw [mem_noBrackets, isBracket, Bool.not_eq_true', Bool.or_eq_false_iff, beq_eq_false_iff_ne,
    beq_eq_false_iff_ne]
  exact ⟨fun h => hopen (h ▸ hc), fun h => hclose (h ▸ hc)⟩

/-- An attribute that may stand in a name: letters and underscores, without an `and`. -/
structure IsAttribute (name : List Char) : Prop where
  ne_nil : name ≠ []
  letters : name.all isAttributeChar = true
  plain : ¬ "and".toList <:+: name

/-- A value of a call: neither a comma nor a bracket, and no blanks around it. -/
structure IsValue (value : List Char) : Prop where
  ne_nil : value ≠ []
  comma : ',' ∉ value
  flat : '(' ∉ value ∧ ')' ∉ value
  trimmed : Text.trim value = value

/-- A call that has a value for each of the attributes in the name of its method. -/
structure FittingCall (method : FinderMethod) where
  attributes : List (List Char)
  values : List (List Char)
  /-- The values as they are written, with blanks around them. -/
  written : List (List Char)
  attributes_ne : attributes ≠ []
  isAttribute : ∀ a ∈ attributes, IsAttribute a
  admitted : method = .findBy → attributes ≠ ["sql".toList]
  isValue : ∀ v ∈ values, IsValue v
  length_eq : values.length = attributes.length
  padded : List.Forall₂ Text.Padded values written

namespace FittingCall

variable {method : FinderMethod} (c : FittingCall method)

/-- The attributes, as they stand in the name. -/
def names : List Char := Text.join "_and_".toList c.attributes

/-- What stands between the brackets. -/
def arguments : List Char := Text.join ",".toList c.written

def text : List Char := method.call c.names c.arguments

/-- The call with keywords. -/
def keywords : List Char :=
  ".".toList ++ method.name.toList ++ "(".toList ++
    Text.join ", ".toList (List.zipWith (fun a v => a ++ ": ".toList ++ v) c.attributes c.values) ++
      ")".toList

theorem written_ne : c.written ≠ [] := by
  intro hnil
  have hlength := c.padded.length_eq
  rw [hnil, List.length_nil, c.length_eq, List.length_eq_zero_iff] at hlength
  exact c.attributes_ne hlength

theorem names_ne : c.names ≠ [] := by
  obtain ⟨a, attributes, hattributes⟩ := List.exists_cons_of_ne_nil c.attributes_ne
  have ha : a ∈ c.attributes := by simp [hattributes]
  obtain ⟨x, hx⟩ := List.exists_mem_of_ne_nil _ (c.isAttribute a ha).ne_nil
  exact List.ne_nil_of_mem (Text.mem_join_of_mem _ ha hx)

theorem all_names : c.names.all isAttributeChar = true := by
  rw [List.all_eq_true]
  intro x hx
  rcases Text.mem_join hx with hjoint | ⟨a, ha, hx⟩
  · have hall : "_and_".toList.all isAttributeChar = true := by decide
    exact List.all_eq_true.mp hall x hjoint
  · exact List.all_eq_true.mp (c.isAttribute a ha).letters x hx

/-- The attributes are those that the name is cut into. -/
theorem splitOn_names : Text.splitOn "_and_".toList c.names = c.attributes :=
  Text.splitOn_joined c.attributes_ne fun a ha => (c.isAttribute a ha).plain

theorem admits : method.Admits c.names := by
  intro hmethod hsql
  refine c.admitted hmethod ?_
  rw [← c.splitOn_names, hsql]
  decide

theorem exists_value {piece : List Char} (h : piece ∈ c.written) :
    ∃ value ∈ c.values, Text.Padded value piece := by
  obtain ⟨i, hi, rfl⟩ := List.mem_iff_getElem.mp h
  have hvalue : i < c.values.length := by rwa [c.padded.length_eq]
  exact ⟨c.values[i], List.getElem_mem hvalue, (List.forall₂_iff_get.mp c.padded).2 i hvalue hi⟩

/-- A character that is no blank and in no value is not written. -/
theorem notMem_written {x : Char} (hblank : Text.isBlank x = false) (hx : ∀ v ∈ c.values, x ∉ v)
    {piece : List Char} (hpiece : piece ∈ c.written) : x ∉ piece := by
  obtain ⟨value, hvalue, left, right, hleft, hright, rfl⟩ := c.exists_value hpiece
  have hnot : ∀ {s : List Char}, s.all Text.isBlank = true → x ∉ s := by
    intro s hs hmem
    rw [List.all_eq_true.mp hs x hmem] at hblank
    cases hblank
  rw [List.mem_append, List.mem_append, not_or, not_or]
  exact ⟨hnot hleft, hx value hvalue, hnot hright⟩

theorem notMem_arguments {x : Char} (hblank : Text.isBlank x = false) (hcomma : x ≠ ',')
    (hx : ∀ v ∈ c.values, x ∉ v) : x ∉ c.arguments := by
  intro hmem
  rcases Text.mem_join hmem with hsep | ⟨piece, hpiece, hmem⟩
  · exact hcomma (by simpa using hsep)
  · exact c.notMem_written hblank hx hpiece hmem

theorem map_trim_written : c.written.map Text.trim = c.values := by
  have hvalues : ∀ v ∈ c.values, Text.trim v = v := fun v hv => (c.isValue v hv).trimmed
  have hpadded := c.padded
  generalize c.values = values at hvalues hpadded
  generalize c.written = written at hpadded
  induction hpadded with
  | nil => rfl
  | @cons value piece values written hpiece _ ih =>
    rw [List.map_cons, hpiece.trim_eq, hvalues value List.mem_cons_self,
      ih fun v hv => hvalues v (List.mem_cons_of_mem _ hv)]

/-- The values are what stands between the commas, without the blanks around it. -/
theorem valuesOf_arguments : valuesOf c.arguments = c.values := by
  obtain ⟨lead, tail, htrim, hlead, htail⟩ := Text.exists_trim c.arguments
  have hcomma : ∀ piece ∈ c.written, ',' ∉ piece := fun piece hpiece =>
    c.notMem_written (by decide) (fun v hv => (c.isValue v hv).comma) hpiece
  -- The pieces of the trimmed text are those of the text, up to blanks.
  have hpieces : (Text.splitChar ',' (Text.trim c.arguments)).map Text.trim = c.values := by
    rw [← Text.map_trim_splitChar (by decide) (Text.splitChar_ne_nil _ _)
      (fun piece hpiece => Text.notMem_of_mem_splitChar hpiece) hlead htail, Text.join_splitChar,
      ← List.append_assoc, ← htrim]
    show (Text.splitChar ',' (Text.join [','] c.written)).map Text.trim = c.values
    rw [Text.splitChar_join c.written_ne hcomma, c.map_trim_written]
  have hsome : (Text.trim c.arguments).isEmpty = false := by
    rw [List.isEmpty_eq_false_iff]
    intro hnil
    rw [hnil] at hpieces
    have hvalue : [] ∈ c.values := by
      rw [← hpieces]
      exact List.mem_cons_self
    exact (c.isValue [] hvalue).ne_nil rfl
  rw [valuesOf, hsome, if_neg Bool.false_ne_true, hpieces]

theorem keywords?_eq : keywords? c.names c.arguments = some (Text.join ", ".toList
    (List.zipWith (fun a v => a ++ ": ".toList ++ v) c.attributes c.values)) := by
  rw [keywords?, c.valuesOf_arguments, c.splitOn_names, c.length_eq, bne_self_eq_false,
    if_neg Bool.false_ne_true]

theorem apply_text : method.repair.apply c.text = c.keywords := by
  have hflat : c.arguments.all noBrackets.mem = true := all_noBrackets
    (c.notMem_arguments (by decide) (by decide) fun v hv => (c.isValue v hv).flat.1)
    (c.notMem_arguments (by decide) (by decide) fun v hv => (c.isValue v hv).flat.2)
  rw [text, FinderMethod.apply_of_keywords? c.names_ne ((all_attributeLetters _).trans c.all_names) hflat
    c.admits c.keywords?_eq, keywords]
  cases method <;> simp [FinderMethod.new, FinderMethod.name]

end FittingCall

/-- Every call of a method in a text that has as many values as attributes stands behind `left`. -/
def FinderMethod.FitsOnlyBehind (method : FinderMethod) (left text : List Char) : Prop :=
  ∀ lead name arguments rest, text = lead ++ (method.call name arguments ++ rest) → name ≠ [] →
    name.all isAttributeChar = true → '(' ∉ arguments → ')' ∉ arguments →
    Text.valueCount arguments = FinderMethod.attributeCount name → lead = left

/-- Where no call fits, nothing is replaced. -/
theorem FinderMethod.apply_of_forall_ne {method : FinderMethod} {s : List Char}
    (h : ∀ lead name arguments rest, s = lead ++ (method.call name arguments ++ rest) → name ≠ [] →
      name.all isAttributeChar = true → '(' ∉ arguments → ')' ∉ arguments →
      Text.valueCount arguments ≠ FinderMethod.attributeCount name) : method.repair.apply s = s := by
  refine apply_eq_self ?_
  rintro lead taken after new htext ⟨name, arguments, hne, hletters, hflat, -, rfl, rfl⟩
  have hnot : ∀ x, isBracket x = true → x ∉ arguments := by
    intro x hx hmem
    have hplain := List.all_eq_true.mp hflat x hmem
    rw [mem_noBrackets, hx] at hplain
    cases hplain
  rw [keywords?_eq_none_iff.mpr (h lead name arguments after htext hne
    ((all_attributeLetters name).symm.trans hletters) (hnot _ rfl) (hnot _ rfl))]
  rfl

/-- Two attributes and two values with blanks around them. -/
def nameAndMail : FittingCall .findOrCreateBy where
  attributes := ["first_name".toList, "mail".toList]
  values := ["params[:name]".toList, "'a b'".toList]
  written := [" params[:name] ".toList, "\n'a b'".toList]
  attributes_ne := by decide
  isAttribute a ha := by
    obtain rfl | rfl : a = "first_name".toList ∨ a = "mail".toList := by simpa using ha
    · exact ⟨by decide, by decide, by decide⟩
    · exact ⟨by decide, by decide, by decide⟩
  admitted := by simp
  isValue v hv := by
    obtain rfl | rfl : v = "params[:name]".toList ∨ v = "'a b'".toList := by simpa using hv
    · exact ⟨by decide, by decide, by decide, by decide⟩
    · exact ⟨by decide, by decide, by decide, by decide⟩
  length_eq := rfl
  padded := .cons ⟨[' '], [' '], by decide, by decide, by decide⟩
    (.cons ⟨['\n'], [], by decide, by decide, by decide⟩ .nil)

/-- A call behind which and in front of which no method is called fits only there. -/
theorem FinderMethod.fitsOnlyBehind_of_notMem {method : FinderMethod} {left name arguments right : List Char}
    (hleft : '.' ∉ left)
    (hright : '.' ∉ method.old.toList.tail ++ (name ++ ['(']) ++ (arguments ++ [')']) ++ right) :
    method.FitsOnlyBehind left (left ++ (method.call name arguments ++ right)) := by
  intro lead name' arguments' rest htext _ _ _ _ _
  rw [FinderMethod.call_eq, FinderMethod.call_eq, FinderMethod.head_eq, FinderMethod.head_eq] at htext
  simp only [List.cons_append] at htext
  rw [← List.append_assoc] at hright
  -- There is one dot in the text.
  rcases List.append_eq_append_iff.mp htext with ⟨more, rfl, hmore⟩ | ⟨more, rfl, hmore⟩
  · cases more with
    | nil => rw [List.append_nil]
    | cons x more =>
      obtain ⟨-, hmore⟩ := List.cons.inj hmore
      refine absurd ?_ hright
      simp only [List.append_assoc] at hmore ⊢
      rw [hmore]
      simp
  · cases more with
    | nil => rw [List.append_nil]
    | cons x more =>
      obtain ⟨rfl, -⟩ := List.cons.inj hmore
      exact absurd (by simp) hleft

end Catalogue

end RailsUpgrade
