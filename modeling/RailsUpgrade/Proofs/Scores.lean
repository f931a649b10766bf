import Mathlib.Tactic.Ring
import RailsUpgrade.Catalogue.Repairs
import RailsUpgrade.Proofs.Lines
import RailsUpgrade.Proofs.Path
import RailsUpgrade.Proofs.Reading

/-!
# `RailsUpgrade.Proofs.Scores`: texts that can only get better

Every character has a `worth`, and the `score` of a text is the worth of its characters. The worths
are chosen so that what the repairs of the library put into a text is worth more than what they take
out:

* `Keeps`, `Gains`, `Improves`: a text is replaced by one that is not worse, by a better one, or by a
  better one unless it stays;
* `improves_replaceAll`: a text whose matches are improved is improved;
* `improves_keywordCall`: a call with attributes in its name is improved by writing them as keywords.
-/

set_option autoImplicit false

namespace RailsUpgrade.Text

/-! ### Pieces of a text -/

/-- What trimming takes off are blanks. -/
theorem exists_trim (s : List Char) : ∃ lead tail, s = lead ++ trim s ++ tail ∧
    lead.all isBlank = true ∧ tail.all isBlank = true := by
  refine ⟨s.takeWhile isBlank, (s.dropWhile isBlank).rtakeWhile isBlank, ?_,
    List.all_takeWhile, ?_⟩
  · rw [List.append_assoc, trim_eq, List.rdropWhile_append_rtakeWhile,
      List.takeWhile_append_dropWhile]
  · rw [List.all_eq_true]
    exact fun x hx => List.mem_rtakeWhile_imp hx

theorem mem_of_mem_trim {c : Char} {s : List Char} (h : c ∈ trim s) : c ∈ s := by
  obtain ⟨lead, tail, hs, -, -⟩ := exists_trim s
  rw [hs]
  simp [h]

theorem splitPart_ne_nil (sep : Char) (more : List Char) (skip : Nat) (s : List Char) :
    splitPart sep more skip s ≠ [] := by
  fun_induction splitPart sep more skip s with
  | case1 => simp
  | case2 skip c rest ih => exact ih
  | case3 => simp
  | case4 => simp
  | case5 => simp

theorem join_cons (sep piece : List Char) {pieces : List (List Char)} (h : pieces ≠ []) :
    join sep (piece :: pieces) = piece ++ sep ++ join sep pieces := by
  obtain ⟨next, more, rfl⟩ := List.exists_cons_of_ne_nil h
  rfl

theorem join_append {lines more : List (List Char)} (hlines : lines ≠ []) (hmore : more ≠ []) :
    join ['\n'] (lines ++ more) = join ['\n'] lines ++ '\n' :: join ['\n'] more := by
  induction lines with
  | nil => exact absurd rfl hlines
  | cons l lines ih =>
    by_cases hlast : lines = []
    · subst hlast
      rw [List.singleton_append, join_cons _ _ hmore]
      simp [join]
    · rw [List.cons_append, join_cons _ _ (by simp [hlast]), join_cons _ _ hlast, ih hlast]
      simp

/-- What is left of a text that starts with a lead. -/
theorem eq_append_of_stripLead? {lead s : List Char} (h : (stripLead? lead s).isSome = true) :
    s = lead ++ s.drop lead.length := by
  fun_induction stripLead? lead s with
  | case1 s => rfl
  | case2 => simp at h
  | case3 x lead c s hx ih =>
    obtain rfl := eq_of_beq hx
    rw [List.length_cons, List.drop_succ_cons, List.cons_append, ← ih h]
  | case4 => simp at h

theorem stripLead?_append (lead s : List Char) : stripLead? lead (lead ++ s) = some s := by
  induction lead with
  | nil => rfl
  | cons x lead ih => simpa [stripLead?] using ih

theorem hasPart_iff {part text : List Char} : hasPart part text = true ↔ part <:+: text := by
  induction text with
  | nil => simp [hasPart]
  | cons c text ih =>
    rw [hasPart, Bool.or_eq_true, ih, List.infix_cons_iff]
    refine or_congr_left ⟨fun h => ?_, ?_⟩
    · exact ⟨_, (eq_append_of_stripLead? h).symm⟩
    · rintro ⟨rest, hrest⟩
      rw [← hrest, stripLead?_append]
      rfl

/-- The pieces of a text, with the separator between them, are the text. -/
theorem join_splitPart (sep : Char) (more : List Char) (skip : Nat) (s : List Char)
    (hskip : skip ≤ s.length) :
    join (sep :: more) (splitPart sep more skip s) = s.drop skip := by
  fun_induction splitPart sep more skip s with
  | case1 => simp [join]
  | case2 skip c rest ih => exact ih (Nat.le_of_succ_le_succ hskip)
  | case3 c rest hsep ih =>
    rw [Bool.and_eq_true] at hsep
    obtain rfl := eq_of_beq hsep.1
    have hrest := eq_append_of_stripLead? hsep.2
    have hle : more.length ≤ rest.length := by
      rw [hrest]
      simp
    rw [join_cons _ _ (splitPart_ne_nil _ _ _ _), ih hle, List.nil_append, List.cons_append,
      ← hrest, List.drop_zero]
  | case4 c rest hsep hnil ih => exact absurd hnil (splitPart_ne_nil _ _ _ _)
  | case5 c rest hsep piece pieces hpieces ih =>
    have hjoin := ih (Nat.zero_le _)
    rw [hpieces] at hjoin
    cases pieces with
    | nil => simpa [join] using hjoin
    | cons next pieces => simpa [join] using hjoin

theorem join_splitOn (sep s : List Char) : join sep (splitOn sep s) = s := by
  cases sep with
  | nil => rfl
  | cons c more => exact join_splitPart c more 0 s (Nat.zero_le _)

theorem splitOn_ne_nil (sep s : List Char) : splitOn sep s ≠ [] := by
  cases sep with
  | nil => simp [splitOn]
  | cons c more => exact splitPart_ne_nil c more 0 s

theorem join_splitChar (sep : Char) (s : List Char) : join [sep] (splitChar sep s) = s := by
  rw [join_eq_intercalate, splitChar_eq_splitOn, List.intercalate_splitOn]

/-- The characters of joined pieces. -/
theorem mem_join {c : Char} {sep : List Char} {pieces : List (List Char)}
    (h : c ∈ join sep pieces) : c ∈ sep ∨ ∃ piece ∈ pieces, c ∈ piece := by
  induction pieces with
  | nil => cases h
  | cons piece pieces ih =>
    by_cases hne : pieces = []
    · subst hne
      exact .inr ⟨piece, by simp, h⟩
    · rw [join_cons _ _ hne, List.mem_append, List.mem_append] at h
      obtain (h | h) | h := h
      · exact .inr ⟨piece, by simp, h⟩
      · exact .inl h
      · exact (ih h).imp_right fun ⟨piece', hpiece', hc⟩ => ⟨piece', by simp [hpiece'], hc⟩

theorem mem_join_of_mem {c : Char} (sep : List Char) {piece : List Char} {pieces : List (List Char)}
    (hpiece : piece ∈ pieces) (h : c ∈ piece) : c ∈ join sep pieces := by
  induction pieces with
  | nil => cases hpiece
  | cons first pieces ih =>
    by_cases hne : pieces = []
    · subst hne
      rwa [List.mem_singleton.mp hpiece] at h
    · rw [join_cons _ _ hne, List.mem_append]
      obtain rfl | hpiece := List.mem_cons.mp hpiece
      · exact .inl (by simp [h])
      · exact .inr (ih hpiece)

end RailsUpgrade.Text

namespace RailsUpgrade.Catalogue

open Pattern (Expr Match)

/-! ### Scores -/

/-- The characters that count in the score of a text, with their worths. -/
def worths : List (Char × Int) :=
  [('_', -1), ('U', -1), ('P', -1), ('=', -3), ('\'', 1), ('"', 1), ('o', 2), ('c', 3), ('l', 3),
   ('x', 13)]

/-- What a character adds to the score of a text. -/
def worth (c : Char) : Int := (worths.lookup c).getD 0

/-- The score of a text. -/
def score (s : List Char) : Int := (s.map worth).sum

@[simp] theorem score_nil : score [] = 0 := rfl

@[simp] theorem score_cons (c : Char) (s : List Char) : score (c :: s) = worth c + score s := rfl

@[simp] theorem score_append (s t : List Char) : score (s ++ t) = score s + score t := by
  rw [score, List.map_append, List.sum_append, score, score]

/-- Blanks are worth nothing. -/
theorem worth_of_isBlank {c : Char} (h : Text.isBlank c = true) : worth c = 0 := by
  have hsolid : ∀ entry ∈ worths, Text.isBlank entry.1 = false := by decide
  have hnone : worths.lookup c = none := by
    rw [List.lookup_eq_none_iff]
    intro entry hentry
    rw [bne_iff_ne]
    rintro rfl
    rw [hsolid entry hentry] at h
    cases h
  rw [worth, hnone, Option.getD_none]

theorem score_of_blank {s : List Char} (h : s.all Text.isBlank = true) : score s = 0 := by
  induction s with
  | nil => rfl
  | cons c s ih =>
    rw [List.all_cons, Bool.and_eq_true] at h
    rw [score_cons, worth_of_isBlank h.1, ih h.2, Int.zero_add]

/-- A text is replaced by one whose score is not lower, and without new carriage returns. -/
structure Keeps (old new : List Char) : Prop where
  plain : '\r' ∉ old → '\r' ∉ new
  score : score old ≤ score new

/-- A text is replaced by one of a higher score, and without new carriage returns. -/
structure Gains (old new : List Char) : Prop where
  plain : '\r' ∉ old → '\r' ∉ new
  score : score old < score new

theorem Keeps.refl (s : List Char) : Keeps s s := ⟨id, Int.le_refl _⟩

theorem Keeps.trans {s t u : List Char} (hst : Keeps s t) (htu : Keeps t u) : Keeps s u :=
  ⟨fun h => htu.plain (hst.plain h), Int.le_trans hst.score htu.score⟩

theorem Keeps.append {s s' t t' : List Char} (hs : Keeps s s') (ht : Keeps t t') :
    Keeps (s ++ t) (s' ++ t') where
  plain h := by
    rw [List.mem_append, not_or] at h ⊢
    exact ⟨hs.plain h.1, ht.plain h.2⟩
  score := by
    rw [score_append, score_append]
    exact Int.add_le_add hs.score ht.score

theorem Gains.append {s s' t t' : List Char} (hs : Gains s s') (ht : Keeps t t') :
    Gains (s ++ t) (s' ++ t') where
  plain := (Keeps.append ⟨hs.plain, Int.le_of_lt hs.score⟩ ht).plain
  score := by
    rw [score_append, score_append]
    exact Int.add_lt_add_of_lt_of_le hs.score ht.score

theorem Keeps.append_gains {s s' t t' : List Char} (hs : Keeps s s') (ht : Gains t t') :
    Gains (s ++ t) (s' ++ t') where
  plain := (Keeps.append hs ⟨ht.plain, Int.le_of_lt ht.score⟩).plain
  score := by
    rw [score_append, score_append]
    exact Int.add_lt_add_of_le_of_lt hs.score ht.score

/-- A text stays as it is, or it gains. -/
def Improves (old new : List Char) : Prop := new = old ∨ Gains old new

theorem Improves.keeps {old new : List Char} (h : Improves old new) : Keeps old new := by
  obtain rfl | h := h
  · exact .refl _
  · exact ⟨h.plain, Int.le_of_lt h.score⟩

theorem Improves.refl (s : List Char) : Improves s s := .inl rfl

theorem Improves.append {s s' t t' : List Char} (hs : Improves s s') (ht : Improves t t') :
    Improves (s ++ t) (s' ++ t') := by
  obtain rfl | hs := hs
  · obtain rfl | ht := ht
    · exact .inl rfl
    · exact .inr ((Keeps.refl _).append_gains ht)
  · exact .inr (hs.append ht.keeps)

/-- What replaces every match by something better improves the text. -/
theorem improves_replaceAll {e : Expr} {f : Match → List Char} {text : List Char}
    (h : ∀ m, e.Hit text m → Improves m.text (f m)) : Improves text (e.replaceAll f text) :=
  Pattern.replaceAll_rel Improves.refl (fun _ _ _ _ => .append) h

/-! ### Blanks and pieces -/

theorem score_trim (s : List Char) : score (Text.trim s) = score s := by
  obtain ⟨lead, tail, hs, hlead, htail⟩ := Text.exists_trim s
  have h := congrArg score hs
  rw [score_append, score_append, score_of_blank hlead, score_of_blank htail] at h
  omega

theorem keeps_trim (s : List Char) : Keeps s (Text.trim s) :=
  ⟨fun h hmem => h (Text.mem_of_mem_trim hmem), Int.le_of_eq (score_trim s).symm⟩

/-- Blanks may be replaced by anything that is worth nothing. -/
theorem keeps_blank {s new : List Char} (h : s.all Text.isBlank = true)
    (hnew : score new = 0 ∧ '\r' ∉ new) : Keeps s new :=
  ⟨fun _ => hnew.2, Int.le_of_eq (by rw [score_of_blank h, hnew.1])⟩

/-- The score of pieces with a separator between them. -/
theorem score_join (sep : List Char) {pieces : List (List Char)} (h : pieces ≠ []) :
    score (Text.join sep pieces) = (pieces.map score).sum + (pieces.length - 1) * score sep := by
  induction pieces with
  | nil => exact absurd rfl h
  | cons piece pieces ih =>
    cases pieces with
    | nil => simp [Text.join]
    | cons next more =>
      rw [Text.join_cons _ _ (by simp), score_append, score_append, ih (by simp)]
      simp only [List.map_cons, List.sum_cons, List.length_cons]
      push_cast
      ring

/-! ### Calls with keywords -/

/-- Attributes and values in pairs, as they are written in the call. -/
theorem sum_score_zipWith {attributes values : List (List Char)}
    (h : values.length = attributes.length) :
    ((List.zipWith (fun a v => a ++ ": ".toList ++ v) attributes values).map score).sum =
      (attributes.map score).sum + (values.map score).sum := by
  induction attributes generalizing values with
  | nil => simp [List.length_eq_zero_iff.mp h]
  | cons a attributes ih =>
    cases values with
    | nil => simp at h
    | cons v values =>
      have hcolon : score ": ".toList = 0 := by decide
      have hrest := ih (by simpa using h)
      simp only [List.zipWith_cons_cons, List.map_cons, List.sum_cons, score_append, hcolon, hrest]
      ring

/-- The values of a call are worth what its arguments are. -/
theorem sum_score_values (arguments : List Char) :
    (((Text.splitChar ',' arguments).map Text.trim).map score).sum = score arguments := by
  have hne : Text.splitChar ',' arguments ≠ [] := by
    rw [Text.splitChar_eq_splitOn]
    exact List.splitOn_ne_nil _ _
  have hcomma : score [','] = 0 := by decide
  nth_rewrite 2 [← Text.join_splitChar ',' arguments]
  rw [score_join _ hne, hcomma, Int.mul_zero, Int.add_zero, List.map_map]
  congr 1
  apply List.map_congr_left
  intro value _
  exact score_trim value

section KeywordCall

variable {attributes arguments : List Char} {values : List (List Char)}

/-- The attributes of a call lose the words between them, which are worth less than nothing. -/
theorem score_pairs (hlength : values.length = (Text.splitOn "_and_".toList attributes).length)
    (hvalues : (values.map score).sum = score arguments) :
    score attributes + score arguments ≤ score (Text.join ", ".toList
      (List.zipWith (fun a v => a ++ ": ".toList ++ v)
        (Text.splitOn "_and_".toList attributes) values)) := by
  have hsome := Text.splitOn_ne_nil "_and_".toList attributes
  have hcount : 1 ≤ (Text.splitOn "_and_".toList attributes).length :=
    List.length_pos_iff.mpr hsome
  have hpairs : List.zipWith (fun a v => a ++ ": ".toList ++ v)
      (Text.splitOn "_and_".toList attributes) values ≠ [] := by
    rw [← List.length_pos_iff, List.length_zipWith, hlength, Nat.min_self]
    exact hcount
  have hand : score "_and_".toList = -2 := by decide
  have hbetween : score ", ".toList = 0 := by decide
  have hattributes := score_join "_and_".toList hsome
  rw [Text.join_splitOn, hand] at hattributes
  rw [score_join ", ".toList hpairs, hbetween, sum_score_zipWith hlength, hvalues, hattributes]
  omega

/-- The pairs of a call hold no character, but for what is put between them, that neither its attributes
nor its values hold. -/
theorem notMem_pairs {c : Char} (hcomma : c ∉ ", ".toList) (hcolon : c ∉ ": ".toList)
    (hattributes : c ∉ attributes) (hvalues : ∀ value ∈ values, c ∉ value) :
    c ∉ Text.join ", ".toList (List.zipWith (fun a v => a ++ ": ".toList ++ v)
      (Text.splitOn "_and_".toList attributes) values) := by
  intro hmem
  obtain hsep | ⟨pair, hpair, hmem⟩ := Text.mem_join hmem
  · exact hcomma hsep
  · rw [← List.map_uncurry_zip_eq_zipWith] at hpair
    obtain ⟨⟨a, v⟩, hzip, rfl⟩ := List.mem_map.mp hpair
    obtain ⟨ha, hv⟩ := List.of_mem_zip hzip
    rw [Function.uncurry_apply_pair, List.mem_append, List.mem_append] at hmem
    obtain (hmem | hmem) | hmem := hmem
    · apply hattributes
      rw [← Text.join_splitOn "_and_".toList attributes]
      exact Text.mem_join_of_mem _ ha hmem
    · exact hcolon hmem
    · exact hvalues v hv hmem

/-- The values of a call hold no character that its arguments do not hold. -/
theorem notMem_values {c : Char} (h : c ∉ arguments) :
    ∀ value ∈ (Text.splitChar ',' (Text.trim arguments)).map Text.trim, c ∉ value := by
  intro value hvalue hmem
  obtain ⟨piece, hpiece, rfl⟩ := List.mem_map.mp hvalue
  apply h
  apply Text.mem_of_mem_trim
  rw [← Text.join_splitChar ',' (Text.trim arguments)]
  exact Text.mem_join_of_mem _ hpiece (Text.mem_of_mem_trim hmem)

/-- A call with attributes in its name gains when they become keywords, and it stays if its arguments
do not fit. -/
theorem improves_keywordCall {method : String} {m : Match} (hmethod : '\r' ∉ method.toList)
    (h₁ : m.group 1 = attributes) (h₂ : m.group 2 = arguments)
    (htext : m.text = ".".toList ++ method.toList ++ "_".toList ++ attributes ++ "(".toList ++
      arguments ++ ")".toList) :
    Improves m.text (keywordCall method m) := by
  unfold keywordCall
  simp only [h₁, h₂]
  generalize hvalues : (if (Text.trim arguments).isEmpty then []
    else (Text.splitChar ',' (Text.trim arguments)).map Text.trim) = values
  split
  · exact .refl _
  · rename_i hlength
    have hlength : values.length = (Text.splitOn "_and_".toList attributes).length := by
      simpa using hlength
    -- There is at least one attribute, so there is at least one value.
    have hfull : values = (Text.splitChar ',' (Text.trim arguments)).map Text.trim := by
      rw [← hvalues, if_neg]
      intro hempty
      rw [if_pos hempty] at hvalues
      rw [← hvalues, List.length_nil] at hlength
      exact Text.splitOn_ne_nil _ _ (List.length_eq_zero_iff.mp hlength.symm)
    right
    rw [htext]
    constructor
    · simp only [List.mem_append, not_or]
      rintro ⟨⟨⟨⟨⟨⟨-, -⟩, -⟩, hattributes⟩, -⟩, harguments⟩, -⟩
      have hpairs := notMem_pairs (by decide) (by decide) hattributes
        (hfull ▸ notMem_values harguments)
      exact ⟨⟨⟨⟨by decide, hmethod⟩, by decide⟩, hpairs⟩, by decide⟩
    · -- What is gained is the mark between the method and the attributes.
      have hsum : (values.map score).sum = score arguments := by
        rw [hfull, sum_score_values, score_trim]
      have hpairs := score_pairs hlength hsum
      have hscore : score ".".toList = 0 ∧ score "_".toList = -1 ∧ score "(".toList = 0 ∧
          score ")".toList = 0 := by decide
      simp only [score_append, hscore]
      omega

end KeywordCall

end RailsUpgrade.Catalogue
