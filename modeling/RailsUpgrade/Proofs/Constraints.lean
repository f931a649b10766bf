import RailsUpgrade.Proofs.Finders
import RailsUpgrade.Proofs.Malformed
import RailsUpgrade.Proofs.Raising

/-!
# `RailsUpgrade.Proofs.Constraints`: the laws of constraints

Versions are ordered by their three numbers, the most significant first, and a constraint compares by
this order. It may be written in two parts or as one text with two words; blanks around the version
count in neither form.

* `Comparison.count_holds`: of two versions the first comes before the second, or after it, or they
  are equal;
* `Constraint.answer_eq`: what a constraint answers is told from its two parts;
* `Text.padded_of_words`, `Text.words_eq_trim`: a text with one word is this word with blanks around it,
  and the other way round;
* `Constraint.answer_text`: both forms of a constraint give the same answer;
* `Constraint.answer_laws`: the laws of the six comparisons, and the condition for a text that is no
  version to meet none of them;
* `Constraint.answer_overlongTarget`: a target that meets none and ends the comparison.
-/

set_option autoImplicit false

namespace RailsUpgrade

/-! ### Comparisons -/

/-- Of two versions the first comes before the second, or after it, or they are equal. -/
theorem Comparison.count_holds (target wanted : Version) :
    [Comparison.below.holds target wanted, Comparison.equal.holds target wanted,
      Comparison.above.holds target wanted].count true = 1 := by
  have hbelow := Version.before_iff (a := target) (b := wanted)
  have habove := Version.before_iff (a := wanted) (b := target)
  have hequal : (target == wanted) = true ↔ target.key = wanted.key := by
    rw [beq_iff_eq, Version.key_inj]
  simp only [Comparison.holds]
  obtain h | h | h := lt_trichotomy target.key wanted.key
  · rw [hbelow.mpr h, Bool.eq_false_iff.mpr (hequal.not.mpr h.ne),
      Bool.eq_false_iff.mpr (habove.not.mpr h.asymm)]
    rfl
  · rw [hequal.mpr h, Bool.eq_false_iff.mpr (hbelow.not.mpr h.not_lt),
      Bool.eq_false_iff.mpr (habove.not.mpr h.not_gt)]
    rfl
  · rw [habove.mpr h, Bool.eq_false_iff.mpr (hequal.not.mpr h.ne'),
      Bool.eq_false_iff.mpr (hbelow.not.mpr h.asymm)]
    rfl

/-! ### Words -/

namespace Text

variable {s t word lead tail : List Char} {b : Char}

theorem words_cons_of_isBlank (hb : isBlank b = true) (s : List Char) : words (b :: s) = words s := by
  cases s with
  | nil => simp [words, hb]
  | cons c s => rw [words, if_pos hb]

theorem words_append_of_blank (h : lead.all isBlank = true) (s : List Char) :
    words (lead ++ s) = words s := by
  induction lead with
  | nil => rfl
  | cons b lead ih =>
    rw [List.all_cons, Bool.and_eq_true] at h
    rw [List.cons_append, words_cons_of_isBlank h.1, ih h.2]

/-- A word that a blank follows. -/
theorem words_word_append (hne : word ≠ []) (hword : ∀ c ∈ word, isBlank c = false)
    (hb : isBlank b = true) (s : List Char) : words (word ++ b :: s) = word :: words s := by
  induction word with
  | nil => exact absurd rfl hne
  | cons c word ih =>
    have hc := hword c (.head _)
    cases word with
    | nil =>
      rw [List.singleton_append, words, if_neg (by simp [hc]), if_pos hb, words_cons_of_isBlank hb]
    | cons d word =>
      have hd := hword d (.tail _ (.head _))
      have hrest := ih (by simp) fun x hx => hword x (.tail _ hx)
      rw [List.cons_append, List.cons_append, words, if_neg (by simp [hc]), if_neg (by simp [hd]),
        ← List.cons_append, hrest]

/-- A single word. -/
theorem words_word (hne : word ≠ []) (hword : ∀ c ∈ word, isBlank c = false) : words word = [word] := by
  induction word with
  | nil => exact absurd rfl hne
  | cons c word ih =>
    have hc := hword c (.head _)
    cases word with
    | nil => rw [words, if_neg (by simp [hc])]
    | cons d word =>
      have hd := hword d (.tail _ (.head _))
      rw [words, if_neg (by simp [hc]), if_neg (by simp [hd]),
        ih (by simp) fun x hx => hword x (.tail _ hx)]

/-- A text without words is blank. -/
theorem all_isBlank_of_words (h : words s = []) : s.all isBlank = true := by
  fun_induction words s with
  | case1 => rfl
  | case2 c hc => simpa using hc
  | case3 => cases h
  | case4 c d rest hc ih => rw [List.all_cons, hc, ih h, Bool.and_self]
  | case5 => cases h
  | case6 => cases h
  | case7 => cases h

/-- A text with a single word is this word, with blanks around it. -/
theorem padded_of_words (h : words s = [word]) :
    Padded word s ∧ word ≠ [] ∧ ∀ c ∈ word, isBlank c = false := by
  fun_induction words s generalizing word with
  | case1 => cases h
  | case2 => cases h
  | case3 c hc =>
    obtain rfl := List.singleton_inj.mp h
    exact ⟨⟨[], [], rfl, rfl, by simp⟩, by simp, by simpa using hc⟩
  | case4 c d rest hc ih =>
    obtain ⟨⟨lead, tail, hlead, htail, hrest⟩, hne, hword⟩ := ih h
    exact ⟨⟨c :: lead, tail, by rw [List.all_cons, hc, hlead]; rfl, htail, by rw [hrest]; rfl⟩, hne,
      hword⟩
  | case5 c d rest hc hd ih =>
    obtain ⟨rfl, hnone⟩ := List.cons_eq_cons.mp h
    exact ⟨⟨[], d :: rest, rfl, all_isBlank_of_words hnone, by simp⟩, by simp, by simpa using hc⟩
  | case6 c d rest hc hd hnone ih =>
    have hblank := all_isBlank_of_words hnone
    rw [List.all_cons, Bool.and_eq_true] at hblank
    exact absurd hblank.1 hd
  | case7 c d rest hc hd first more hwords ih =>
    obtain ⟨rfl, rfl⟩ := List.cons_eq_cons.mp h
    obtain ⟨⟨lead, tail, hlead, htail, hrest⟩, hne, hword⟩ := ih hwords
    -- No blank stands between the first character and the word.
    cases lead with
    | cons b lead =>
      obtain ⟨rfl, -⟩ := List.cons_eq_cons.mp hrest
      rw [List.all_cons, Bool.and_eq_true] at hlead
      exact absurd hlead.1 hd
    | nil =>
      refine ⟨⟨[], tail, rfl, htail, by rw [hrest]; rfl⟩, by simp, fun x hx => ?_⟩
      obtain rfl | hx := List.mem_cons.mp hx
      · simpa using hc
      · exact hword x hx

/-- A text with blanks at its ends only has one word. -/
theorem words_eq_trim (hne : trim s ≠ []) (hsolid : ∀ c ∈ trim s, isBlank c = false) :
    words s = [trim s] := by
  obtain ⟨lead, tail, hs, hlead, htail⟩ := exists_trim s
  nth_rewrite 1 [hs]
  rw [List.append_assoc, words_append_of_blank hlead]
  cases tail with
  | nil => rw [List.append_nil, words_word hne hsolid]
  | cons b tail =>
    rw [List.all_cons, Bool.and_eq_true] at htail
    have hnone : words tail = [] := by
      have hwords := words_append_of_blank htail.2 []
      rwa [List.append_nil] at hwords
    rw [words_word_append hne hsolid htail.1, hnone]

/-! ### Digits -/

theorem digitValue?_eq_none_of_isBlank (hb : isBlank b = true) : digitValue? b = none := by
  have hall : ∀ n ∈ blankCodes, digitValue? (Char.ofNat n) = none := by decide
  rw [← Char.ofNat_toNat b]
  exact hall _ (mem_blankCodes hb)

/-- A number is spelled in digits only. -/
theorem isSome_of_number? {digits : List Char} (h : (number? digits).isSome = true) :
    digits ≠ [] ∧ ∀ c ∈ digits, (digitValue? c).isSome = true := by
  have hall : ∀ (digits : List Char) (a : Nat),
      (digits.foldlM (fun n c => (digitValue? c).map (10 * n + ·)) a).isSome = true →
      ∀ c ∈ digits, (digitValue? c).isSome = true := by
    intro digits
    induction digits with
    | nil => simp
    | cons x digits ih =>
      intro a hsome c hc
      rw [List.foldlM_cons] at hsome
      cases hx : digitValue? x with
      | none => simp [hx] at hsome
      | some d =>
        rw [hx] at hsome
        obtain rfl | hc := List.mem_cons.mp hc
        · rw [hx]
          rfl
        · exact ih _ hsome c hc
  unfold number? at h
  split at h
  · cases h
  · rename_i hne
    exact ⟨by simpa using hne, hall digits 0 h⟩

end Text

/-! ### Texts of versions -/

namespace Version

/-- Blanks around a version do not count. -/
theorem parse_of_trim {text text' : String} (h : Text.trim text.toList = Text.trim text'.toList) :
    parse text = parse text' := by
  rw [parse, parse, fields, fields, h]

/-- A text that is read as dotted numbers is one word. -/
theorem solid_of_parse {text : String} (h : parse text ≠ .error .notDotted) :
    Text.trim text.toList ≠ [] ∧ ∀ c ∈ Text.trim text.toList, Text.isBlank c = false := by
  have hall : ∀ piece ∈ fields text, (Text.number? piece).isSome = true := by
    intro piece hpiece
    by_contra hnone
    have hmapM : (fields text).mapM Text.number? = none :=
      Glob.mapM_eq_none_iff.mpr ⟨piece, hpiece, Option.not_isSome_iff_eq_none.mp hnone⟩
    rw [parse, hmapM] at h
    exact h rfl
  constructor
  · intro hnil
    have hpiece := hall [] (by rw [fields, hnil]; exact .head _)
    cases hpiece
  · intro c hc
    by_contra hblank
    rw [Bool.not_eq_false] at hblank
    rw [← Text.join_splitChar '.' (Text.trim text.toList)] at hc
    obtain hdot | ⟨piece, hpiece, hmem⟩ := Text.mem_join hc
    · rw [List.mem_singleton.mp hdot] at hblank
      exact absurd hblank (by decide)
    · have hdigit := (Text.isSome_of_number? (hall piece hpiece)).2 c hmem
      rw [Text.digitValue?_eq_none_of_isBlank hblank] at hdigit
      cases hdigit

end Version

/-! ### What a constraint answers -/

namespace Constraint

/-- What a constraint answers for a target: whether the target meets it, or the number that is too long
to compare. -/
def answer (c : Constraint) (target : Option String) : Except Text.Overlong Bool :=
  match c.overlong? target with
  | some number => .error number
  | none => .ok (c.admits target)

/-- What a comparison answers for two texts that were read. A version that cannot be read decides before
the target does. -/
def compared (comparison : Comparison) (wanted target : Except Version.Fault Version) :
    Except Text.Overlong Bool :=
  match wanted with
  | .error (.overlong number) => .error number
  | .error .notDotted => .ok false
  | .ok wanted => match target with
    | .error (.overlong number) => .error number
    | .error .notDotted => .ok false
    | .ok target => .ok (comparison.holds target wanted)

/-- The answer is told from the two parts of a constraint. -/
theorem answer_eq (c : Constraint) (target : Option String) : c.answer target =
    match c.pair?, target with
    | some (comparison, wanted), some t =>
      compared comparison (Version.parse wanted) (Version.parse t)
    | _, _ => .ok false := by
  cases target with
  | none =>
    cases hpair : c.pair? <;> simp [answer, overlong?, admits]
  | some t =>
    cases hpair : c.pair? with
    | none => simp [answer, overlong?, overlongVersion?, admits, parse?, hpair]
    | some pair =>
      obtain ⟨comparison, wanted⟩ := pair
      cases hwanted : Version.parse wanted with
      | error fault =>
        cases fault <;> simp [answer, overlong?, overlongVersion?, admits, parse?, hpair,
          Version.overlong?, Version.parse?, hwanted, compared, Except.toOption]
      | ok v =>
        cases ht : Version.parse t with
        | error fault =>
          cases fault <;> simp [answer, overlong?, overlongVersion?, admits, parse?, hpair,
            Version.overlong?, Version.parse?, hwanted, ht, compared, Except.toOption]
        | ok v' =>
          simp [answer, overlong?, overlongVersion?, admits, parse?, hpair, Version.overlong?,
            Version.parse?, hwanted, ht, compared, Except.toOption]

/-- A constraint in two parts. -/
def ofParts (comparison : Comparison) (wanted : String) : Constraint :=
  .parts [comparison.text, wanted]

theorem answer_ofParts (comparison : Comparison) (wanted t : String) :
    (ofParts comparison wanted).answer (some t) =
      compared comparison (Version.parse wanted) (Version.parse t) := by
  have hpair : (ofParts comparison wanted).pair? = some (comparison, wanted) := by
    cases comparison <;> rfl
  rw [answer_eq, hpair]

/-- A constraint that is written as one text answers as the one in two parts. -/
theorem answer_text {operator : String} (hne : operator ≠ "")
    (hsolid : ∀ c ∈ operator.toList, Text.isBlank c = false) (wanted : String)
    (target : Option String) :
    (text (operator ++ " " ++ wanted)).answer target = (parts [operator, wanted]).answer target := by
  have hwords : Text.words (operator ++ " " ++ wanted).toList =
      operator.toList :: Text.words wanted.toList := by
    have htext : (operator ++ " " ++ wanted).toList = operator.toList ++ ' ' :: wanted.toList := by
      simp
    rw [htext, Text.words_word_append (by simpa using hne) hsolid (by decide)]
  have hparts : (parts [operator, wanted]).pair? = (Comparison.parse? operator).map (·, wanted) := rfl
  rw [answer_eq, answer_eq, hparts]
  by_cases hone : ∃ word, Text.words wanted.toList = [word]
  · -- The word is the version without the blanks around it.
    obtain ⟨word, hword⟩ := hone
    have htext : (text (operator ++ " " ++ wanted)).pair? =
        (Comparison.parse? operator).map (·, String.ofList word) := by
      rw [pair?, hwords, hword]
      simp
    obtain ⟨hpadded, -, hsolid⟩ := Text.padded_of_words hword
    have hparse : Version.parse (String.ofList word) = Version.parse wanted := by
      apply Version.parse_of_trim
      rw [hpadded.trim_eq, String.toList_ofList]
    rw [htext]
    cases Comparison.parse? operator with
    | none => rfl
    | some comparison => cases target <;> simp [hparse]
  · -- There is no version, and what stands in the second part is none either.
    have htext : (text (operator ++ " " ++ wanted)).pair? = none := by
      rw [pair?, hwords]
      split
      · rename_i hcons
        exact absurd ⟨_, (List.cons_eq_cons.mp hcons).2⟩ hone
      · rfl
    have hparse : Version.parse wanted = .error .notDotted := by
      by_contra hparse
      obtain ⟨hne, hsolid⟩ := Version.solid_of_parse hparse
      exact hone ⟨_, Text.words_eq_trim hne hsolid⟩
    rw [htext]
    cases Comparison.parse? operator with
    | none => rfl
    | some comparison => cases target <;> simp [hparse, compared]

/-- Which comparison is made does not matter where one of the texts cannot be read. -/
theorem compared_eq_false_iff {wanted target : Except Version.Fault Version}
    (h : target.toOption = none ∨ wanted.toOption = none) (comparison : Comparison) :
    compared comparison wanted target = .ok false ↔
      wanted = .error .notDotted ∨ ∃ v, wanted = .ok v ∧ target = .error .notDotted := by
  unfold compared
  cases wanted with
  | error fault => cases fault <;> simp
  | ok v =>
    cases target with
    | error fault => cases fault <;> simp
    | ok v' => simp [Except.toOption] at h

theorem atLeast_iff {a b : String} {v v' : Version} (ha : Version.parse? a = some v)
    (hb : Version.parse? b = some v') : Version.atLeast (some a) b = true ↔ v'.key ≤ v.key := by
  have hparse : (Constraint.parts [">=", b]).parse? = some (.atLeast, v') := by
    simp [parse?, pair?, Comparison.parse?, hb]
  unfold Version.atLeast admits
  simp only [hparse, ha]
  simp [Comparison.holds, Version.not_before_iff]

/-- The laws of constraints. For two texts that are versions exactly one of "before", "equal" and "after"
is answered, "at least" and "at most" are the negations of the first and the last, and "in the same
release line" also asks for a target before the next release line; no comparison is ended by a number.
"At least" is an order in which any two versions can be compared. If one of the texts is no version, it
meets none of the six comparisons, exactly if no number that is looked at is too long. The two forms of
a constraint answer alike. -/
theorem answer_laws (t w : String) :
    (∀ target wanted, Version.parse? t = some target → Version.parse? w = some wanted →
      ∃ holds : Comparison → Bool,
        (∀ c, (ofParts c w).answer (some t) = .ok (holds c)) ∧
        Version.atLeast (some t) w = holds .atLeast ∧
        [holds .below, holds .equal, holds .above].count true = 1 ∧
        holds .atLeast = !holds .below ∧ holds .atMost = !holds .above ∧
        holds .sameLine = (holds .atLeast && target.before ⟨wanted.major, wanted.minor + 1, 0⟩)) ∧
    (∀ u, (Version.parse? t).isSome → (Version.parse? w).isSome → (Version.parse? u).isSome →
      Version.atLeast (some t) t = true ∧
      (Version.atLeast (some t) w = true → Version.atLeast (some w) u = true →
        Version.atLeast (some t) u = true) ∧
      (Version.atLeast (some t) w = true ∨ Version.atLeast (some w) t = true)) ∧
    (Version.parse? t = none ∨ Version.parse? w = none →
      ((∀ c, (ofParts c w).answer (some t) = .ok false) ↔
        Version.overlong? w = none ∧
          ((Version.parse? w).isSome → Version.overlong? t = none))) ∧
    ∀ operator target, operator ≠ "" → (∀ c ∈ operator.toList, Text.isBlank c = false) →
      (text (operator ++ " " ++ w)).answer target = (parts [operator, w]).answer target := by
  refine ⟨fun target wanted ht hw => ?_, fun u ha hb hc => ?_, fun h => ?_,
    fun operator target hne hsolid => answer_text hne hsolid w target⟩
  -- What holds of the two versions, the comparisons tell.
  · have ht' := Run.eq_ok_of_toOption ht
    have hw' := Run.eq_ok_of_toOption hw
    refine ⟨fun c => c.holds target wanted, fun c => ?_, ?_, Comparison.count_holds target wanted,
      rfl, rfl, rfl⟩
    · rw [answer_ofParts, ht', hw']
      rfl
    · rw [Bool.eq_iff_iff, atLeast_iff ht hw]
      simp [Comparison.holds, Version.not_before_iff]
  -- Comparing by `atLeast` is comparing by a linear order.
  · obtain ⟨va, ha⟩ := Option.isSome_iff_exists.mp ha
    obtain ⟨vb, hb⟩ := Option.isSome_iff_exists.mp hb
    obtain ⟨vc, hc⟩ := Option.isSome_iff_exists.mp hc
    rw [atLeast_iff ha ha, atLeast_iff ha hb, atLeast_iff hb hc, atLeast_iff ha hc,
      atLeast_iff hb ha]
    exact ⟨le_rfl, fun hab hbc => hbc.trans hab, le_total _ _⟩
  -- One of the texts is no version. No comparison holds then, and none faults if no number is too long.
  · have : Nonempty Comparison := ⟨.equal⟩
    simp only [answer_ofParts, compared_eq_false_iff h, forall_const]
    unfold Version.overlong? Version.parse?
    cases hw : Version.parse w with
    | error fault => cases fault <;> simp [Except.toOption]
    | ok v =>
      cases ht : Version.parse t with
      | error fault => cases fault <;> simp [Except.toOption]
      | ok v' => simp [Version.parse?, ht, hw, Except.toOption] at h

/-- A target with too many digits is no version, and instead of meeting no constraint it ends the
comparison. -/
theorem answer_longRelease {digits : Nat} (h : Text.digitLimit < digits) :
    Version.parse? (Project.longRelease digits) = none ∧
      (ofParts .atLeast "6.0").answer (some (Project.longRelease digits)) = .error ⟨digits⟩ := by
  have hlong := Project.overlong?_longRelease h
  have hwanted : Version.parse "6.0" = .ok ⟨6, 0, 0⟩ := by decide
  unfold Version.overlong? at hlong
  rw [answer_ofParts, Version.parse?, hwanted]
  cases hparse : Version.parse (Project.longRelease digits) with
  | ok v => simp [hparse] at hlong
  | error fault =>
    cases fault with
    | notDotted => simp [hparse] at hlong
    | overlong number =>
      simp only [hparse, Option.some.injEq] at hlong
      subst hlong
      exact ⟨rfl, rfl⟩

/-- One digit too many is enough. -/
theorem answer_overlongTarget : Version.parse? (Project.longRelease 4301) = none ∧
    (ofParts .atLeast "6.0").answer (some (Project.longRelease 4301)) = .error ⟨4301⟩ :=
  answer_longRelease (by decide)

end Constraint

end RailsUpgrade
