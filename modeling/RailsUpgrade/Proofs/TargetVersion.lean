import Mathlib.Tactic.IntervalCases
import RailsUpgrade.Proofs.Constraints
import RailsUpgrade.Proofs.DecimalText
import RailsUpgrade.Proofs.Encoding
import RailsUpgrade.Proofs.SettingLines

/-!
# `RailsUpgrade.Proofs.TargetVersion`: versions that are written as numbers

A settings file may hold the target without quotes, as a number with a point. It is then a binary number
on its way to the settings, and a text again in them:

* `decimalLiteral?_decimal`, `floatValue_decimal`: the number is read as the nearest binary number;
* `read_targetLine`: so is the document of one line that holds it;
* `Version.minor_of_text`: where the text of a binary number is a version, its second number has no
  zero at its end;
* `asksFor_targetLine_iff`: what version the settings of such a file ask for;
* `target_kept_iff`: up to fifteen digits, the version loses the zeros at the end of its second number
  and nothing else.
-/

set_option autoImplicit false

namespace RailsUpgrade.Yaml

variable {c : Char} {s : List Char} {a b : Nat}

/-! ### Numbers with a point -/

/-- The characters of numbers. -/
def numberChars : List Char := "0123456789.".toList

theorem mem_numberChars_of_isDigit (h : c.isDigit = true) : c ∈ numberChars := by
  simp only [Char.isDigit, Bool.and_eq_true, decide_eq_true_eq] at h
  have hlow : 48 ≤ c.toNat := h.1
  have hhigh : c.toNat ≤ 57 := h.2
  have hall : ∀ n, 48 ≤ n → n ≤ 57 → Char.ofNat n ∈ numberChars := by
    intro n hlow hhigh
    interval_cases n <;> decide
  have hmem := hall c.toNat hlow hhigh
  rwa [Char.ofNat_toNat] at hmem

/-- How a number with a point is written. -/
def decimal (a b : Nat) : List Char := Nat.toDigits 10 a ++ '.' :: Nat.toDigits 10 b

theorem isDigit_of_mem_toDigits {n : Nat} (h : c ∈ Nat.toDigits 10 n) : c.isDigit = true :=
  Nat.isDigit_of_mem_toDigits (by decide) (by decide) h

theorem mem_numberChars (h : c ∈ decimal a b) : c ∈ numberChars := by
  obtain h | h := List.mem_append.mp h
  · exact mem_numberChars_of_isDigit (isDigit_of_mem_toDigits h)
  · obtain rfl | h := List.mem_cons.mp h
    · decide
    · exact mem_numberChars_of_isDigit (isDigit_of_mem_toDigits h)

/-- It starts with a digit. -/
theorem exists_decimal (a b : Nat) :
    ∃ d rest, decimal a b = d :: rest ∧ d.isDigit = true := by
  obtain ⟨d, rest, hdigits⟩ := List.exists_cons_of_ne_nil (Nat.toDigits_ne_nil (n := a) (b := 10))
  refine ⟨d, rest ++ '.' :: Nat.toDigits 10 b, by rw [decimal, hdigits]; rfl, ?_⟩
  exact isDigit_of_mem_toDigits (hdigits ▸ List.mem_cons_self)

theorem startsPlain_decimal (a b : Nat) : StartsPlain (decimal a b) := by
  obtain ⟨d, rest, hcons, hd⟩ := exists_decimal a b
  have hplain : ∀ c ∈ numberChars, isGap c = false ∧ c ≠ ':' ∧ c.toNat ≠ 0xFEFF :=
    List.forall_iff_forall_mem.mp (by decide)
  have hsign : ∀ c ∈ numberChars, c.isDigit = true → Scan.isSign c = false ∧ c ≠ '.' :=
    List.forall_iff_forall_mem.mp (by decide)
  refine ⟨by simp [hcons], fun c hc => ?_, fun c hc => ?_⟩
  · obtain ⟨hgap, hcolon, hmark⟩ := hplain c (mem_numberChars hc)
    exact ⟨hgap, hcolon, hmark⟩
  · rw [hcons] at hc
    obtain rfl := Option.some.inj hc
    exact hsign _ (mem_numberChars_of_isDigit hd) hd

theorem splitSign_decimal (a b : Nat) : splitSign (decimal a b) = (false, decimal a b) := by
  obtain ⟨d, rest, hcons, hd⟩ := exists_decimal a b
  have hsign : d ≠ '-' ∧ d ≠ '+' := by
    constructor <;> rintro rfl <;> exact absurd hd (by decide)
  rw [hcons]
  unfold splitSign
  split
  · rename_i heq
    exact absurd (List.cons.inj heq).1 hsign.1
  · rename_i heq
    exact absurd (List.cons.inj heq).1 hsign.2
  · rfl

theorem takeWhile_decimal (a b : Nat) : (decimal a b).takeWhile (· != '.') = Nat.toDigits 10 a := by
  have hdigits : ∀ c ∈ Nat.toDigits 10 a, (c != '.') = true := fun c hc => by
    have hdigit := isDigit_of_mem_toDigits hc
    rw [bne_iff_ne]
    rintro rfl
    exact absurd hdigit (by decide)
  rw [decimal, List.takeWhile_append_of_pos hdigits]
  simp

theorem isFloat_decimal (a b : Nat) : isFloat (decimal a b) = true := by
  have hunsigned : isUnsignedFloat (decimal a b) = true := by
    have hdrop : (decimal a b).drop (Nat.toDigits 10 a).length = '.' :: Nat.toDigits 10 b :=
      List.drop_left
    have hpart : (Nat.toDigits 10 b).takeWhile isDigitOrLine = Nat.toDigits 10 b := by
      rw [List.takeWhile_eq_self_iff]
      intro c hc
      simp [isDigitOrLine, isDigit_of_mem_toDigits hc]
    have hwhole : isWhole (Nat.toDigits 10 a) = true := by
      obtain ⟨d, rest, hdigits⟩ := List.exists_cons_of_ne_nil (Nat.toDigits_ne_nil (n := a) (b := 10))
      have hall : ∀ c ∈ d :: rest, c.isDigit = true := fun c hc =>
        isDigit_of_mem_toDigits (hdigits ▸ hc)
      rw [hdigits, isWhole, hall d List.mem_cons_self, Bool.true_and, List.all_eq_true]
      intro c hc
      simp [isDigitOrLine, hall c (List.mem_cons_of_mem d hc)]
    rw [isUnsignedFloat, takeWhile_decimal]
    simp only [hdrop, hpart, hwhole, List.drop_length, Bool.true_and]
    rfl
  rw [isFloat, splitSign_decimal]
  simp [hunsigned]

theorem dropLineEnd_decimal (a b : Nat) : dropLineEnd (decimal a b) = decimal a b := by
  rw [dropLineEnd, if_neg]
  intro hend
  have hlast := List.mem_of_getLast? (eq_of_beq hend)
  exact absurd (mem_numberChars hlast) (by decide)

/-- No word is a number. -/
theorem isWordOf_decimal (a b : Nat) :
    isWordOf ["yes", "no", "true", "false", "on", "off"] (decimal a b) = false := by
  obtain ⟨d, rest, hcons, hd⟩ := exists_decimal a b
  have hletters : ∀ w ∈ ["yes", "no", "true", "false", "on", "off"], ∀ t ∈ spellings w,
      t.head?.any Char.isDigit = false := by decide
  rw [isWordOf, List.any_eq_false]
  intro w hw hmem
  have hfalse := hletters w hw (decimal a b) (by simpa using hmem)
  rw [hcons, List.head?_cons, Option.any_some, hd] at hfalse
  exact Bool.false_ne_true hfalse.symm

theorem ofForm_decimal (a b : Nat) : Tag.ofForm (decimal a b) = .float := by
  obtain ⟨d, rest, hcons, -⟩ := exists_decimal a b
  have hne : (decimal a b).isEmpty = false := by rw [hcons]; rfl
  rw [Tag.ofForm, hne]
  simp only [Bool.false_eq_true, if_false, dropLineEnd_decimal, isWordOf_decimal, isFloat_decimal,
    if_true]

theorem digitsValue?_parts (a b : Nat) :
    digitsValue? (Nat.toDigits 10 a ++ Nat.toDigits 10 b) =
      some (a * 10 ^ Binary64.digitCount b + b) := by
  have hdigits : ∀ c ∈ Nat.toDigits 10 a ++ Nat.toDigits 10 b, c.isDigit = true := fun c hc => by
    obtain hc | hc := List.mem_append.mp hc <;> exact isDigit_of_mem_toDigits hc
  rw [digitsValue?, Text.foldlM_digits hdigits, Nat.ofDigitChars_append,
    Nat.ofDigitChars_eq_ofDigitChars_zero, Nat.ofDigitChars_ten_toDigits,
    Nat.ofDigitChars_ten_toDigits, Nat.mul_comm]
  rfl

/-- Its value is the nearest binary number. -/
theorem decimalLiteral?_decimal (a b : Nat) :
    decimalLiteral? false (decimal a b) = some (Binary64.ofParts a b) := by
  have hmantissa : (decimal a b).takeWhile (fun c => c != 'e' && c != 'E') = decimal a b := by
    have hall : ∀ c ∈ numberChars, (c != 'e' && c != 'E') = true :=
      List.forall_iff_forall_mem.mp (by decide)
    exact List.takeWhile_eq_self_iff.mpr fun c hc => hall c (mem_numberChars hc)
  have hpart : (decimal a b).drop ((Nat.toDigits 10 a).length + 1) = Nat.toDigits 10 b := by
    rw [decimal, ← List.drop_drop, List.drop_left]
    rfl
  have hne : ((Nat.toDigits 10 a).isEmpty && (Nat.toDigits 10 b).isEmpty) = false := by simp
  simp only [decimalLiteral?, hmantissa, takeWhile_decimal, hpart, hne, digitsValue?_parts,
    List.drop_length]
  simp [Binary64.ofParts, Binary64.digitCount]

theorem floatLiteral?_decimal (a b : Nat) :
    floatLiteral? (decimal a b) = some (Binary64.ofParts a b) := by
  have htrim : Text.trim (decimal a b) = decimal a b := by
    have hall : ∀ c ∈ numberChars, Text.isBlank c = false :=
      List.forall_iff_forall_mem.mp (by decide)
    exact Text.trim_eq_self fun c hc => hall c (mem_numberChars hc)
  have hwords : ∀ w ∈ ["inf", "infinity", "nan"],
      (String.ofList ((decimal a b).map Char.toLower) == w) = false := by
    obtain ⟨d, rest, hcons, hd⟩ := exists_decimal a b
    have hletters : ∀ w ∈ ["inf", "infinity", "nan"],
        numberChars.Forall fun d => some d.toLower ≠ w.toList.head? := by decide
    intro w hw
    rw [beq_eq_false_iff_ne]
    rintro rfl
    refine List.forall_iff_forall_mem.mp (hletters _ hw) d (mem_numberChars_of_isDigit hd) ?_
    rw [String.toList_ofList, hcons]
    rfl
  simp only [floatLiteral?, htrim, splitSign_decimal, hwords "inf" (by simp),
    hwords "infinity" (by simp), hwords "nan" (by simp), Bool.or_self, Bool.false_eq_true, if_false,
    decimalLiteral?_decimal]

theorem lowerAfter_decimal (a b : Nat) : Text.lowerAfter [] (decimal a b) = decimal a b := by
  have hsame : ∀ c ∈ numberChars, c.toNat ≠ 931 ∧ Text.lowered c = [c] :=
    List.forall_iff_forall_mem.mp (by decide)
  have hlower : ∀ (s before : List Char), (∀ c ∈ s, c ∈ numberChars) →
      Text.lowerAfter before s = s := by
    intro s
    induction s with
    | nil => exact fun _ _ => rfl
    | cons c s ih =>
      intro before hs
      obtain ⟨hsigma, hlowered⟩ := hsame c (hs c List.mem_cons_self)
      rw [Text.lowerAfter, if_neg (by simpa using hsigma), hlowered,
        ih _ fun x hx => hs x (List.mem_cons_of_mem c hx)]
      rfl
  exact hlower _ [] fun c hc => mem_numberChars hc

theorem floatValue_decimal (a b : Nat) :
    floatValue (decimal a b) = .ok (Binary64.ofParts a b) := by
  obtain ⟨d, rest, hcons, hd⟩ := exists_decimal a b
  -- The text has digits and one point, so that none of the special spellings applies.
  have hfilter : (decimal a b).filter (· != '_') = decimal a b := by
    have hall : ∀ c ∈ numberChars, (c != '_') = true :=
      List.forall_iff_forall_mem.mp (by decide)
    exact List.filter_eq_self.mpr fun c hc => hall c (mem_numberChars hc)
  have hunsigned : unsigned (decimal a b) = .ok (false, decimal a b) := by
    have hsign := splitSign_decimal a b
    rw [unsigned, hfilter]
    rw [hcons] at hsign ⊢
    simp only [hsign]
  have hcolon : (decimal a b).contains ':' = false := by
    rw [List.contains_eq_any_beq, List.any_eq_false]
    intro c hc
    have hall : ∀ c ∈ numberChars, ¬ (':' == c) = true :=
      List.forall_iff_forall_mem.mp (by decide)
    exact hall c (mem_numberChars hc)
  have hwords : ∀ w ∈ [".inf", ".nan"], (decimal a b == w.toList) = false := by
    have hpoints : ∀ w ∈ [".inf", ".nan"], w.toList.head?.any Char.isDigit = false := by decide
    intro w hw
    rw [beq_eq_false_iff_ne]
    intro heq
    have hfalse := hpoints w hw
    rw [← heq, hcons, List.head?_cons, Option.any_some, hd] at hfalse
    exact Bool.false_ne_true hfalse.symm
  have hfloat : float (decimal a b) = .ok (Binary64.ofParts a b) := by
    rw [float, floatLiteral?_decimal]
  simp only [floatValue, lowerAfter_decimal, hunsigned, hwords ".inf" (by simp),
    hwords ".nan" (by simp), hcolon, hfloat, Bool.false_eq_true, if_false, bind, Except.bind, pure,
    Except.pure]

end RailsUpgrade.Yaml

namespace RailsUpgrade.Settings

open Yaml

/-- A settings file with a version as a number with a point. -/
def targetLine (a b : Nat) : String :=
  "target_version: " ++ toString a ++ "." ++ toString b ++ "\n"

theorem toList_targetLine (a b : Nat) :
    (targetLine a b).toList = lineOf "target_version".toList (decimal a b) := by
  have hkey : "target_version: ".toList = "target_version".toList ++ [':', ' '] := by decide
  have hpoint : ".".toList = ['.'] := rfl
  have hbreak : "\n".toList = ['\n'] := rfl
  have htext : targetLine a b =
      "target_version: " ++ toString a ++ "." ++ toString b ++ "\n" := rfl
  rw [htext]
  simp only [String.toList_append, Text.toList_toString, hkey, hpoint, hbreak, lineOf,
    decimal, List.append_assoc, List.cons_append, List.nil_append]

/-- The file holds the version as a binary number. -/
theorem read_targetLine (a b : Nat) : Yaml.read (targetLine a b).toList =
    .ok (.map [(.text "target_version", .float (Binary64.ofParts a b))]) := by
  have hkey : StartsPlain "target_version".toList := by
    have hplain : ∀ c ∈ "target_version".toList, isGap c = false ∧ c ≠ ':' ∧ c.toNat ≠ 0xFEFF :=
      List.forall_iff_forall_mem.mp (by decide)
    refine ⟨by decide, fun c hc => ?_, fun c hc => ?_⟩
    · obtain ⟨hgap, hcolon, hmark⟩ := hplain c hc
      exact ⟨hgap, hcolon, hmark⟩
    · obtain rfl : c = 't' := Option.some.inj hc.symm
      decide
  have hallowed : ∀ c ∈ "target_version".toList ++ decimal a b, isForbidden c = false := by
    have hall : ∀ c ∈ "target_version".toList ++ numberChars, isForbidden c = false :=
      List.forall_iff_forall_mem.mp (by decide)
    intro c hc
    obtain hc | hc := List.mem_append.mp hc
    · exact hall c (List.mem_append_left _ hc)
    · exact hall c (List.mem_append_right _ (mem_numberChars hc))
  have htext : Tag.ofForm "target_version".toList = .text := by decide
  rw [toList_targetLine, read_line hkey (by decide) (startsPlain_decimal a b) hallowed htext
    (ofForm_decimal a b) (floatValue_decimal a b), String.ofList_toList]

end RailsUpgrade.Settings

namespace RailsUpgrade.Version

open Binary64 (placed withExponent)

variable {text : String} {v : Version} {A B digits : List Char} {point : Int}

/-! ### Texts of binary numbers as versions -/

/-- A version text holds blanks, dots and digits. -/
theorem chars_of_parse (h : parse text = .ok v) {c : Char} (hc : c ∈ Text.trim text.toList) :
    c = '.' ∨ (Text.digitValue? c).isSome = true := by
  rw [← Text.join_splitChar '.' (Text.trim text.toList)] at hc
  obtain hdot | ⟨piece, hpiece, hmem⟩ := Text.mem_join hc
  · exact .inl (List.mem_singleton.mp hdot)
  · refine .inr ((Text.isSome_of_number? ?_).2 c hmem)
    by_contra hnone
    have hmapM : (fields text).mapM Text.number? = none :=
      Glob.mapM_eq_none_iff.mpr ⟨piece, hpiece, Option.not_isSome_iff_eq_none.mp hnone⟩
    rw [parse, hmapM] at h
    simp at h

/-- A text with a letter or a sign is no version. -/
theorem notMem_of_parse {s : List Char} (h : parse (String.ofList s) = .ok v) {c : Char}
    (hblank : Text.isBlank c = false) (hdot : c ≠ '.') (hdigit : Text.digitValue? c = none) :
    c ∉ s := by
  intro hc
  obtain ⟨lead, tail, hs, hlead, htail⟩ := Text.exists_trim s
  have hmem : c ∈ Text.trim s := by
    rw [hs, List.mem_append, List.mem_append] at hc
    obtain (hc | hc) | hc := hc
    · rw [List.all_eq_true.mp hlead c hc] at hblank
      cases hblank
    · exact hc
    · rw [List.all_eq_true.mp htail c hc] at hblank
      cases hblank
  obtain heq | hsome := chars_of_parse h (by rwa [String.toList_ofList])
  · exact hdot heq
  · rw [hdigit] at hsome
    cases hsome

/-- The second number in a text of two. -/
theorem minor_of_parts (hA : ∀ c ∈ A, c.isDigit = true) (hB : ∀ c ∈ B, c.isDigit = true)
    (h : parse (String.ofList (A ++ '.' :: B)) = .ok v) : v.minor = Nat.ofDigitChars 10 B 0 := by
  have hdot : ∀ {s : List Char}, (∀ c ∈ s, c.isDigit = true) → '.' ∉ s := fun hs hmem =>
    absurd (hs '.' hmem) (by decide)
  have htrim : Text.trim (A ++ '.' :: B) = A ++ '.' :: B := by
    refine Text.trim_eq_self fun c hc => ?_
    obtain hc | hc := List.mem_append.mp hc
    · exact Text.isBlank_eq_false_of_isDigit (hA c hc)
    · obtain rfl | hc := List.mem_cons.mp hc
      · decide
      -- The text has two fields, as there is no point among the digits.
      · exact Text.isBlank_eq_false_of_isDigit (hB c hc)
  have hfields : fields (String.ofList (A ++ '.' :: B)) = [A, B] := by
    rw [fields, String.toList_ofList, htrim, Text.splitChar_append_cons,
      Text.splitChar_of_notMem (hdot hA), Text.splitChar_of_notMem (hdot hB)]
    rfl
  rw [parse, hfields] at h
  cases hparts : [A, B].mapM Text.number? with
  | none => simp [hparts] at h
  | some parts =>
    simp only [hparts] at h
    split at h
    · cases h
    obtain rfl := Except.ok.inj h
    rw [List.mapM_cons, List.mapM_cons, List.mapM_nil] at hparts
    obtain ⟨m, -, hrest⟩ := Option.bind_eq_some_iff.mp hparts
    obtain ⟨ns, hns, hcons⟩ := Option.bind_eq_some_iff.mp hrest
    obtain ⟨n, hn, hnil⟩ := Option.bind_eq_some_iff.mp hns
    obtain rfl : [n] = ns := Option.some.inj hnil
    obtain rfl : [m, n] = parts := Option.some.inj hcons
    have hB : Text.number? B = some (Nat.ofDigitChars 10 B 0) := by
      have hne : B.isEmpty = false := by
        cases B with
        | nil => simp [Text.number?] at hn
        | cons c B => rfl
      rw [Text.number?, hne, if_neg Bool.false_ne_true, Text.foldlM_digits hB]
    exact Option.some.inj (hn.symm.trans hB)

/-- A number in digits does not end in zero if its last digit is none. -/
theorem not_dvd_ofDigitChars (hdigits : ∀ c ∈ digits, c.isDigit = true) {last : Char}
    (hlast : digits.getLast? = some last) (hne : last ≠ '0') :
    ¬ 10 ∣ Nat.ofDigitChars 10 digits 0 := by
  obtain ⟨more, rfl⟩ := List.getLast?_eq_some_iff.mp hlast
  have hdigit := hdigits last (by simp)
  simp only [Char.isDigit, Bool.and_eq_true, decide_eq_true_eq] at hdigit
  have hlow : 48 ≤ last.toNat := hdigit.1
  have hhigh : last.toNat ≤ 57 := hdigit.2
  have hzero : last.toNat ≠ 48 := fun hcode => hne (Char.toNat_inj.mp hcode)
  have hcode : '0'.toNat = 48 := rfl
  rw [Nat.ofDigitChars_append, Nat.ofDigitChars_cons, Nat.ofDigitChars_nil, hcode]
  omega

theorem ofDigitChars_zeros (n : Nat) : Nat.ofDigitChars 10 (List.replicate n '0') 0 = 0 := by
  induction n with
  | zero => rfl
  | succ n ih => exact ih

/-- Where digits with a point are a version, its second number has no zero at its end. -/
theorem minor_of_placed (hdigits : ∀ c ∈ digits, c.isDigit = true)
    (hlast : digits.getLast? ≠ some '0')
    (h : parse (String.ofList (placed digits point)) = .ok v) (hdvd : 10 ∣ v.minor) :
    v.minor = 0 := by
  have hzeros : ∀ n, ∀ c ∈ List.replicate n '0', c.isDigit = true := fun n c hc => by
    rw [List.eq_of_mem_replicate hc]
    rfl
  have hzero : ∀ c ∈ ['0'], c.isDigit = true := hzeros 1
  unfold placed at h
  split at h
  · -- Zeros stand between the point and the digits.
    have hshape : "0.".toList ++ List.replicate (-point).toNat '0' ++ digits =
        ['0'] ++ '.' :: (List.replicate (-point).toNat '0' ++ digits) := rfl
    rw [hshape] at h
    have hB : ∀ c ∈ List.replicate (-point).toNat '0' ++ digits, c.isDigit = true :=
      List.forall_mem_append.mpr ⟨hzeros _, hdigits⟩
    have hminor := minor_of_parts hzero hB h
    cases hend : digits.getLast? with
    | none =>
      rw [List.getLast?_eq_none_iff.mp hend, List.append_nil, ofDigitChars_zeros] at hminor
      exact hminor
    | some last =>
      have hendB : (List.replicate (-point).toNat '0' ++ digits).getLast? = some last := by
        rw [List.getLast?_append, hend]
        rfl
      rw [hend] at hlast
      rw [hminor] at hdvd
      exact absurd hdvd (not_dvd_ofDigitChars hB hendB fun heq => hlast (heq ▸ rfl))
  · split at h
    · have hshape : ∀ s : List Char, s ++ ".0".toList = s ++ '.' :: ['0'] := fun _ => rfl
      rw [hshape] at h
      exact minor_of_parts (List.forall_mem_append.mpr ⟨hdigits, hzeros _⟩) hzero h
    · have hB : ∀ c ∈ digits.drop point.toNat, c.isDigit = true := fun c hc =>
        hdigits c (List.mem_of_mem_drop hc)
      have hminor := minor_of_parts (fun c hc => hdigits c (List.mem_of_mem_take hc)) hB h
      cases hend : digits.getLast? with
      | none =>
        rw [List.getLast?_eq_none_iff.mp hend, List.drop_nil] at hminor
        exact hminor
      | some last =>
        have hendB : (digits.drop point.toNat).getLast? = some last := by
          rw [List.getLast?_drop, if_neg (by omega), hend]
        rw [hend] at hlast
        rw [hminor] at hdvd
        exact absurd hdvd (not_dvd_ofDigitChars hB hendB fun heq => hlast (heq ▸ rfl))

theorem e_mem_withExponent (digits : List Char) (point : Int) : 'e' ∈ withExponent digits point :=
  List.mem_append_right _ List.mem_cons_self

/-- And where the text of a binary number is one. -/
theorem minor_of_text {x : Binary64} (h : parse x.text = .ok v) (hdvd : 10 ∣ v.minor) :
    v.minor = 0 := by
  have hletter : ∀ s : List Char, (∃ c ∈ ['n', 'e', '-'], c ∈ s) →
      parse (String.ofList s) ≠ .ok v := by
    have hnone : ∀ c ∈ ['n', 'e', '-'], Text.isBlank c = false ∧ c ≠ '.' ∧
        Text.digitValue? c = none := List.forall_iff_forall_mem.mp (by decide)
    rintro s ⟨c, hc, hmem⟩ hparse
    obtain ⟨hblank, hdot, hdigit⟩ := hnone c hc
    exact notMem_of_parse hparse hblank hdot hdigit hmem
  -- Of the printed numbers only the placed ones have fields; the others hold a letter or a sign.
  unfold Binary64.text at h
  cases x with
  | notANumber => exact absurd h (hletter ['n', 'a', 'n'] ⟨'n', by decide, by decide⟩)
  | infinite negative =>
    cases negative
    · exact absurd h (hletter ['i', 'n', 'f'] ⟨'n', by decide, by decide⟩)
    · exact absurd h (hletter ['-', 'i', 'n', 'f'] ⟨'n', by decide, by decide⟩)
  | finite negative m q =>
    cases negative
    · simp only [Bool.false_eq_true, if_false] at h
      split at h
      · exact minor_of_parts (A := ['0']) (B := ['0']) (List.forall_iff_forall_mem.mp (by decide))
          (List.forall_iff_forall_mem.mp (by decide)) h
      · cases hshort : Binary64.shortest? m q with
        | none =>
          rw [hshort] at h
          cases h
        | some found =>
          obtain ⟨n, e⟩ := found
          simp only [hshort] at h
          split at h
          · exact absurd h (hletter _ ⟨'e', by decide, e_mem_withExponent _ _⟩)
          · refine minor_of_placed (fun c hc => ?_) ?_ h hdvd
            · rw [List.mem_reverse] at hc
              have hmem := (List.dropWhile_sublist _).mem hc
              exact Yaml.isDigit_of_mem_toDigits (List.mem_reverse.mp hmem)
            · rw [List.getLast?_reverse]
              intro hzero
              have hnot := List.head?_dropWhile_not (· == '0') (Nat.toDigits 10 n).reverse
              rw [hzero] at hnot
              simp at hnot
    · simp only [if_true] at h
      exact absurd h (hletter _ ⟨'-', by decide, List.mem_cons_self⟩)

end RailsUpgrade.Version

namespace RailsUpgrade.Settings

open Binary64 (digitCount ofParts text_ofParts)

variable {t : Tree} {root : Root} {named : Option String} {path : String} {a b : Nat}

/-! ### Settings -/

/-- The settings of an application: those of the file that is named, or of the first file that there
is. -/
def load (t : Tree) (root : Root) : Option String → Except Failure Settings
  | some path => ofFile t root path
  | none => find t root

theorem load_eq_ofFile (h : named.or (fileNames.find? (t.existsAt root)) = some path) :
    load t root named = ofFile t root path := by
  cases named with
  | some name =>
    rw [Option.some.inj h]
    rfl
  | none =>
    rw [Option.none_or] at h
    rw [load, find, h]

/-- The settings of a document with a target as its only entry. -/
theorem ofDocument_target (x : Binary64) :
    ofDocument (.map [(.text "target_version", .float x)]) = match versionOf x.text with
      | .ok text => .ok { options := { target := some text } }
      | .error fault => .error (.fields [⟨"target_version", fault, Text.quoted x.text⟩]) := by
  -- The number is put down as text before the fields are read.
  have htext : textVersion [(.text "target_version", .float x)] =
      [(.text "target_version", .text x.text)] := by
    simp [textVersion, Value.get?, Value.isText, Value.put, Value.sameKey, Value.int?, Value.shown,
      Value.inner]
  have hkeys : textKeys? (renameFormat [(.text "target_version", .text x.text)]) =
      some [("target_version", .text x.text)] := by
    simp [textKeys?, renameFormat, Value.get?, Value.isText]
  have hentries : ofEntries [("target_version", .text x.text)] = match versionOf x.text with
      | .ok text => .ok { options := { target := some text } }
      | .error fault => .error [⟨"target_version", fault, Text.quoted x.text⟩] := by
    cases h : versionOf x.text <;>
      simp [ofEntries, readField, targetOf, textOf, Except.bind, Except.map, h, Switch.all,
        Switch.name, List.lookup_cons, List.lookup_nil, fieldNames, Value.inner]
  have hshown : ((Value.get? "target_version" [(.text "target_version", .float x)]).map
      Value.isUnshown).getD false = false := by
    simp [Value.get?, Value.isText, Value.isUnshown]
  have hmap : ofDocument (.map [(.text "target_version", .float x)]) =
      ofMap [(.text "target_version", .float x)] := by
    simp only [ofDocument, Value.isVoid, List.isEmpty_cons, Bool.false_eq_true, if_false, ofValue]
  rw [hmap, ofMap, hshown, if_neg Bool.false_ne_true, htext, hkeys]
  simp only [hentries]
  cases versionOf x.text <;> rfl

/-- The settings of a file that holds a target as a number. -/
theorem ofFile_targetLine (hfile : t.read root path = .ok (targetLine a b).toList) :
    ofFile t root path = match versionOf (ofParts a b).text with
      | .ok text => .ok { options := { target := some text } }
      | .error fault =>
        .error (.settingsFields [⟨"target_version", fault, Text.quoted (ofParts a b).text⟩]) := by
  rw [ofFile, hfile]
  simp only [read_targetLine, ofDocument_target]
  cases versionOf (ofParts a b).text <;> rfl

/-- Settings that ask for a version. -/
def AsksFor (s : Settings) (v : Version) : Prop :=
  ∃ text, s.options.target = some text ∧ Version.parse text = .ok v

/-- A file that holds a target as a number makes settings that ask for a version exactly if the text of
the binary number is a text of this version. -/
theorem asksFor_targetLine_iff (hfile : t.read root path = .ok (targetLine a b).toList)
    {v : Version} : (∃ s, ofFile t root path = .ok s ∧ s.AsksFor v) ↔
      Version.parse (ofParts a b).text = .ok v := by
  rw [ofFile_targetLine hfile]
  cases h : Version.parse (ofParts a b).text with
  | ok w =>
    have hversion : versionOf (ofParts a b).text = .ok (ofParts a b).text := by rw [versionOf, h]
    rw [hversion]
    constructor
    · rintro ⟨s, hs, text, htarget, hparse⟩
      obtain rfl := Except.ok.inj hs
      obtain rfl := Option.some.inj htarget
      exact h.symm.trans hparse
    · exact fun hw => ⟨_, rfl, _, rfl, h.trans hw⟩
  | error fault =>
    have hversion : ∃ fault, versionOf (ofParts a b).text = .error fault := by
      rw [versionOf, h]
      cases fault <;> exact ⟨_, rfl⟩
    obtain ⟨fault, hfault⟩ := hversion
    rw [hfault]
    simp

/-- A version that is written as a number keeps its second number exactly if this does not end in zero,
and a zero after the point stays. With at most fifteen digits the version has all other digits; with any
number of digits, a second number that ends in zero is lost. -/
theorem target_kept_iff (hnamed : named.or (fileNames.find? (t.existsAt root)) = some path)
    (hfile : t.read root path = .ok (targetLine a b).toList) :
    ((∃ s, load t root named = .ok s ∧ s.AsksFor ⟨a, b, 0⟩) → 10 ∣ b → b = 0) ∧
      (digitCount a + digitCount b ≤ 15 →
        (∃ s, load t root named = .ok s ∧ s.AsksFor ⟨a, withoutZeros b, 0⟩) ∧
          ((∃ s, load t root named = .ok s ∧ s.AsksFor ⟨a, b, 0⟩) ↔ (10 ∣ b → b = 0))) := by
  rw [load_eq_ofFile hnamed]
  simp only [asksFor_targetLine_iff hfile]
  -- A number that is printed without the zero is read as another one.
  have hlost : Version.parse (ofParts a b).text = .ok ⟨a, b, 0⟩ → 10 ∣ b → b = 0 := fun h hdvd =>
    Version.minor_of_text h hdvd
  refine ⟨hlost, fun hsize => ?_⟩
  -- Up to fifteen digits the nearest number is printed as it was written, less the zeros at its end.
  have hkept : Version.parse (ofParts a b).text = .ok ⟨a, withoutZeros b, 0⟩ := by
    have hless : ∀ {n c : Nat}, n ≤ c → digitCount c ≤ 15 →
        (toString n).length ≤ Text.digitLimit := by
      intro n c hle hcount
      have hlt := Binary64.lt_pow_digitCount c
      have hmost : digitCount n ≤ digitCount c :=
        (Nat.length_toDigits_le_iff (by decide) Nat.length_toDigits_pos).mpr (hle.trans_lt hlt)
      rw [← String.length_toList, Text.toList_toString, ← digitCount]
      exact (hmost.trans hcount).trans (by decide)
    have hlengths : ∀ n ∈ [a, withoutZeros b], (toString n).length ≤ Text.digitLimit := by
      simp only [List.forall_mem_cons]
      exact ⟨hless (Nat.le_refl a) (by omega), hless (withoutZeros_le b) (by omega), by simp⟩
    rw [text_ofParts hsize]
    exact Version.parse_of_numbers (List.cons_ne_nil _ _)
      (Version.toList_line ⟨a, withoutZeros b, 0⟩) hlengths
  refine ⟨hkept, hlost, fun h => ?_⟩
  rwa [(withoutZeros_eq_self_iff b).mpr h] at hkept

/-- A directory with a settings file that asks for a version. -/
def targetTree (a b : Nat) : Tree where
  files := [(["upshift.yml"], Text.encode (targetLine a b).toList)]

theorem find?_targetTree (a b : Nat) :
    fileNames.find? ((targetTree a b).existsAt ⟨[], "."⟩) = some "upshift.yml" := by
  rfl

theorem read_targetTree (a b : Nat) :
    (targetTree a b).read ⟨[], "."⟩ "upshift.yml" = .ok (targetLine a b).toList := by
  have hlook : (targetTree a b).look ⟨[], "."⟩ "upshift.yml" =
      .file ["upshift.yml"] (Text.encode (targetLine a b).toList) := by
    rfl
  have hreturn : '\r' ∉ (targetLine a b).toList := by
    have hall : ∀ c ∈ "target_version".toList ++ Yaml.numberChars ++ [':', ' ', '\n'], c ≠ '\r' :=
      List.forall_iff_forall_mem.mp (by decide)
    rw [toList_targetLine, Yaml.lineOf]
    intro hmem
    refine hall '\r' ?_ rfl
    simp only [List.mem_append, List.mem_cons, List.not_mem_nil, or_false] at hmem ⊢
    obtain hkey | hcolon | hspace | hvalue | hbreak := hmem
    · exact .inl (.inl hkey)
    · exact .inr (.inl hcolon)
    · exact .inr (.inr (.inl hspace))
    · exact .inl (.inr (Yaml.mem_numberChars hvalue))
    · exact .inr (.inr (.inr hbreak))
  rw [Tree.read, hlook]
  simp only [Text.decode?_encode_of_notMem hreturn]

/-- Release 7.1 is asked for as it is written. -/
theorem target_kept_short :
    ∃ s, load (targetTree 7 1) ⟨[], "."⟩ none = .ok s ∧ s.AsksFor ⟨7, 1, 0⟩ :=
  ((target_kept_iff (Option.none_or.trans (find?_targetTree 7 1)) (read_targetTree 7 1)).2
    (by decide)).2.mpr (by decide)

/-- Release 7.10 comes out as release 7.1. -/
theorem target_lost :
    (∃ s, load (targetTree 7 10) ⟨[], "."⟩ none = .ok s ∧ s.AsksFor ⟨7, 1, 0⟩) ∧
      ¬ ∃ s, load (targetTree 7 10) ⟨[], "."⟩ none = .ok s ∧ s.AsksFor ⟨7, 10, 0⟩ := by
  have hload := load_eq_ofFile (Option.none_or.trans (find?_targetTree 7 10))
  rw [hload]
  simp only [asksFor_targetLine_iff (read_targetTree 7 10)]
  have hone : Version.parse (ofParts 7 10).text = .ok ⟨7, 1, 0⟩ := by
    have hzeros : withoutZeros 10 = 1 := by
      rw [withoutZeros, if_pos (by decide)]
      exact (withoutZeros_eq_self_iff 1).mpr (by decide)
    rw [text_ofParts (by decide), hzeros]
    decide
  refine ⟨hone, fun hten => ?_⟩
  have hsame := Except.ok.inj (hone.symm.trans hten)
  exact absurd hsame (by decide)

end RailsUpgrade.Settings
