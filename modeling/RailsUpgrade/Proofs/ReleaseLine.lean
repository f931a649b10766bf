import Mathlib.Data.Nat.Digits.Defs
import RailsUpgrade.Proofs.Margins
import RailsUpgrade.Version

/-!
# `RailsUpgrade.Proofs.ReleaseLine`: the release line of a version

A version that was read is written down as a release line, and that is read again:

* `lt_of_number?`: digits spell a number that is less than a power of ten;
* `parse_of_numbers`: numbers that are not too long are read from a text with dots between them;
* `parse_line`: the release line of a version that was read is a version with the same major and
  minor number. No number in it is too long, because none was in the text that was read.
-/

set_option autoImplicit false

namespace RailsUpgrade

namespace Text

/-! ### Numbers -/

theorem lt_of_digitValue? {c : Char} {d : Nat} (h : digitValue? c = some d) : d < 10 := by
  unfold digitValue? at h
  split at h
  · rename_i hdigit
    have hle : c.toNat ≤ 57 := by
      simp only [Char.isDigit, Bool.and_eq_true, decide_eq_true_eq] at hdigit
      exact hdigit.2
    simp only [Option.some.injEq] at h
    omega
  · split at h
    · cases h
    · obtain ⟨z, hz, rfl⟩ := Option.map_eq_some_iff.mp h
      have hfound := List.find?_some hz
      simp only [Bool.and_eq_true, decide_eq_true_eq] at hfound
      omega

/-- Digits onto a number. -/
theorem lt_of_foldlM {digits : List Char} {a n : Nat}
    (h : digits.foldlM (fun n c => (digitValue? c).map (10 * n + ·)) a = some n) :
    n < (a + 1) * 10 ^ digits.length := by
  induction digits generalizing a with
  | nil =>
    obtain rfl : a = n := by simpa using h
    simp
  | cons c digits ih =>
    rw [List.foldlM_cons] at h
    obtain ⟨b, hb, hrest⟩ := Option.bind_eq_some_iff.mp h
    obtain ⟨d, hd, rfl⟩ := Option.map_eq_some_iff.mp hb
    have hlt := lt_of_digitValue? hd
    calc n < (10 * a + d + 1) * 10 ^ digits.length := ih hrest
      _ ≤ ((a + 1) * 10) * 10 ^ digits.length := Nat.mul_le_mul_right _ (by omega)
      _ = (a + 1) * 10 ^ (c :: digits).length := by
        rw [List.length_cons, Nat.pow_succ, Nat.mul_assoc, Nat.mul_comm 10]

theorem lt_of_number? {digits : List Char} {n : Nat} (h : number? digits = some n) :
    n < 10 ^ digits.length := by
  unfold number? at h
  split at h
  · cases h
  · simpa using lt_of_foldlM h

/-- Digits of ASCII are read as they are written. -/
theorem foldlM_digits {digits : List Char} (h : ∀ c ∈ digits, c.isDigit = true) (a : Nat) :
    digits.foldlM (fun n c => (digitValue? c).map (10 * n + ·)) a =
      some (Nat.ofDigitChars 10 digits a) := by
  induction digits generalizing a with
  | nil => rfl
  | cons c digits ih =>
    have hc : digitValue? c = some (c.toNat - 48) := by
      rw [digitValue?, if_pos (h c List.mem_cons_self)]
    rw [List.foldlM_cons, hc]
    exact ih (fun x hx => h x (List.mem_cons_of_mem _ hx)) _

theorem toList_toString (n : Nat) : (toString n).toList = Nat.toDigits 10 n := by
  rw [Nat.toString_eq_ofList_toDigits, String.toList_ofList]

theorem isDigit_of_mem_toString {n : Nat} {c : Char} (h : c ∈ (toString n).toList) :
    c.isDigit = true := by
  rw [toList_toString] at h
  exact Nat.isDigit_of_mem_toDigits (by decide) (by decide) h

theorem number?_toString (n : Nat) : number? (toString n).toList = some n := by
  have hne : (toString n).toList.isEmpty = false := by simp
  rw [number?, hne, if_neg (by decide), foldlM_digits fun c hc => isDigit_of_mem_toString hc,
    toList_toString, Nat.ofDigitChars_toDigits (by decide) (by decide)]

theorem isBlank_eq_false_of_isDigit {c : Char} (h : c.isDigit = true) : isBlank c = false := by
  by_contra hblank
  have hcode := mem_blankCodes (by simpa using hblank)
  simp only [Char.isDigit, Bool.and_eq_true, decide_eq_true_eq] at h
  have hlow : 48 ≤ c.toNat := h.1
  have hhigh : c.toNat ≤ 57 := h.2
  have hnone : ∀ code ∈ blankCodes, code < 48 ∨ 57 < code := by decide
  have := hnone _ hcode
  omega

/-- A text without blanks at its ends stays. -/
theorem trim_eq_self {s : List Char} (h : ∀ c ∈ s, isBlank c = false) : trim s = s := by
  have hdrop : ∀ {s : List Char}, (∀ c ∈ s, isBlank c = false) → s.dropWhile isBlank = s := by
    intro s hs
    cases s with
    | nil => rfl
    | cons c s => rw [List.dropWhile_cons_of_neg (by simp [hs c List.mem_cons_self])]
  rw [trim, hdrop h, hdrop (by simpa using h), List.reverse_reverse]

end Text

namespace Version

/-- The digits of numbers. -/
def digitsOf (ns : List Nat) : List (List Char) := ns.map fun n => (toString n).toList

/-- The parts of a text of numbers with dots between them. -/
theorem fields_of_numbers {text : String} {ns : List Nat} (hne : ns ≠ [])
    (htext : text.toList = Text.join ['.'] (digitsOf ns)) : fields text = digitsOf ns := by
  have hdigit : ∀ digits ∈ digitsOf ns, ∀ c ∈ digits, c.isDigit = true := by
    intro digits hdigits c hc
    obtain ⟨n, -, rfl⟩ := List.mem_map.mp hdigits
    exact Text.isDigit_of_mem_toString hc
  have htrim : Text.trim text.toList = text.toList := by
    refine Text.trim_eq_self fun c hc => ?_
    rw [htext] at hc
    obtain hdot | ⟨digits, hdigits, hc⟩ := Text.mem_join hc
    · rw [List.mem_singleton.mp hdot]
      decide
    · exact Text.isBlank_eq_false_of_isDigit (hdigit digits hdigits c hc)
  rw [fields, htrim, htext]
  refine Text.splitChar_join (by simpa [digitsOf] using hne) fun digits hdigits hdot => ?_
  exact absurd (hdigit digits hdigits '.' hdot) (by decide)

theorem exists_of_mem_mapM {α β : Type} {f : α → Option β} {xs : List α} {ys : List β}
    (h : xs.mapM f = some ys) {y : β} (hy : y ∈ ys) : ∃ x ∈ xs, f x = some y := by
  induction xs generalizing ys with
  | nil =>
    obtain rfl : [] = ys := by simpa using h
    cases hy
  | cons x xs ih =>
    rw [List.mapM_cons] at h
    obtain ⟨z, hz, hrest⟩ := Option.bind_eq_some_iff.mp h
    obtain ⟨zs, hzs, hcons⟩ := Option.bind_eq_some_iff.mp hrest
    obtain rfl : z :: zs = ys := Option.some.inj hcons
    rcases List.mem_cons.mp hy with rfl | hy
    · exact ⟨x, List.mem_cons_self, hz⟩
    · obtain ⟨x', hx', hy'⟩ := ih hzs hy
      exact ⟨x', List.mem_cons_of_mem _ hx', hy'⟩

/-- The numbers of a version that was read are not too long to be read again. -/
theorem length_toString_le {text : String} {v : Version} (h : parse text = .ok v) :
    ∀ n ∈ [v.major, v.minor, v.patch], (toString n).length ≤ Text.digitLimit := by
  unfold parse at h
  split at h
  · cases h
  rename_i parts hparts
  split at h
  · cases h
  rename_i hshort
  obtain rfl : v = ⟨parts.getD 0 0, parts.getD 1 0, parts.getD 2 0⟩ := by simpa using h.symm
  -- Every part is read from a run of digits that the limit admits, and a missing part is zero.
  have hpart : ∀ n ∈ parts, (toString n).length ≤ Text.digitLimit := by
    intro n hn
    obtain ⟨digits, hdigits, hnumber⟩ := exists_of_mem_mapM hparts hn
    have hlimit : digits.length ≤ Text.digitLimit := by
      have hnone := List.findSome?_eq_none_iff.mp hshort digits hdigits
      unfold Text.overlong? at hnone
      split at hnone
      · cases hnone
      · omega
    have hne : 0 < digits.length := by
      cases digits with
      | nil => simp [Text.number?] at hnumber
      | cons c digits => simp
    rw [Nat.toString_eq_ofList_toDigits, String.length_ofList]
    exact (Nat.toDigits_length _ _ _ hne (Text.lt_of_number? hnumber)).trans hlimit
  have hgetD : ∀ i, (toString (parts.getD i 0)).length ≤ Text.digitLimit := by
    intro i
    rw [List.getD_eq_getElem?_getD]
    cases hi : parts[i]? with
    | none => decide
    | some n => exact hpart n (List.mem_of_getElem? hi)
  simp only [List.forall_mem_cons]
  exact ⟨hgetD 0, hgetD 1, hgetD 2, by simp⟩

/-- Numbers that are not too long are read from a text in which they stand with dots between them. -/
theorem parse_of_numbers {text : String} {ns : List Nat} (hne : ns ≠ [])
    (htext : text.toList = Text.join ['.'] (digitsOf ns))
    (hshort : ∀ n ∈ ns, (toString n).length ≤ Text.digitLimit) :
    parse text = .ok ⟨ns.getD 0 0, ns.getD 1 0, ns.getD 2 0⟩ := by
  have hread : (digitsOf ns).mapM Text.number? = some ns := by
    clear hne htext hshort
    induction ns with
    | nil => rfl
    | cons n ns ih =>
      rw [digitsOf, List.map_cons, List.mapM_cons, Text.number?_toString, ← digitsOf, ih]
      rfl
  have hnone : (digitsOf ns).findSome? Text.overlong? = none := by
    rw [List.findSome?_eq_none_iff]
    intro digits hdigits
    obtain ⟨n, hn, rfl⟩ := List.mem_map.mp hdigits
    have hle := hshort n hn
    rw [Text.overlong?, if_neg]
    rw [String.length_toList]
    omega
  rw [parse, fields_of_numbers hne htext, hread]
  simp only [hnone]

theorem toList_line (v : Version) :
    v.line.toList = Text.join ['.'] (digitsOf [v.major, v.minor]) := by
  have hdot : ".".toList = ['.'] := by decide
  simp [line, hdot, Text.join, digitsOf]

/-- The release line of a version that was read is a version. -/
theorem parse_line {text : String} {v : Version} (h : parse? text = some v) :
    parse v.line = .ok ⟨v.major, v.minor, 0⟩ := by
  have hparse : parse text = .ok v := by
    unfold parse? at h
    cases hparse : parse text with
    | error fault => simp [hparse, Except.toOption] at h
    | ok v' =>
      rw [hparse] at h
      rw [Option.some.inj h]
  refine parse_of_numbers (by simp) (toList_line v) fun n hn => length_toString_le hparse n ?_
  simp only [List.mem_cons, List.not_mem_nil, or_false] at hn ⊢
  exact hn.imp_right .inl

/-- What is compared was read. -/
theorem exists_parse_of_atLeast {text minimum : String} (h : atLeast (some text) minimum = true) :
    ∃ v, parse text = .ok v := by
  cases hparse : parse text with
  | ok v => exact ⟨v, rfl⟩
  | error fault =>
    have hnone : parse? text = none := by rw [parse?, hparse, Except.toOption]
    unfold atLeast Constraint.admits at h
    cases hwanted : (Constraint.parts [">=", minimum]).parse? with
    | none => simp [hwanted] at h
    | some wanted => simp [hwanted, hnone] at h

/-- Whether a version that was read is not older than a release line. -/
theorem atLeast_line {text : String} {v : Version} (h : parse? text = some v) {minimum : String}
    {major minor : Nat} (hminimum : parse? minimum = some ⟨major, minor, 0⟩) :
    atLeast (some v.line) minimum = atLeast (some text) minimum := by
  have hsome : ∀ {text : String} {v : Version}, parse? text = some v →
      atLeast (some text) minimum = !v.before ⟨major, minor, 0⟩ := by
    intro text v h
    have hpair : (Constraint.parts [">=", minimum]).parse? = some (.atLeast, ⟨major, minor, 0⟩) := by
      simp [Constraint.parse?, Constraint.pair?, Comparison.parse?, hminimum]
    simp [atLeast, Constraint.admits, hpair, h, Comparison.holds]
  have hline : parse? v.line = some ⟨v.major, v.minor, 0⟩ := by
    rw [parse?, parse_line h]
    rfl
  rw [hsome h, hsome hline]
  simp [before]

end Version

end RailsUpgrade
