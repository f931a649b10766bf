import Mathlib.Algebra.Order.Floor.Semiring
import Mathlib.Data.Rat.Floor
import Mathlib.Tactic.FieldSimp
import Mathlib.Tactic.Linarith
import Mathlib.Tactic.Positivity
import Mathlib.Tactic.Ring
import RailsUpgrade.Decimal.Binary64

/-!
# `RailsUpgrade.Proofs.Rounding`: how far a decimal is from its binary number

A decimal and the binary number that it is rounded to are at most half a unit in the last place apart:

* `roundDiv_near`: rounding a ratio to a natural number moves it by at most one half;
* `ofRatio_near`, `ofDecimal_near`: so rounding to a binary number moves it by at most half of
  `2 ^ q`;
* `ofRatio_normal`: a ratio of common size has a significand of 53 bits.
-/

set_option autoImplicit false

namespace RailsUpgrade.Binary64

variable {num den m : Nat} {q : Int} {negative : Bool}

/-- The number `m · 2 ^ q`. -/
def value (m : Nat) (q : Int) : ℚ := m * 2 ^ q

theorem roundDiv_bounds (num : Nat) (hden : 0 < den) :
    2 * num ≤ 2 * (roundDiv num den * den) + den ∧ 2 * (roundDiv num den * den) ≤ 2 * num + den := by
  have hdiv := Nat.div_add_mod num den
  rw [Nat.mul_comm] at hdiv
  simp only [roundDiv]
  split
  · omega
  · split
    · rename_i heven
      have hhalf : 2 * (num % den) = den := by simpa using heven
      obtain hzero | hone := Nat.mod_two_eq_zero_or_one (num / den)
      · rw [hzero, Nat.add_zero]
        omega
      · rw [hone, Nat.add_mul]
        omega
    · rename_i hless hne
      have hmore : den < 2 * (num % den) := by
        have hne : 2 * (num % den) ≠ den := by simpa using hne
        omega
      have hlt := Nat.mod_lt num hden
      rw [Nat.add_mul]
      omega

/-- Rounding a ratio to a natural number moves it by at most one half. -/
theorem roundDiv_near (num : Nat) (hden : 0 < den) :
    |(num : ℚ) / den - roundDiv num den| ≤ 1 / 2 := by
  obtain ⟨hlow, hhigh⟩ := roundDiv_bounds num hden
  have hpos : (0 : ℚ) < den := by exact_mod_cast hden
  have hlow : 2 * (num : ℚ) ≤ 2 * (roundDiv num den * den) + den := by exact_mod_cast hlow
  have hhigh : 2 * ((roundDiv num den : ℚ) * den) ≤ 2 * num + den := by exact_mod_cast hhigh
  rw [abs_le]
  constructor
  · rw [neg_le_sub_iff_le_add, ← sub_le_iff_le_add, le_div_iff₀ hpos]
    linarith
  · rw [sub_le_iff_le_add, div_le_iff₀ hpos]
    linarith

/-- Scaling divides a ratio by a power of two. -/
theorem scaled_ratio (num : Nat) (hden : 0 < den) (q : Int) :
    0 < (scaled num den q).2 ∧
      ((scaled num den q).1 : ℚ) / (scaled num den q).2 = num / den / 2 ^ q := by
  have htwo : (2 : ℚ) ≠ 0 := by norm_num
  unfold scaled
  split
  · rename_i hneg
    refine ⟨hden, ?_⟩
    have hq : (2 : ℚ) ^ q = (2 ^ (-q).toNat)⁻¹ := by
      rw [← zpow_natCast, ← zpow_neg]
      congr 1
      omega
    rw [hq, Nat.pow_eq]
    push_cast
    field_simp
  · refine ⟨Nat.mul_pos hden (Nat.pow_pos (by decide)), ?_⟩
    have hq : (2 : ℚ) ^ q = 2 ^ q.toNat := by
      rw [← zpow_natCast]
      congr 1
      omega
    rw [hq, Nat.pow_eq]
    push_cast
    field_simp

theorem zpow_le_log2 (h : num ≠ 0) : (2 : ℚ) ^ (num.log2 : Int) ≤ num := by
  rw [zpow_natCast]
  exact_mod_cast Nat.log2_self_le h

theorem lt_zpow_log2 (num : Nat) : (num : ℚ) < 2 ^ ((num.log2 : Int) + 1) := by
  have hlt : num < 2 ^ (num.log2 + 1) := Nat.lt_log2_self
  have hcast : ((num.log2 : Int) + 1) = ((num.log2 + 1 : Nat) : Int) := by push_cast; rfl
  rw [hcast, zpow_natCast]
  exact_mod_cast hlt

/-- A significand that has come to have 54 bits is halved. -/
def carried (m : Nat) (q : Int) : Nat × Int := if m == Nat.pow 2 53 then (Nat.pow 2 52, q + 1) else (m, q)

/-- The significand that a ratio is rounded to over `2 ^ q`, and its exponent. -/
def rounded (num den : Nat) (q : Int) : Nat × Int :=
  carried (roundDiv (scaled num den q).1 (scaled num den q).2) q

theorem ofRatio_eq (negative : Bool) (hnum : num ≠ 0) (den : Nat) : ofRatio negative num den =
    if (rounded num den (exponentOf num den)).2 > 971 then .infinite negative
    else .finite negative (rounded num den (exponentOf num den)).1
      (rounded num den (exponentOf num den)).2 := by
  rw [ofRatio, if_neg (by simpa using hnum)]
  rfl

theorem value_carried (m : Nat) (q : Int) : value (carried m q).1 (carried m q).2 = value m q := by
  unfold carried
  split
  · rename_i hm
    have htwo : (2 : ℚ) ≠ 0 := by norm_num
    rw [eq_of_beq hm, value, value, zpow_add₀ htwo]
    norm_num
    ring
  · rfl

theorem le_carried (m : Nat) (q : Int) : q ≤ (carried m q).2 := by
  unfold carried
  split <;> simp

/-- Rounding a ratio over `2 ^ q` moves it by at most half a unit. -/
theorem rounded_near (num : Nat) (hden : 0 < den) (q : Int) :
    |(num : ℚ) / den - value (rounded num den q).1 (rounded num den q).2| ≤
      2 ^ (rounded num den q).2 / 2 := by
  have hunit : (0 : ℚ) < 2 ^ q := zpow_pos (by norm_num) q
  obtain ⟨hpos, hratio⟩ := scaled_ratio num hden q
  have hnear := roundDiv_near (scaled num den q).1 hpos
  rw [hratio] at hnear
  have hgrow : (2 : ℚ) ^ q ≤ 2 ^ (rounded num den q).2 :=
    zpow_le_zpow_right₀ (by norm_num) (le_carried _ _)
  rw [rounded, value_carried, ← rounded]
  refine le_trans ?_ (div_le_div_of_nonneg_right hgrow (by norm_num))
  set r := roundDiv (scaled num den q).1 (scaled num den q).2
  have hscale : (num : ℚ) / den - value r q = (num / den / 2 ^ q - r) * 2 ^ q := by
    rw [value, sub_mul, div_mul_cancel₀ _ hunit.ne']
  rw [hscale, abs_mul, abs_of_pos hunit]
  calc |(num : ℚ) / den / 2 ^ q - r| * 2 ^ q ≤ 1 / 2 * 2 ^ q :=
        mul_le_mul_of_nonneg_right hnear hunit.le
    _ = 2 ^ q / 2 := by ring

/-- Rounding a ratio to a number that is not infinite moves it by at most half a unit. -/
theorem ofRatio_near (hden : 0 < den) (h : ofRatio negative num den = .finite negative m q) :
    |(num : ℚ) / den - value m q| ≤ 2 ^ q / 2 := by
  by_cases hnum : num = 0
  · subst hnum
    obtain ⟨-, rfl, rfl⟩ := Binary64.finite.inj h
    have hunit : (0 : ℚ) < 2 ^ (-1074 : Int) := zpow_pos (by norm_num) _
    simp only [value, Nat.cast_zero, zero_div, zero_mul, sub_zero, abs_zero]
    exact (half_pos hunit).le
  · rw [ofRatio_eq negative hnum] at h
    split at h
    · simp at h
    · obtain ⟨-, rfl, rfl⟩ := Binary64.finite.inj h
      exact rounded_near num hden _

/-- The first guess at the exponent is right or one too small. -/
theorem guess_bounds (hnum : num ≠ 0) (hden : 0 < den) :
    let guess := (num.log2 : Int) - den.log2 - 53
    (2 : ℚ) ^ 52 < num / den / 2 ^ guess ∧ (num : ℚ) / den / 2 ^ guess < 2 ^ 54 := by
  intro guess
  have htwo : (2 : ℚ) ≠ 0 := by norm_num
  have hpos : (0 : ℚ) < den := by exact_mod_cast hden
  have hunit : (0 : ℚ) < 2 ^ guess := zpow_pos (by norm_num) guess
  rw [lt_div_iff₀ hunit, lt_div_iff₀ hpos, div_lt_iff₀ hunit, div_lt_iff₀ hpos]
  constructor
  -- Either bound weighs the digits of the one number against a power of two next to the other.
  · calc (2 : ℚ) ^ 52 * 2 ^ guess * den
        < 2 ^ 52 * 2 ^ guess * 2 ^ ((den.log2 : Int) + 1) :=
          mul_lt_mul_of_pos_left (lt_zpow_log2 den) (mul_pos (by norm_num) hunit)
      _ = 2 ^ (num.log2 : Int) := by
          rw [← zpow_natCast, ← zpow_add₀ htwo, ← zpow_add₀ htwo]
          congr 1
          simp only [guess]
          omega
      _ ≤ num := zpow_le_log2 hnum
  · calc (num : ℚ) < 2 ^ ((num.log2 : Int) + 1) := lt_zpow_log2 num
      _ = 2 ^ 54 * 2 ^ guess * 2 ^ (den.log2 : Int) := by
          rw [← zpow_natCast, ← zpow_add₀ htwo, ← zpow_add₀ htwo]
          congr 1
          simp only [guess]
          omega
      _ ≤ 2 ^ 54 * 2 ^ guess * den :=
          mul_le_mul_of_nonneg_left (zpow_le_log2 hden.ne') (mul_pos (by norm_num) hunit).le

/-- The exponent of a ratio that is not small gives it a significand of 53 bits. -/
theorem exponentOf_bounds (hnum : num ≠ 0) (hden : 0 < den) (hlow : 1 / 16 ≤ (num : ℚ) / den) :
    2 ^ 52 ≤ (num : ℚ) / den / 2 ^ exponentOf num den ∧
      (num : ℚ) / den / 2 ^ exponentOf num den < 2 ^ 53 := by
  obtain ⟨hleast, hmost⟩ := guess_bounds hnum hden
  set guess := (num.log2 : Int) - den.log2 - 53 with hguess
  have hunit : (0 : ℚ) < 2 ^ guess := zpow_pos (by norm_num) guess
  -- The ratio is not so small that its exponent would have to be the least one.
  have hfar : -1074 ≤ guess := by
    by_contra hless
    have hle : (2 : ℚ) ^ guess ≤ 2 ^ (-60 : Int) := zpow_le_zpow_right₀ (by norm_num) (by omega)
    have hsmall : (2 : ℚ) ^ (-60 : Int) = 1 / 2 ^ 60 := by norm_num
    rw [hsmall] at hle
    rw [div_lt_iff₀ hunit] at hmost
    linarith
  have hexponent : exponentOf num den = if (scaled num den guess).1 / (scaled num den guess).2 ≥
      Nat.pow 2 53 then guess + 1 else guess := by
    have hmax : exponentOf num den = max (-1074) (if (scaled num den guess).1 /
      (scaled num den guess).2 ≥ Nat.pow 2 53 then guess + 1 else guess) := rfl
    rw [hmax, max_eq_right]
    split <;> omega
  obtain ⟨hpos, hratio⟩ := scaled_ratio num hden guess
  have hdiv : (scaled num den guess).1 / (scaled num den guess).2 ≥ Nat.pow 2 53 ↔
      (2 : ℚ) ^ 53 ≤ num / den / 2 ^ guess := by
    rw [← hratio, ge_iff_le, Nat.le_div_iff_mul_le hpos, le_div_iff₀ (by exact_mod_cast hpos)]
    rw [Nat.pow_eq]
    norm_cast
  rw [hexponent]
  split
  · rename_i hmore
    have hstep : (2 : ℚ) ^ (guess + 1) = 2 ^ guess * 2 := zpow_add_one₀ (by norm_num) guess
    rw [hstep, ← div_div]
    constructor
    · linarith [hdiv.mp hmore]
    · linarith
  · rename_i hless
    exact ⟨hleast.le, not_le.mp (mt hdiv.mpr hless)⟩

/-- A ratio that is neither small nor large is rounded to a significand of 53 bits. -/
theorem ofRatio_normal (negative : Bool) (hden : 0 < den) (hlow : 1 / 16 ≤ (num : ℚ) / den)
    (hhigh : (num : ℚ) / den < 2 ^ 200) :
    ∃ m q, ofRatio negative num den = .finite negative m q ∧ 2 ^ 52 ≤ m := by
  have hnum : num ≠ 0 := by
    rintro rfl
    norm_num at hlow
  obtain ⟨hleast, hmost⟩ := exponentOf_bounds hnum hden hlow
  generalize hq : exponentOf num den = q at hleast hmost
  have hunit : (0 : ℚ) < 2 ^ q := zpow_pos (by norm_num) q
  -- With 53 bits in front of it, the exponent is far from the largest one.
  have hexponent : q < 148 := by
    by_contra hmore
    have hle : (2 : ℚ) ^ (148 : Int) ≤ 2 ^ q := zpow_le_zpow_right₀ (by norm_num) (by omega)
    have hpower : (2 : ℚ) ^ (200 : Nat) = 2 ^ 52 * 2 ^ (148 : Int) := by
      rw [← zpow_natCast, ← zpow_natCast, ← zpow_add₀ (by norm_num)]
      rfl
    rw [le_div_iff₀ hunit] at hleast
    rw [hpower] at hhigh
    linarith [mul_le_mul_of_nonneg_left hle (by norm_num : (0 : ℚ) ≤ 2 ^ 52)]
  have hsignificand : 2 ^ 52 ≤ roundDiv (scaled num den q).1 (scaled num den q).2 := by
    obtain ⟨hpos, hratio⟩ := scaled_ratio num hden q
    have hnear := (abs_le.mp (roundDiv_near (scaled num den q).1 hpos)).2
    rw [hratio] at hnear
    have hless : (2 : ℚ) ^ 52 < roundDiv (scaled num den q).1 (scaled num den q).2 + 1 := by linarith
    exact Nat.lt_succ_iff.mp (by exact_mod_cast hless)
  refine ⟨(rounded num den q).1, (rounded num den q).2, ?_, ?_⟩
  · rw [ofRatio_eq negative hnum, hq, if_neg]
    have hmost : (rounded num den q).2 ≤ q + 1 := by
      unfold rounded carried
      split <;> simp
    omega
  · unfold rounded carried
    split
    · exact Nat.le_refl _
    · exact hsignificand

/-- Rounding a decimal to a number that is not infinite and not zero moves it by at most half a
unit. -/
theorem ofDecimal_near {digits : Nat} {exponent : Int} (hm : m ≠ 0)
    (h : ofDecimal negative digits exponent = .finite negative m q) :
    |(digits : ℚ) * 10 ^ exponent - value m q| ≤ 2 ^ q / 2 := by
  unfold ofDecimal at h
  simp only at h
  split at h
  · obtain ⟨-, hzero, -⟩ := Binary64.finite.inj h
    exact absurd hzero.symm hm
  -- A negative exponent divides by the power of ten, any other multiplies by it.
  · split at h
    · simp at h
    · split at h
      · rename_i hneg
        have hpower : (10 : ℚ) ^ exponent = (10 ^ (-exponent).toNat)⁻¹ := by
          rw [← zpow_natCast, ← zpow_neg]
          congr 1
          omega
        have hnear := ofRatio_near (Nat.pow_pos (by decide)) h
        push_cast at hnear
        rwa [hpower, ← div_eq_mul_inv]
      · have hpower : (10 : ℚ) ^ exponent = 10 ^ exponent.toNat := by
          rw [← zpow_natCast]
          congr 1
          omega
        have hnear := ofRatio_near Nat.one_pos h
        rw [Nat.pow_eq] at hnear
        push_cast at hnear
        rwa [hpower, ← div_one ((digits : ℚ) * 10 ^ exponent.toNat)]

end RailsUpgrade.Binary64
