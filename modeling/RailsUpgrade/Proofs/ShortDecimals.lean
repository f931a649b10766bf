import RailsUpgrade.Decimal.Shortest
import RailsUpgrade.Proofs.ReleaseLine
import RailsUpgrade.Proofs.Rounding

/-!
# `RailsUpgrade.Proofs.ShortDecimals`: the digits of short decimals

A decimal of at most fifteen digits is told apart from all others of its length by its binary number,
so the fewest digits that read back as this number are those of the decimal:

* `eq_of_near`: two decimals of few places that are close to one number are equal;
* `onGrid?_isSome`: a decimal that reads back is found among the neighbours of its number;
* `shortest?_of_readsBack`: with the fewest digits, a decimal that reads back is spelled;
* `Short.ofDecimal`, `Short.shortest?`: this holds of decimals of at most fifteen digits.
-/

set_option autoImplicit false

namespace RailsUpgrade.Binary64

variable {num den m n N k : Nat} {q e : Int}

/-! ### Decimals that read back -/

/-- Decimals of at most `k` places that are close to the same number are equal if the number has units
smaller than the last place. -/
theorem eq_of_near {v unit : ℚ} (hunit : unit * 10 ^ k < 1) (he : -(k : Int) ≤ e)
    (hn : |(n : ℚ) * 10 ^ e - v| ≤ unit / 2) (hN : |(N : ℚ) * 10 ^ (-(k : Int)) - v| ≤ unit / 2) :
    n * 10 ^ (e + k).toNat = N := by
  have hten : (10 : ℚ) ≠ 0 := by norm_num
  have hpos : (0 : ℚ) < 10 ^ k := by positivity
  have hscaled : ((n * 10 ^ (e + k).toNat : Nat) : ℚ) - N =
      ((n : ℚ) * 10 ^ e - (N : ℚ) * 10 ^ (-(k : Int))) * 10 ^ k := by
    have hshift : (10 : ℚ) ^ (e + k).toNat = 10 ^ e * 10 ^ k := by
      rw [← zpow_natCast, ← zpow_natCast, ← zpow_add₀ hten]
      congr 1
      omega
    push_cast
    rw [hshift, zpow_neg, zpow_natCast]
    field_simp
  have hclose : |(n : ℚ) * 10 ^ e - (N : ℚ) * 10 ^ (-(k : Int))| ≤ unit := by
    rw [abs_le] at hn hN ⊢
    constructor <;> linarith [hn.1, hn.2, hN.1, hN.2]
  have hless : |((n * 10 ^ (e + k).toNat : Nat) : ℚ) - N| < 1 := by
    rw [hscaled, abs_mul, abs_of_pos hpos]
    exact lt_of_le_of_lt (mul_le_mul_of_nonneg_right hclose hpos.le) hunit
  have hint : |((n * 10 ^ (e + k).toNat : Nat) : Int) - N| < 1 := by exact_mod_cast hless
  rw [Int.abs_lt_one_iff] at hint
  omega

/-- What is found on a grid reads back. -/
theorem readsBack_of_onGrid? (h : onGrid? m q num den e = some n) : readsBack m q n e = true := by
  unfold onGrid? at h
  rcases hpair : neighbours num den e with ⟨low, half⟩
  rw [hpair] at h
  cases hlow : readsBack m q low e <;> cases hhigh : readsBack m q (low + 1) e <;>
    simp only [hlow, hhigh] at h
  · simp at h
  · exact Option.some.inj h ▸ hhigh
  · exact Option.some.inj h ▸ hlow
  · cases half
    · exact Option.some.inj h ▸ hlow
    · obtain heven | hodd := Nat.mod_two_eq_zero_or_one low
      · rw [heven] at h
        exact Option.some.inj h ▸ hlow
      · rw [hodd] at h
        exact Option.some.inj h ▸ hhigh
    · exact Option.some.inj h ▸ hhigh

theorem near_of_readsBack (hm : m ≠ 0) (h : readsBack m q n e = true) :
    |(n : ℚ) * 10 ^ e - value m q| ≤ 2 ^ q / 2 :=
  ofDecimal_near hm (eq_of_beq h)

/-- In last places, a decimal that reads back is less than half a place away. -/
theorem scaled_near (hm : m ≠ 0) (hunit : (2 : ℚ) ^ q * 10 ^ k < 1)
    (h : readsBack m q N (-(k : Int)) = true) : |(N : ℚ) - value m q * 10 ^ k| < 1 / 2 := by
  have hpos : (0 : ℚ) < 10 ^ k := by positivity
  have heq : (N : ℚ) - value m q * 10 ^ k =
      ((N : ℚ) * 10 ^ (-(k : Int)) - value m q) * 10 ^ k := by
    rw [zpow_neg, zpow_natCast]
    field_simp
  rw [heq, abs_mul, abs_of_pos hpos]
  linarith [mul_le_mul_of_nonneg_right (near_of_readsBack hm h) hpos.le]

/-- A number as a ratio. -/
theorem ratio_value (m : Nat) (q : Int) : 0 < (ratio m q).2 ∧
    ((ratio m q).1 : ℚ) / (ratio m q).2 = value m q := by
  unfold ratio value
  split
  · have hpower : (2 : ℚ) ^ q = (2 ^ (-q).toNat)⁻¹ := by
      rw [← zpow_natCast, ← zpow_neg]
      congr 1
      omega
    refine ⟨Nat.pow_pos (by decide), ?_⟩
    rw [hpower, Nat.pow_eq, ← div_eq_mul_inv]
    push_cast
    rfl
  · have hpower : (2 : ℚ) ^ q = 2 ^ q.toNat := by
      rw [← zpow_natCast]
      congr 1
      omega
    refine ⟨Nat.one_pos, ?_⟩
    rw [hpower, Nat.pow_eq]
    push_cast
    exact div_one _

/-- A decimal of `k` places that reads back is found on its grid. -/
theorem onGrid?_isSome (hm : m ≠ 0) (hk : 0 < k) (hunit : (2 : ℚ) ^ q * 10 ^ k < 1)
    (h : readsBack m q N (-(k : Int)) = true) :
    (onGrid? m q (ratio m q).1 (ratio m q).2 (-(k : Int))).isSome = true := by
  obtain ⟨hden, hvalue⟩ := ratio_value m q
  generalize (ratio m q).1 = num at hvalue ⊢
  generalize (ratio m q).2 = den at hden hvalue ⊢
  obtain ⟨half, hpair⟩ : ∃ half, neighbours num den (-(k : Int)) = (num * 10 ^ k / den, half) :=
    ⟨_, by rw [neighbours, if_pos (by omega)]; simp; rfl⟩
  set low := num * 10 ^ k / den
  -- The decimal is less than half a place away, so it is one of the neighbours.
  have hscaled : |(N : ℚ) - num * 10 ^ k / den| < 1 / 2 := by
    have hnear := scaled_near hm hunit h
    rwa [← hvalue, div_mul_eq_mul_div] at hnear
  have hnext : N = low ∨ N = low + 1 := by
    have hdenpos : (0 : ℚ) < den := by exact_mod_cast hden
    have hlow : (low : ℚ) ≤ num * 10 ^ k / den := by
      rw [le_div_iff₀ hdenpos]
      exact_mod_cast Nat.div_mul_le_self _ _
    have hhigh : (num * 10 ^ k / den : ℚ) < low + 1 := by
      rw [div_lt_iff₀ hdenpos]
      exact_mod_cast Nat.lt_mul_of_div_lt (Nat.lt_succ_self low) hden
    obtain ⟨hleft, hright⟩ := abs_lt.mp hscaled
    have hleast : low < N + 1 := by
      have hcast : (low : ℚ) < N + 1 := by linarith
      exact_mod_cast hcast
    have hmost : N < low + 2 := by
      have hcast : (N : ℚ) < low + 2 := by linarith
      exact_mod_cast hcast
    omega
  unfold onGrid?
  rw [hpair]
  obtain rfl | rfl := hnext
  · simp only [h]
    cases readsBack m q (low + 1) (-(k : Int)) <;> cases half <;> rfl
  · simp only [h]
    cases readsBack m q low (-(k : Int)) <;> cases half <;> rfl

/-- The fewest digits that read back spell a decimal that reads back, if that has no more places than
the number can tell apart. -/
theorem shortest?_of_readsBack (hm : m ≠ 0) (hk : 0 < k) (hunit : (2 : ℚ) ^ q * 10 ^ k < 1)
    (h : readsBack m q N (-(k : Int)) = true)
    (hleast : 1 ≤ pointOf (ratio m q).1 (ratio m q).2 + k)
    (hmost : pointOf (ratio m q).1 (ratio m q).2 + k ≤ 17) :
    ∃ n e, shortest? m q = some (n, e) ∧ -(k : Int) ≤ e ∧ n * 10 ^ (e + k).toNat = N := by
  have hsome := onGrid?_isSome hm hk hunit h
  set num := (ratio m q).1
  set den := (ratio m q).2
  set point := pointOf num den
  set f : Nat → Option (Nat × Int) := fun i =>
    (onGrid? m q num den (point - (i + 1 : Nat))).map (·, point - (i + 1 : Nat)) with hf
  have hshortest : shortest? m q = (List.range 17).findSome? f := rfl
  -- The places are tried from the left, and the last one of the decimal is among them.
  obtain ⟨i, hi⟩ : ∃ i : Nat, (i : Int) = point + k - 1 := ⟨(point + k - 1).toNat, by omega⟩
  have hlast : (f i).isSome = true := by
    have he : point - ((i + 1 : Nat) : Int) = -(k : Int) := by push_cast; omega
    simp only [hf, he, Option.isSome_map]
    exact hsome
  have hrange : List.range 17 = List.range (i + 1) ++ (List.range (16 - i)).map (i + 1 + ·) := by
    rw [← List.range_add]
    congr 1
    omega
  have hfirst : ((List.range (i + 1)).findSome? f).isSome = true :=
    List.findSome?_isSome_iff.mpr ⟨i, by simp, hlast⟩
  obtain ⟨found, hfound⟩ := Option.isSome_iff_exists.mp hfirst
  obtain ⟨j, hj, hfj⟩ := List.exists_of_findSome?_eq_some hfound
  obtain ⟨n, hn, rfl⟩ := Option.map_eq_some_iff.mp hfj
  have hj : j ≤ i := by simpa [Nat.lt_succ_iff] using hj
  refine ⟨n, point - (j + 1 : Nat), ?_, by push_cast; omega, ?_⟩
  · rw [hshortest, hrange, List.findSome?_append, hfound]
    rfl
  · exact eq_of_near hunit (by push_cast; omega) (near_of_readsBack hm (readsBack_of_onGrid? hn))
      (near_of_readsBack hm h)

theorem leadingZeros_le {j : Nat} (h : den ≤ num * 10 ^ (j + 1)) :
    leadingZeros num den ≤ j := by
  unfold leadingZeros
  cases hfound : (List.range 400).find? fun j => num * Nat.pow 10 (j + 1) ≥ den with
  | none => exact Nat.zero_le _
  | some i =>
    obtain ⟨-, -, hfirst⟩ := List.find?_range_eq_some.mp hfound
    by_contra hmore
    have hnot := hfirst j (by simpa using hmore)
    simp at hnot
    omega

/-! ### Decimals of at most fifteen digits -/

/-- A decimal of `k` places with at most fifteen digits, of which the first place is not zero. -/
structure Short (N k : Nat) : Prop where
  places : 0 < k
  low : 10 ^ k ≤ 10 * N
  high : N < 10 ^ 15

namespace Short

theorem places_le (h : Short N k) : k ≤ 15 := by
  by_contra hmore
  have hpower : 10 ^ 16 ≤ 10 ^ k := Nat.pow_le_pow_right (by decide) (by omega)
  have hlow := h.low
  have hhigh := h.high
  omega

theorem pos (h : Short N k) : 0 < N := by
  have hlow := h.low
  have hpower : 0 < 10 ^ k := Nat.pow_pos (by decide)
  omega

theorem ratio_bounds (h : Short N k) :
    (1 : ℚ) / 10 ≤ (N : ℚ) / 10 ^ k ∧ (N : ℚ) / 10 ^ k * 10 ^ k < 10 ^ 15 := by
  have hpos : (0 : ℚ) < 10 ^ k := by positivity
  have hlow : (10 : ℚ) ^ k ≤ 10 * N := by exact_mod_cast h.low
  constructor
  · rw [le_div_iff₀ hpos]
    linarith
  · rw [div_mul_cancel₀ _ hpos.ne']
    exact_mod_cast h.high

/-- It is rounded to a number whose units are smaller than its last place. -/
theorem ofDecimal (h : Short N k) : ∃ m q, ofDecimal false N (-(k : Int)) = .finite false m q ∧
    m ≠ 0 ∧ (2 : ℚ) ^ q * 10 ^ k < 1 := by
  have hk := h.places
  have hplaces := h.places_le
  have hpos : (0 : ℚ) < 10 ^ k := by positivity
  obtain ⟨hlow, hhigh⟩ := h.ratio_bounds
  have hcommon : (N : ℚ) / 10 ^ k < 2 ^ 200 := by
    have hmost : (N : ℚ) < 10 ^ 15 := by exact_mod_cast h.high
    have hdiv : (N : ℚ) / 10 ^ k ≤ N :=
      div_le_self (Nat.cast_nonneg N) (one_le_pow₀ (by norm_num))
    have hpower : (10 : ℚ) ^ 15 < 2 ^ 200 := by norm_num
    linarith
  have hcount : digitCount N ≤ 15 := (Nat.length_toDigits_le_iff (by decide) (by decide)).mpr h.high
  have hratio : Binary64.ofDecimal false N (-(k : Int)) = ofRatio false N (10 ^ k) := by
    have hsmall : ¬ (N == 0 || decide (-(k : Int) + digitCount N < -400)) = true := by
      have hN := h.pos
      simp
      omega
    rw [Binary64.ofDecimal, if_neg hsmall, if_neg (by omega), if_pos (by omega)]
    simp
  have hden : 0 < 10 ^ k := Nat.pow_pos (by decide)
  have hleast : 1 / 16 ≤ (N : ℚ) / (10 ^ k : Nat) := by
    push_cast
    linarith
  obtain ⟨m, q, hm, hnormal⟩ := ofRatio_normal false hden hleast (by push_cast; linarith)
  have hnear := ofRatio_near hden hm
  have hne : m ≠ 0 := by omega
  refine ⟨m, q, hratio.trans hm, hne, ?_⟩
  -- The significand has 53 bits, and the decimal is less than `10 ^ 15` of its last places.
  have hunit : (0 : ℚ) < 2 ^ q := zpow_pos (by norm_num) q
  have hsignificand : (2 : ℚ) ^ 52 * 2 ^ q ≤ value m q := by
    rw [value]
    exact mul_le_mul_of_nonneg_right (by exact_mod_cast hnormal) hunit.le
  push_cast at hnear
  have hclose := (abs_le.mp hnear).1
  have hbound : (2 ^ 52 * 2 ^ q - 2 ^ q / 2) * 10 ^ k ≤ (N : ℚ) / 10 ^ k * 10 ^ k :=
    mul_le_mul_of_nonneg_right (by linarith) hpos.le
  linarith

/-- There are no more zeros after its point than it has places. -/
theorem one_le_point (h : Short N k) (hx : Binary64.ofDecimal false N (-(k : Int)) = .finite false m q)
    (hnear : |(N : ℚ) - value m q * 10 ^ k| < 1 / 2) :
    1 ≤ pointOf (ratio m q).1 (ratio m q).2 + k := by
  have hk := h.places
  obtain ⟨hden, hvalue⟩ := ratio_value m q
  have hdenpos : (0 : ℚ) < (ratio m q).2 := by exact_mod_cast hden
  unfold pointOf
  split
  · omega
  -- The number is at least one of the last places: one tenth is rounded up.
  have hone : 1 ≤ value m q * 10 ^ k := by
    obtain hN | hN := Nat.lt_or_ge N 2
    · have hN : N = 1 := by have hpos := h.pos; omega
      have hk : k = 1 := by
        have hlow := h.low
        rw [hN] at hlow
        exact Nat.le_antisymm ((Nat.pow_le_pow_iff_right (by decide)).mp hlow) hk
      subst hN hk
      have htenth : Binary64.ofDecimal false 1 (-1) = .finite false 7205759403792794 (-56) := by
        decide
      obtain ⟨-, rfl, rfl⟩ := Binary64.finite.inj (htenth.symm.trans hx)
      rw [value]
      norm_num
    · have hN : (2 : ℚ) ≤ N := by exact_mod_cast hN
      linarith [(abs_lt.mp hnear).2]
  have hplace : (ratio m q).2 ≤ (ratio m q).1 * 10 ^ (k - 1 + 1) := by
    rw [Nat.sub_add_cancel hk]
    rw [← hvalue, div_mul_eq_mul_div, le_div_iff₀ hdenpos, one_mul] at hone
    exact_mod_cast hone
  have hzeros := leadingZeros_le hplace
  omega

theorem point_le (h : Short N k) (hnear : |(N : ℚ) - value m q * 10 ^ k| < 1 / 2) :
    pointOf (ratio m q).1 (ratio m q).2 + k ≤ 17 := by
  have hplaces := h.places_le
  obtain ⟨hden, hvalue⟩ := ratio_value m q
  have hdenpos : (0 : ℚ) < (ratio m q).2 := by exact_mod_cast hden
  unfold pointOf
  split
  · have hless : value m q < 10 ^ (17 - k) := by
      have hpos : (0 : ℚ) < 10 ^ k := by positivity
      have hpower : (10 : ℚ) ^ (17 - k) * 10 ^ k = 10 ^ 17 := by
        rw [← pow_add]
        congr 1
        omega
      have hN : (N : ℚ) < 10 ^ 15 := by exact_mod_cast h.high
      rw [← mul_lt_mul_iff_left₀ hpos, hpower]
      linarith [(abs_lt.mp hnear).1]
    rw [← hvalue, div_lt_iff₀ hdenpos] at hless
    have hdigits : digitCount ((ratio m q).1 / (ratio m q).2) ≤ 17 - k := by
      refine (Nat.length_toDigits_le_iff (by decide) (by omega)).mpr ?_
      rw [Nat.div_lt_iff_lt_mul hden]
      exact_mod_cast hless
    omega
  · omega

/-- The fewest digits that read back spell it. -/
theorem shortest? (h : Short N k)
    (hx : Binary64.ofDecimal false N (-(k : Int)) = .finite false m q) (hm : m ≠ 0)
    (hunit : (2 : ℚ) ^ q * 10 ^ k < 1) :
    ∃ n e, Binary64.shortest? m q = some (n, e) ∧ -(k : Int) ≤ e ∧
      n * 10 ^ (e + k).toNat = N := by
  have hreads : readsBack m q N (-(k : Int)) = true := by
    rw [readsBack, hx]
    exact beq_self_eq_true _
  have hnear := scaled_near hm hunit hreads
  exact shortest?_of_readsBack hm h.places hunit hreads (h.one_le_point hx hnear) (h.point_le hnear)

end Short

end RailsUpgrade.Binary64
