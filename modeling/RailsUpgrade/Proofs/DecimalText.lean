import RailsUpgrade.Proofs.ShortDecimals

/-!
# `RailsUpgrade.Proofs.DecimalText`: short decimals as texts

A decimal of at most fifteen digits is rounded to a binary number, and the fewest digits that read back as
this number are its own. So it is written as it was read, but for the zeros at its end:

* `withoutZeros`: a number without the zeros at its end;
* `toDigits_append`, `toDigits_mul_pow`: the digits of two numbers behind each other, and of a number
  with zeros at its end;
* `Short.text`: a short decimal is written with its own digits;
* `text_ofParts`: the text of a decimal with two numbers in front of its point and after it.
-/

set_option autoImplicit false

namespace RailsUpgrade

/-! ### Digits -/

/-- A number without the zeros at its end. -/
def withoutZeros (n : Nat) : Nat :=
  if n ≠ 0 ∧ 10 ∣ n then withoutZeros (n / 10) else n
termination_by n
decreasing_by omega

theorem withoutZeros_le (n : Nat) : withoutZeros n ≤ n := by
  induction n using withoutZeros.induct with
  | case1 n h ih =>
    rw [withoutZeros, if_pos h]
    omega
  | case2 n h =>
    rw [withoutZeros, if_neg h]

theorem withoutZeros_eq_self_iff (n : Nat) : withoutZeros n = n ↔ (10 ∣ n → n = 0) := by
  rw [withoutZeros]
  split
  · rename_i h
    have hle := withoutZeros_le (n / 10)
    constructor
    · intro heq
      omega
    · exact fun himp => absurd (himp h.2) h.1
  · simp only [true_iff]
    tauto

/-- Only zeros are left out, and all of them. -/
theorem exists_withoutZeros {n : Nat} (hn : n ≠ 0) :
    ∃ z, n = withoutZeros n * 10 ^ z ∧ ¬ 10 ∣ withoutZeros n := by
  induction n using withoutZeros.induct with
  | case1 n h ih =>
    obtain ⟨z, hz, hlast⟩ := ih (by omega)
    rw [withoutZeros, if_pos h]
    refine ⟨z + 1, ?_, hlast⟩
    rw [pow_succ, ← Nat.mul_assoc, ← hz, Nat.div_mul_cancel h.2]
  | case2 n h =>
    rw [withoutZeros, if_neg h]
    exact ⟨0, (Nat.mul_one n).symm, fun hdvd => h ⟨hn, hdvd⟩⟩

theorem toDigits_mul_pow {d : Nat} (hd : 0 < d) (z : Nat) :
    Nat.toDigits 10 (d * 10 ^ z) = Nat.toDigits 10 d ++ List.replicate z '0' := by
  induction z with
  | zero => simp
  | succ z ih =>
    have hstep : d * 10 ^ (z + 1) = 10 * (d * 10 ^ z) + 0 := by ring
    rw [hstep, ← Nat.toDigits_append_toDigits (by decide) (by positivity) (by decide), ih,
      List.append_assoc, List.replicate_succ']
    rfl

/-- The digits of two numbers behind each other. -/
theorem toDigits_append {a : Nat} (ha : 0 < a) (b : Nat) :
    Nat.toDigits 10 (a * 10 ^ (Nat.toDigits 10 b).length + b) =
      Nat.toDigits 10 a ++ Nat.toDigits 10 b := by
  induction b using Nat.strong_induction_on with
  | _ b ih =>
    obtain hb | hb := Nat.lt_or_ge b 10
    · rw [Nat.toDigits_of_lt_base hb, List.length_singleton, ← Nat.toDigits_of_lt_base hb,
        Nat.toDigits_append_toDigits (by decide) ha hb, pow_one, Nat.mul_comm]
    · have hdigits := Nat.toDigits_of_base_le (by decide : 1 < 10) hb
      have hstep : a * 10 ^ (Nat.toDigits 10 b).length + b =
          10 * (a * 10 ^ (Nat.toDigits 10 (b / 10)).length + b / 10) + b % 10 := by
        rw [hdigits, List.length_append, List.length_singleton, pow_succ, Nat.mul_add,
          Nat.add_assoc, Nat.div_add_mod]
        ring
      have hlast : b % 10 < 10 := Nat.mod_lt b (by decide)
      rw [hstep, ← Nat.toDigits_append_toDigits (by decide) (by positivity) hlast,
        ih (b / 10) (by omega), hdigits, Nat.toDigits_of_lt_base hlast, List.append_assoc]

theorem digitChar_ne_zero {r : Nat} (hr : r < 10) (hne : r ≠ 0) : r.digitChar ≠ '0' := by
  have hall : ∀ r < 10, r ≠ 0 → r.digitChar ≠ '0' := by decide
  exact hall r hr hne

/-- Zeros at the end are taken off the digits of a number that has none there itself. -/
theorem strip_toDigits {d : Nat} (hd : ¬ 10 ∣ d) (t : Nat) :
    (((Nat.toDigits 10 d ++ List.replicate t '0').reverse.dropWhile (· == '0')).reverse) =
      Nat.toDigits 10 d := by
  obtain ⟨rest, last, hdigits, hlast⟩ : ∃ rest last, Nat.toDigits 10 d = rest ++ [last] ∧
      last ≠ '0' := by
    obtain hsmall | hlarge := Nat.lt_or_ge d 10
    · refine ⟨[], d.digitChar, Nat.toDigits_of_lt_base hsmall, digitChar_ne_zero hsmall ?_⟩
      rintro rfl
      exact hd (dvd_zero 10)
    · refine ⟨_, _, Nat.toDigits_of_base_le (by decide) hlarge, ?_⟩
      exact digitChar_ne_zero (Nat.mod_lt d (by decide)) fun hmod => hd (Nat.dvd_of_mod_eq_zero hmod)
  rw [List.reverse_append, List.reverse_replicate, List.dropWhile_append_of_pos (by simp), hdigits]
  simp [hlast]

theorem digitCount_mul_pow {d : Nat} (hd : 0 < d) (z : Nat) :
    Binary64.digitCount (d * 10 ^ z) = Binary64.digitCount d + z := by
  rw [Binary64.digitCount, toDigits_mul_pow hd, List.length_append, List.length_replicate]
  rfl

theorem digitCount_append {a : Nat} (ha : 0 < a) (b : Nat) :
    Binary64.digitCount (a * 10 ^ Binary64.digitCount b + b) =
      Binary64.digitCount a + Binary64.digitCount b := by
  simp only [Binary64.digitCount]
  rw [toDigits_append ha, List.length_append]

namespace Binary64

variable {m n N d k t u : Nat} {q e : Int}

theorem lt_pow_digitCount (n : Nat) : n < 10 ^ digitCount n :=
  (Nat.length_toDigits_le_iff (by decide) Nat.length_toDigits_pos).mp (Nat.le_refl _)

theorem pow_le_of_digitCount {n : Nat} (hn : n ≠ 0) : 10 ^ digitCount n ≤ 10 * n := by
  have hpos : 0 < digitCount n := Nat.length_toDigits_pos
  obtain ⟨c, hc⟩ := Nat.exists_eq_add_one_of_ne_zero hpos.ne'
  rw [hc, Nat.pow_succ, Nat.mul_comm]
  refine Nat.mul_le_mul_left 10 ?_
  by_contra hless
  obtain hc | hc := Nat.eq_zero_or_pos c
  · subst hc
    omega
  · have hle := (Nat.length_toDigits_le_iff (by decide) hc).mpr (not_le.mp hless)
    rw [← digitCount] at hle
    omega

/-! ### Texts -/

/-- A number is written with the digits that spell it. -/
theorem text_of_shortest? (hm : m ≠ 0) (h : shortest? m q = some (d * 10 ^ t, e)) (hpos : 0 < d)
    (hd : ¬ 10 ∣ d) (hlow : -4 < e + t + digitCount d) (hhigh : e + t + digitCount d ≤ 16) :
    (Binary64.finite false m q).text =
      String.ofList (placed (Nat.toDigits 10 d) (e + t + digitCount d)) := by
  have hpoint : e + (Nat.toDigits 10 (d * 10 ^ t)).length = e + t + digitCount d := by
    have hcount := digitCount_mul_pow hpos t
    rw [digitCount] at hcount
    rw [hcount]
    push_cast
    ring
  have hplain : ¬ (decide (e + t + digitCount d ≤ -4) || decide (e + t + digitCount d > 16)) = true := by
    simp
    omega
  rw [text, if_neg Bool.false_ne_true, if_neg (by simpa using hm), h]
  simp only [hpoint]
  rw [toDigits_mul_pow hpos, strip_toDigits hd, if_neg hplain]

/-- A short decimal is written with its digits, the zeros at its end left out. -/
theorem Short.text (h : Short (d * 10 ^ u) k) (hd : ¬ 10 ∣ d) :
    (Binary64.ofDecimal false (d * 10 ^ u) (-(k : Int))).text =
      String.ofList (placed (Nat.toDigits 10 d) ((u : Int) - k + digitCount d)) := by
  have hpos : 0 < d := Nat.pos_of_mul_pos_right h.pos
  obtain ⟨m, q, hx, hm, hunit⟩ := h.ofDecimal
  obtain ⟨n, e, hshortest, he, hn⟩ := h.shortest? hx hm hunit
  -- The digits that were found may lack some of the zeros.
  have hzeros : (e + k).toNat ≤ u := by
    by_contra hmore
    refine hd (dvd_trans (dvd_pow_self 10 (n := (e + k).toNat - u) (by omega)) (dvd_of_mul_left_eq n ?_))
    refine Nat.eq_of_mul_eq_mul_right (Nat.pow_pos (n := u) (by decide : 0 < 10)) ?_
    rw [← hn, Nat.mul_assoc, ← pow_add, Nat.sub_add_cancel (by omega)]
  have hn : n = d * 10 ^ (u - (e + k).toNat) := by
    refine Nat.eq_of_mul_eq_mul_right (Nat.pow_pos (n := (e + k).toNat) (by decide : 0 < 10)) ?_
    rw [hn, Nat.mul_assoc, ← pow_add, Nat.sub_add_cancel hzeros]
  have hpoint : e + (u - (e + k).toNat : Nat) + digitCount d = (u : Int) - k + digitCount d := by
    omega
  have hcount := digitCount_mul_pow hpos u
  have hleast : k ≤ digitCount (d * 10 ^ u) := by
    have hless : 10 ^ k < 10 ^ (digitCount (d * 10 ^ u) + 1) := by
      rw [pow_succ]
      have hlow := h.low
      have hcount := lt_pow_digitCount (d * 10 ^ u)
      omega
    have hexponent := (Nat.pow_lt_pow_iff_right (by decide)).mp hless
    omega
  have hmost : digitCount (d * 10 ^ u) ≤ 15 :=
    (Nat.length_toDigits_le_iff (by decide) (by decide)).mpr h.high
  subst hn
  rw [hx, text_of_shortest? hm hshortest hpos hd (by omega) (by omega), hpoint]

/-- The decimal with two numbers in front of its point and after it. -/
def ofParts (a b : Nat) : Binary64 :=
  Binary64.ofDecimal false (a * 10 ^ digitCount b + b) (-(digitCount b : Int))

theorem short_ofParts {a b : Nat} (hsize : digitCount a + digitCount b ≤ 15) (hne : a ≠ 0 ∨ b ≠ 0) :
    Short (a * 10 ^ digitCount b + b) (digitCount b) := by
  have ha := lt_pow_digitCount a
  have hb := lt_pow_digitCount b
  refine ⟨Nat.length_toDigits_pos, ?_, ?_⟩
  · by_cases hzero : a = 0
    · have hleast := pow_le_of_digitCount (hne.resolve_left (not_not_intro hzero))
      omega
    · have hmul := Nat.mul_le_mul_right (10 ^ digitCount b) (Nat.one_le_iff_ne_zero.mpr hzero)
      omega
  · calc a * 10 ^ digitCount b + b < (a + 1) * 10 ^ digitCount b := by
          rw [Nat.add_mul]
          omega
      _ ≤ 10 ^ digitCount a * 10 ^ digitCount b := Nat.mul_le_mul_right _ ha
      _ = 10 ^ (digitCount a + digitCount b) := (pow_add _ _ _).symm
      _ ≤ 10 ^ 15 := Nat.pow_le_pow_right (by decide) hsize

theorem ofList_parts (a b : Nat) :
    String.ofList (Nat.toDigits 10 a ++ '.' :: Nat.toDigits 10 b) =
      toString a ++ "." ++ toString b := by
  refine String.toList_inj.mp ?_
  rw [String.toList_ofList, String.toList_append, String.toList_append, Text.toList_toString,
    Text.toList_toString, List.append_assoc]
  rfl

/-- Without digits after the point, a zero stands there. -/
theorem placed_whole {d z : Nat} (hd : 0 < d) : placed (Nat.toDigits 10 d) ((z : Int) + digitCount d) =
    Nat.toDigits 10 (d * 10 ^ z) ++ '.' :: Nat.toDigits 10 0 := by
  have hpos : 0 < (Nat.toDigits 10 d).length := Nat.length_toDigits_pos
  rw [digitCount, placed, if_neg (by omega), if_pos (by omega), toDigits_mul_pow hd]
  have hzeros : ((z : Int) + (Nat.toDigits 10 d).length).toNat - (Nat.toDigits 10 d).length = z := by
    omega
  rw [hzeros]
  rfl

/-- The point stands behind the digits of the first number. -/
theorem placed_parts (a b : Nat) :
    placed (Nat.toDigits 10 (a * 10 ^ digitCount b + b))
        ((digitCount (a * 10 ^ digitCount b + b) : Int) - digitCount b) =
      Nat.toDigits 10 a ++ '.' :: Nat.toDigits 10 b := by
  obtain rfl | ha := Nat.eq_zero_or_pos a
  · rw [Nat.zero_mul, Nat.zero_add, sub_self]
    rfl
  · have hpos : 0 < digitCount a := Nat.length_toDigits_pos
    have hposb : 0 < digitCount b := Nat.length_toDigits_pos
    have hpoint : (digitCount (a * 10 ^ digitCount b + b) : Int) - digitCount b = digitCount a := by
      rw [digitCount_append ha]
      push_cast
      ring
    have hdigits : Nat.toDigits 10 (a * 10 ^ digitCount b + b) =
        Nat.toDigits 10 a ++ Nat.toDigits 10 b := toDigits_append ha b
    rw [hpoint, hdigits, placed, if_neg (by omega), if_neg]
    · rw [Int.toNat_natCast, digitCount, List.take_left, List.drop_left]
    · rw [List.length_append, ← digitCount, ← digitCount]
      omega

/-- A decimal of at most fifteen digits is written as it was read, but for the zeros at its end. -/
theorem text_ofParts {a b : Nat} (hsize : digitCount a + digitCount b ≤ 15) :
    (ofParts a b).text = toString a ++ "." ++ toString (withoutZeros b) := by
  obtain rfl | hb := eq_or_ne b 0
  -- Without digits behind the point the zeros at the end of the whole number are written as well.
  · have hzero : withoutZeros 0 = 0 := (withoutZeros_eq_self_iff 0).mpr fun _ => rfl
    rw [hzero, ← ofList_parts]
    obtain rfl | ha := eq_or_ne a 0
    · rfl
    · obtain ⟨z, hz, hlast⟩ := exists_withoutZeros ha
      have hone : digitCount 0 = 1 := rfl
      have hN : a * 10 ^ digitCount 0 + 0 = withoutZeros a * 10 ^ (z + 1) := by
        rw [hone, pow_one, Nat.add_zero, pow_succ, ← Nat.mul_assoc, ← hz]
      have hshort := short_ofParts hsize (.inl ha)
      rw [ofParts, hN] at *
      have hpos : 0 < withoutZeros a := Nat.pos_of_mul_pos_right hshort.pos
      rw [hshort.text hlast, hone]
      have hpoint : ((z + 1 : Nat) : Int) - (1 : Nat) + digitCount (withoutZeros a) =
          (z : Int) + digitCount (withoutZeros a) := by
        push_cast
        ring
      rw [hpoint, placed_whole hpos, ← hz]
  -- Otherwise the zeros at the end are those of the digits behind the point.
  · obtain ⟨z, hz, hlast⟩ := exists_withoutZeros hb
    set c := withoutZeros b
    have hpos : 0 < c := by
      rw [Nat.pos_iff_ne_zero]
      rintro hc
      exact hlast (hc ▸ dvd_zero 10)
    have hcount : digitCount b = digitCount c + z := by
      rw [hz, digitCount_mul_pow hpos]
    have hN : a * 10 ^ digitCount b + b = (a * 10 ^ digitCount c + c) * 10 ^ z := by
      rw [hcount, Nat.add_mul, ← hz, pow_add, Nat.mul_assoc]
    have hd : ¬ 10 ∣ a * 10 ^ digitCount c + c := fun hdvd => by
      have hten : 10 ∣ a * 10 ^ digitCount c :=
        Dvd.dvd.mul_left (dvd_pow_self 10 (Nat.length_toDigits_pos).ne') a
      exact hlast ((Nat.dvd_add_right hten).mp hdvd)
    have hshort := short_ofParts hsize (.inr hb)
    rw [ofParts, hN] at *
    rw [hshort.text hd, ← ofList_parts, ← placed_parts, hcount]
    congr 2
    push_cast
    ring

end Binary64

end RailsUpgrade
