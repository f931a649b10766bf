import Mathlib.Data.Char
import Mathlib.Data.List.Basic
import Mathlib.Data.List.Lex
import RailsUpgrade.Ordered

/-!
# `RailsUpgrade.Proofs.Ordered`: lists without repetitions

`addNew` keeps the order in which members come up, so its laws are those of a set with an order:

* `mem_addNew`, `mem_distinct`: no member is lost and none is made up;
* `nodup_addNew`, `nodup_distinct`: no member comes twice;
* `mem_sortedTexts`, `nodup_sortedTexts`: sorting moves texts and changes none;
* `pairwise_sortedTexts`: what is sorted stands in order;
* `sortedTexts_congr`: the members determine the order.
-/

set_option autoImplicit false

namespace RailsUpgrade

section
variable {α : Type} [BEq α]

theorem addNew_cons (seen : List α) (x : α) (xs : List α) :
    addNew seen (x :: xs) = addNew (if seen.contains x then seen else seen ++ [x]) xs :=
  rfl

variable [LawfulBEq α]

/-- Members come from either list. -/
theorem mem_addNew (x : α) (seen more : List α) : x ∈ addNew seen more ↔ x ∈ seen ∨ x ∈ more := by
  induction more generalizing seen with
  | nil => simp [addNew]
  | cons y more ih =>
    rw [addNew_cons, ih]
    by_cases hy : seen.contains y
    · have hmem : y ∈ seen := by simpa using hy
      simp only [hy, if_true, List.mem_cons]
      constructor
      · rintro (h | h) <;> simp [h]
      · rintro (h | rfl | h) <;> simp [*]
    · simp only [hy, Bool.false_eq_true, if_false, List.mem_append, List.mem_cons,
        List.not_mem_nil, or_false, or_assoc]

theorem mem_distinct (x : α) (xs : List α) : x ∈ distinct xs ↔ x ∈ xs := by
  simp [distinct, mem_addNew]

theorem nodup_addNew (seen more : List α) (h : seen.Nodup) : (addNew seen more).Nodup := by
  induction more generalizing seen with
  | nil => exact h
  | cons y more ih =>
    rw [addNew_cons]
    apply ih
    by_cases hy : seen.contains y
    · rw [if_pos hy]
      exact h
    · have hmem : y ∉ seen := by simpa using hy
      rw [if_neg hy, List.nodup_append]
      refine ⟨h, by simp, ?_⟩
      intro a ha b hb
      rw [List.mem_singleton] at hb
      exact fun hab => hmem (hb ▸ hab ▸ ha)

theorem nodup_distinct (xs : List α) : (distinct xs).Nodup :=
  nodup_addNew [] xs List.nodup_nil

end

theorem mem_sortedTexts (x : String) (xs : List String) : x ∈ sortedTexts xs ↔ x ∈ xs :=
  (List.mergeSort_perm xs _).mem_iff

theorem nodup_sortedTexts (xs : List String) (h : xs.Nodup) : (sortedTexts xs).Nodup :=
  (List.mergeSort_perm xs _).nodup_iff.mpr h

theorem comesBefore_iff_lt (s t : List Char) : comesBefore s t = true ↔ s < t := by
  fun_induction comesBefore s t with
  | case1 s => simp
  | case2 => simp
  | case3 a as b bs ih =>
    have htoNat : a.toNat < b.toNat ↔ a < b := Iff.rfl
    have heq : a.toNat = b.toNat ↔ a = b := ⟨fun h => Char.toNat_inj.mp h, congrArg _⟩
    simp [List.cons_lt_cons_iff, ih, htoNat, heq]

/-- Sorted texts stand in order. -/
theorem pairwise_sortedTexts (xs : List String) :
    (sortedTexts xs).Pairwise fun a b => a.toList ≤ b.toList := by
  have hle : ∀ a b : String, (!comesBefore b.toList a.toList) = true ↔ a.toList ≤ b.toList := by
    intro a b
    rw [Bool.not_eq_true', ← Bool.not_eq_true, comesBefore_iff_lt, not_lt]
  have hsorted : (sortedTexts xs).Pairwise fun a b => (!comesBefore b.toList a.toList) = true := by
    apply List.pairwise_mergeSort
    · intro a b c hab hbc
      rw [hle] at hab hbc ⊢
      exact hab.trans hbc
    · intro a b
      rw [Bool.or_eq_true, hle, hle]
      exact le_total _ _
  exact hsorted.imp fun hab => (hle _ _).mp hab

/-- Texts without repetitions are sorted in one way only. -/
theorem sortedTexts_congr {xs ys : List String} (hxs : xs.Nodup) (hys : ys.Nodup)
    (h : ∀ x, x ∈ xs ↔ x ∈ ys) : sortedTexts xs = sortedTexts ys := by
  have hperm : (sortedTexts xs).Perm (sortedTexts ys) :=
    (List.mergeSort_perm xs _).trans
      (((List.perm_ext_iff_of_nodup hxs hys).mpr h).trans (List.mergeSort_perm ys _).symm)
  refine hperm.eq_of_pairwise (fun a b _ _ hab hba => ?_) (pairwise_sortedTexts xs)
    (pairwise_sortedTexts ys)
  exact String.toList_inj.mp (le_antisymm hab hba)

end RailsUpgrade
