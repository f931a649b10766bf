import Mathlib.Data.Prod.Lex
import RailsUpgrade.Proofs.Analysis

/-!
# `RailsUpgrade.Proofs.Raising`: an analysis for a later release

A rule that asks for a release or a later one stays active when the target is raised. If all
constraints of a registry are of this kind, as those of the library are, then an analysis for a later
target reports all that it reports for an earlier one, in the same order.

* `Version.before_iff`: the order of versions is that of their numbers;
* `Constraint.Rising`: constraints that only ask for later releases;
* `Constraint.Rising.admits`: raising the target keeps them met;
* `sublist_scanned`: what such a registry finds in a tree for two targets;
* `rising_stock`: the constraints of the library;
* `sublist_analyze`: two analyses with the rules of the library.
-/

set_option autoImplicit false

namespace RailsUpgrade

/-! ### The order of versions -/

namespace Version

variable {a b c : Version} {text : String}

/-- The numbers of a version, the most significant one first. -/
def key (v : Version) : ℕ ×ₗ ℕ ×ₗ ℕ := toLex (v.major, toLex (v.minor, v.patch))

theorem key_inj : a.key = b.key ↔ a = b := by
  cases a
  cases b
  simp [key]

/-- The order of versions is that of their numbers. -/
theorem before_iff : a.before b = true ↔ a.key < b.key := by
  simp [before, key, Prod.Lex.toLex_lt_toLex]

theorem not_before_iff : a.before b = false ↔ b.key ≤ a.key := by
  rw [← Bool.not_eq_true, before_iff, not_lt]

/-- A text that is a version has no number that is too long. -/
theorem overlong?_of_parse (h : parse text = .ok a) : overlong? text = none := by
  rw [overlong?, h]

theorem parse?_of_parse (h : parse text = .ok a) : parse? text = some a := by
  rw [parse?, h]
  rfl

end Version

/-! ### Constraints that ask for later releases -/

namespace Constraint

/-- A constraint that asks for a version or a later one. -/
def Rising (c : Constraint) : Prop :=
  ∃ comparison wanted, c.parse? = some (comparison, wanted) ∧
    (comparison = .atLeast ∨ comparison = .above)

variable {c : Constraint} {target later : String} {v w : Version}

/-- A target that is raised still meets the constraint. -/
theorem Rising.admits (h : c.Rising) (hv : Version.parse target = .ok v)
    (hw : Version.parse later = .ok w) (hle : w.before v = false)
    (hmet : c.admits (some target) = true) : c.admits (some later) = true := by
  obtain ⟨comparison, wanted, hparse, hkind⟩ := h
  simp only [Constraint.admits, hparse, Version.parse?_of_parse hv, Version.parse?_of_parse hw,
    Option.any_some] at hmet ⊢
  rw [Version.not_before_iff] at hle
  rcases hkind with rfl | rfl
  · simp only [Comparison.holds, Bool.not_eq_true', Version.not_before_iff] at hmet ⊢
    exact hmet.trans hle
  · simp only [Comparison.holds, Version.before_iff] at hmet ⊢
    exact hmet.trans_le hle

/-- A constraint that is understood is compared with every target that is a version. -/
theorem Rising.overlong? (h : c.Rising) (hv : Version.parse target = .ok v) :
    c.overlong? (some target) = none := by
  obtain ⟨comparison, wanted, hparse, -⟩ := h
  have hversion : c.overlongVersion? = none := by
    simp only [Constraint.parse?, bind, Option.bind_eq_some_iff, Option.some.injEq,
      pure] at hparse
    obtain ⟨p, hpair, version, hp, -⟩ := hparse
    rw [overlongVersion?, hpair, Option.bind_some, Version.overlong?]
    rw [Version.parse?] at hp
    cases hread : Version.parse p.2 with
    | ok _ => rfl
    | error fault => simp [hread, Except.toOption] at hp
  simp [Constraint.overlong?, hversion, hparse, Version.overlong?_of_parse hv]

end Constraint

/-! ### Two targets -/

/-- A registry all of whose constraints ask for later releases. -/
def Registry.Rising (r : Registry) : Prop :=
  ∀ d ∈ r.detections, ∀ c ∈ d.constraint, c.Rising

namespace Project

variable {registry : Registry} {t : Tree} {root : Root} {target later : String} {v w : Version}

theorem sublist_flatMap {α β : Type} {f g : α → List β} {xs : List α}
    (h : ∀ x ∈ xs, (f x).Sublist (g x)) : (xs.flatMap f).Sublist (xs.flatMap g) := by
  induction xs with
  | nil => exact List.Sublist.refl _
  | cons x xs ih =>
    obtain ⟨hx, hxs⟩ := List.forall_mem_cons.mp h
    exact hx.append (ih hxs)

/-- A detection finds the same for a later target, or nothing for the earlier one. -/
theorem sublist_findingsOf {d : Detection}
    (h : d.isActive (some target) = true → d.isActive (some later) = true) :
    (findingsOf t root (some target) d).Sublist (findingsOf t root (some later) d) := by
  unfold findingsOf
  by_cases hactive : d.isActive (some target) = true
  · rw [if_pos hactive, if_pos (h hactive)]
  · rw [if_neg hactive]
    exact List.nil_sublist _

/-- No number ends an analysis for a version. -/
theorem overlong?_of_rising (hrising : registry.Rising) (hv : Version.parse target = .ok v) :
    registry.detections.findSome? (overlong? (some target)) = none := by
  rw [List.findSome?_eq_none_iff]
  intro d hd
  rw [overlong?, Option.bind_eq_none_iff]
  exact fun c hc => (hrising d hd c hc).overlong? hv

theorem scanned_of_rising (hrising : registry.Rising) (hv : Version.parse target = .ok v) :
    scanned t root registry target =
      .ok (registry.detections.flatMap (findingsOf t root (some target))) := by
  rw [scanned, overlong?_of_rising hrising hv]

/-- What a registry finds for a target is found for a later one. -/
theorem sublist_scanned (hrising : registry.Rising) (hv : Version.parse target = .ok v)
    (hw : Version.parse later = .ok w) (hle : w.before v = false) :
    ∃ found more, scanned t root registry target = .ok found ∧
      scanned t root registry later = .ok more ∧ found.Sublist more := by
  refine ⟨_, _, scanned_of_rising hrising hv, scanned_of_rising hrising hw, ?_⟩
  refine sublist_flatMap fun d hd => sublist_findingsOf fun hactive => ?_
  unfold Detection.isActive at hactive ⊢
  cases hc : d.constraint with
  | none => rfl
  | some c =>
    rw [hc, Option.all_some] at hactive
    exact (hrising d hd c hc).admits hv hw hle hactive

/-! ### The rules of the library -/

theorem constraint_stock : ∀ d ∈ Registry.stock.detections,
    d.constraint = none ∨ d.constraint = Catalogue.from6 ∨ d.constraint = Catalogue.from7 := by
  decide

theorem rising_stock : Registry.stock.Rising := by
  intro d hd c hc
  rcases constraint_stock d hd with h | h | h <;> rw [h] at hc
  · cases hc
  · cases hc
    exact ⟨.atLeast, ⟨6, 0, 0⟩, by decide, .inl rfl⟩
  · cases hc
    exact ⟨.atLeast, ⟨7, 0, 0⟩, by decide, .inl rfl⟩

/-- An analysis for a version, and one for a later version, both end with a report, and the later one
has all findings of the earlier one, in the same order and as often. -/
theorem sublist_analyze (root : Root) (space : Workspace) {target later : String} {v w : Version}
    (hv : Version.parse target = .ok v) (hw : Version.parse later = .ok w)
    (hle : w.before v = false) :
    ∃ found more, (Run.exec (analyze root Registry.stock (some target)) space).1 = .ok found ∧
      (Run.exec (analyze root Registry.stock (some later)) space).1 = .ok more ∧
      found.Sublist more := by
  have htarget : ∀ {text : String} {u : Version}, Version.parse text = .ok u →
      analysisTarget space.tree root (some text) = text := by
    intro text u hu
    have hne : text ≠ "" := by
      rintro rfl
      rw [Version.parse_empty] at hu
      cases hu
    simp [analysisTarget, Option.filter, hne]
  rw [exec_analyze, exec_analyze, htarget hv, htarget hw]
  exact sublist_scanned rising_stock hv hw hle

/-- A file with a parameter that is reported from the sixth release on, and a query that is reported
from the seventh on. -/
def pluckSpace : Workspace where
  tree := { files :=
    [(["a.rb"], Text.encode "x.page(params[:page])\nx.pluck(:id).include? params[:id]".toList)] }

/-- The parameter is found for the sixth release. -/
theorem exists_pageParam : ∃ finding ∈ Registry.stock.detections.flatMap
      (findingsOf pluckSpace.tree ⟨[], "."⟩ (some " 6 ")),
    finding.file = "a.rb" ∧ finding.source = Catalogue.pageParam.source := by
  have hmem : Catalogue.deprecations[4] ∈ Registry.stock.detections := by
    simp only [Registry.stock, Catalogue.detections, List.append_assoc]
    exact List.mem_append_left _ (List.getElem_mem _)
  have hfound : Finding.mk "a.rb" Catalogue.deprecations[4].message Catalogue.pageParam.source ∈
      findingsOf pluckSpace.tree ⟨[], "."⟩ (some " 6 ") Catalogue.deprecations[4] := by
    decide +kernel
  exact ⟨_, List.mem_flatMap.mpr ⟨_, hmem, hfound⟩, rfl, rfl⟩

/-- Two ways to write a target, and a file in which the earlier analysis finds something. -/
theorem sublist_analyze_pluck :
    Version.parse " 6 " = .ok ⟨6, 0, 0⟩ ∧ Version.parse "7.0.0.1" = .ok ⟨7, 0, 0⟩ ∧
      (⟨7, 0, 0⟩ : Version).before ⟨6, 0, 0⟩ = false ∧
      ∃ found more, (Run.exec (analyze ⟨[], "."⟩ Registry.stock (some " 6 ")) pluckSpace).1 =
          .ok found ∧
        (Run.exec (analyze ⟨[], "."⟩ Registry.stock (some "7.0.0.1")) pluckSpace).1 = .ok more ∧
        found.Sublist more ∧
        ∃ finding ∈ found, finding.file = "a.rb" ∧ finding.source = Catalogue.pageParam.source := by
  have hv : Version.parse " 6 " = .ok ⟨6, 0, 0⟩ := by decide
  have hw : Version.parse "7.0.0.1" = .ok ⟨7, 0, 0⟩ := by decide
  have hle : (⟨7, 0, 0⟩ : Version).before ⟨6, 0, 0⟩ = false := by decide
  obtain ⟨found, more, hfound, hmore, hsub⟩ := sublist_analyze ⟨[], "."⟩ pluckSpace hv hw hle
  refine ⟨hv, hw, hle, found, more, hfound, hmore, hsub, ?_⟩
  have hscanned : scanned pluckSpace.tree ⟨[], "."⟩ Registry.stock " 6 " = .ok found :=
    (exec_analyze Registry.stock ⟨[], "."⟩ (some " 6 ") pluckSpace).symm.trans hfound
  rw [scanned_of_rising rising_stock hv] at hscanned
  obtain rfl := Except.ok.inj hscanned
  exact exists_pageParam

end Project

end RailsUpgrade
