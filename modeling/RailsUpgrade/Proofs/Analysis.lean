import RailsUpgrade.Proofs.Upgrade

/-!
# `RailsUpgrade.Proofs.Analysis`: an analysis and an upgrade of the same tree

An analysis and an upgrade look for the same, if they look for it with the same target. They read a
target that is given alike, with one exception: an empty target counts as none for an analysis, which
detects one, and is itself the target of an upgrade, which no rule with a constraint is active for.

* `scanned`: what a registry finds in a tree for a target, or the failure that this ends with;
* `exec_analyze`, `findings_upgrade_dry`, `findings_upgrade`: analyses and upgrades report it;
* `scanned_empty_iff`: what an empty target leaves out;
* `analyze_agrees_iff`: when an analysis and the upgrades with the same target report the same.
-/

set_option autoImplicit false

namespace RailsUpgrade

/-! ### The empty target -/

theorem Version.parse_empty : Version.parse "" = .error .notDotted := by decide

/-- An empty target meets no constraint. -/
theorem Constraint.admits_empty (c : Constraint) : c.admits (some "") = false := by
  unfold Constraint.admits
  cases c.parse? with
  | none => rfl
  | some wanted =>
    show (Version.parse? "").any _ = false
    rw [Version.parse?, Version.parse_empty]
    rfl

namespace Project

variable {registry : Registry} {root : Root} {t : Tree} {w w' : Workspace}

/-- What the detections of a registry find in a tree for a target. A number that is too long to
compare ends the scan. -/
def scanned (t : Tree) (root : Root) (registry : Registry) (target : String) :
    Except Failure (List Finding) :=
  match registry.detections.findSome? (overlong? (some target)) with
  | some number => .error (.overlong number)
  | none => .ok (registry.detections.flatMap (findingsOf t root (some target)))

/-- The target of an analysis. -/
def analysisTarget (t : Tree) (root : Root) (target : Option String) : String :=
  (target.filter (!·.isEmpty)).getD (detectTarget t root)

variable (root registry) in
/-- An analysis reports what is found for its target. -/
theorem exec_analyze (target : Option String) (w : Workspace) :
    (Run.exec (analyze root registry target) w).1 =
      scanned w.tree root registry (analysisTarget w.tree root target) := by
  obtain ⟨notices, hscan⟩ :=
    exec_scan root registry (some (analysisTarget w.tree root target)) w
  rw [analyze, Run.exec_tree_bind]
  exact congrArg Prod.fst hscan

variable (root registry) in
/-- A dry run reports what is found for its target, and nothing more. -/
theorem exec_upgrade_dry {o : Options} (hdry : o.dryRun = true) (w : Workspace) :
    (Run.exec (upgrade root registry o) w).1 =
      (scanned w.tree root registry (targetOf w.tree root o)).map Outcome.ofAnalysis := by
  obtain ⟨notices, hrun⟩ := exec_upgrade registry root o w
  rw [hrun, scanned]
  cases registry.detections.findSome? (overlong? (some (targetOf w.tree root o))) with
  | some number => rfl
  | none =>
    simp only [repair, hdry, if_true]
    rfl

/-- An upgrade that has an outcome reports what was found for its target before it began. -/
theorem findings_upgrade {o : Options} {outcome : Outcome}
    (h : (Run.exec (upgrade root registry o) w).1 = .ok outcome) :
    scanned w.tree root registry (targetOf w.tree root o) = .ok outcome.findings := by
  obtain ⟨notices, hrun⟩ := exec_upgrade registry root o w
  rw [hrun] at h
  rw [scanned]
  cases hlong : registry.detections.findSome? (overlong? (some (targetOf w.tree root o))) with
  | some number =>
    rw [hlong] at h
    cases h
  | none =>
    simp only [hlong] at h
    obtain ⟨w', hrepair⟩ : ∃ w', Run.exec (repair root registry
        { o with target := some (targetOf w.tree root o) } (foundIn w.tree root registry o))
        { w with notices } = (.ok outcome, w') := ⟨_, Prod.ext h rfl⟩
    by_cases hdry : o.dryRun = true
    · rw [repair, if_pos hdry] at hrepair
      cases hrepair
      rfl
    · rw [repair, if_neg hdry] at hrepair
      obtain ⟨fixes, w₁, -, hrepair⟩ := Run.exec_bind_eq_ok hrepair
      obtain ⟨updated, w₂, -, hrepair⟩ := Run.exec_bind_eq_ok hrepair
      cases hrepair
      rfl

/-- A number that is too long ends an upgrade before it has changed anything. -/
theorem upgrade_of_scanned_error {o : Options} {failure : Failure}
    (h : scanned w.tree root registry (targetOf w.tree root o) = .error failure) :
    (Run.exec (upgrade root registry o) w).1 = .error failure := by
  obtain ⟨notices, hrun⟩ := exec_upgrade registry root o w
  rw [hrun]
  rw [scanned] at h
  cases hlong : registry.detections.findSome? (overlong? (some (targetOf w.tree root o))) with
  | some number =>
    rw [hlong] at h
    cases h
    rfl
  | none =>
    rw [hlong] at h
    cases h

/-! ### What an empty target leaves out -/

/-- With an empty target only the detections without a constraint are tried, and they find what they
find for any target. -/
theorem findingsOf_empty (target : String) (d : Detection) :
    findingsOf t root (some "") d =
      if d.constraint = none then findingsOf t root (some target) d else [] := by
  have hactive : ∀ target, d.constraint = none → d.isActive target = true := by
    intro target hnone
    rw [Detection.isActive, hnone]
    rfl
  split
  · rename_i hnone
    rw [findingsOf, findingsOf, hactive _ hnone, hactive _ hnone]
  · rename_i hsome
    obtain ⟨c, hc⟩ := Option.ne_none_iff_exists'.mp hsome
    rw [findingsOf, Detection.isActive, hc, if_neg]
    simp [Constraint.admits_empty]

theorem length_flatMap_ite_le {α β : Type} (p : α → Prop) [DecidablePred p] (f : α → List β)
    (xs : List α) :
    (xs.flatMap fun x => if p x then f x else []).length ≤ (xs.flatMap f).length := by
  induction xs with
  | nil => exact Nat.le_refl _
  | cons x xs ih =>
    rw [List.flatMap_cons, List.flatMap_cons, List.length_append, List.length_append]
    refine Nat.add_le_add ?_ ih
    split
    · exact Nat.le_refl _
    · exact Nat.zero_le _

/-- Leaving some out changes nothing exactly if there is nothing in what is left out. -/
theorem flatMap_ite_iff {α β : Type} {p : α → Prop} [DecidablePred p] {f : α → List β}
    {xs : List α} : (xs.flatMap f = xs.flatMap fun x => if p x then f x else []) ↔
      ∀ x ∈ xs, ¬ p x → f x = [] := by
  induction xs with
  | nil => simp
  | cons x xs ih =>
    rw [List.flatMap_cons, List.flatMap_cons, List.forall_mem_cons, ← ih]
    by_cases hx : p x
    · simp [hx]
    · simp only [hx, not_false_eq_true, if_false, List.nil_append, true_imp_iff]
      refine ⟨fun heq => ?_, fun ⟨hnil, heq⟩ => by rw [hnil, List.nil_append, heq]⟩
      -- What is kept of the rest is not longer than the rest.
      have hshort := length_flatMap_ite_le p f xs
      have hlength := congrArg List.length heq
      rw [List.length_append] at hlength
      have hnil : f x = [] := List.length_eq_zero_iff.mp (by omega)
      rw [hnil, List.nil_append] at heq
      exact ⟨hnil, heq⟩

/-- An empty target and another one give the same findings exactly if no number that is too long makes
a difference, and no detection with a constraint finds anything for the other target. -/
theorem scanned_empty_iff (target : String) :
    scanned t root registry target = scanned t root registry "" ↔
      registry.detections.findSome? (overlong? (some target)) =
          registry.detections.findSome? (overlong? (some "")) ∧
        (registry.detections.findSome? (overlong? (some "")) = none →
          ∀ d ∈ registry.detections, d.constraint ≠ none →
            findingsOf t root (some target) d = []) := by
  have hempty : registry.detections.flatMap (findingsOf t root (some "")) =
      registry.detections.flatMap fun d =>
        if d.constraint = none then findingsOf t root (some target) d else [] := by
    congr 1
    funext d
    exact findingsOf_empty target d
  unfold scanned
  rw [hempty]
  cases registry.detections.findSome? (overlong? (some target)) with
  | some number => cases registry.detections.findSome? (overlong? (some "")) <;> simp
  | none =>
    cases registry.detections.findSome? (overlong? (some "")) with
    | some number => simp
    | none => simp only [Except.ok.injEq, true_and, true_imp_iff, flatMap_ite_iff]

/-! ### Analyses and upgrades -/

/-- An analysis and a dry run report the same, or end with the same failure, and every upgrade that
has an outcome reports what the analysis does, exactly if the target is not empty, or is empty and the
target that an analysis detects makes no difference. Whatever the target is, an upgrade that changes
files finds what the dry run finds, and fails where that fails. -/
theorem analyze_agrees_iff (root : Root) (registry : Registry) (o : Options) (w : Workspace) :
    (((Run.exec (analyze root registry o.target) w).1 =
          (Run.exec (upgrade root registry { o with dryRun := true }) w).1.map Outcome.findings ∧
        ∀ outcome, (Run.exec (upgrade root registry { o with dryRun := false }) w).1 = .ok outcome →
          (Run.exec (analyze root registry o.target) w).1 = .ok outcome.findings) ↔
      (o.target = some "" →
        registry.detections.findSome? (overlong? (some (detectTarget w.tree root))) =
            registry.detections.findSome? (overlong? (some "")) ∧
          (registry.detections.findSome? (overlong? (some "")) = none →
            ∀ d ∈ registry.detections, d.constraint ≠ none →
              findingsOf w.tree root (some (detectTarget w.tree root)) d = []))) ∧
    (∀ outcome, (Run.exec (upgrade root registry { o with dryRun := false }) w).1 = .ok outcome →
      (Run.exec (upgrade root registry { o with dryRun := true }) w).1 =
        .ok (.ofAnalysis outcome.findings)) ∧
    ∀ failure, (Run.exec (upgrade root registry { o with dryRun := true }) w).1 = .error failure →
      (Run.exec (upgrade root registry { o with dryRun := false }) w).1 = .error failure := by
  have hdry := exec_upgrade_dry registry root (o := { o with dryRun := true }) rfl w
  have hwet : ∀ outcome,
      (Run.exec (upgrade root registry { o with dryRun := false }) w).1 = .ok outcome →
        scanned w.tree root registry (targetOf w.tree root o) = .ok outcome.findings :=
    fun outcome houtcome => findings_upgrade (o := { o with dryRun := false }) houtcome
  have hreport : ((scanned w.tree root registry (targetOf w.tree root o)).map
      Outcome.ofAnalysis).map Outcome.findings =
        scanned w.tree root registry (targetOf w.tree root o) := by
    cases scanned w.tree root registry (targetOf w.tree root o) <;> rfl
  rw [exec_analyze, hdry]
  refine ⟨?_, fun outcome houtcome => ?_, fun failure hfailure => ?_⟩
  · show (_ = ((scanned w.tree root registry (targetOf w.tree root o)).map _).map _ ∧ _) ↔ _
    rw [hreport, and_iff_left_of_imp fun hsame outcome houtcome => hsame.trans (hwet outcome houtcome)]
    -- The two entry points have different targets only if the given one is empty.
    by_cases hempty : o.target = some ""
    · have hanalysis : analysisTarget w.tree root o.target = detectTarget w.tree root := by
        rw [analysisTarget, hempty]
        rfl
      have htarget : targetOf w.tree root o = "" := by rw [targetOf, hempty]; rfl
      rw [hanalysis, htarget, scanned_empty_iff]
      simp only [hempty, true_imp_iff]
    · have hanalysis : analysisTarget w.tree root o.target = targetOf w.tree root o := by
        rw [analysisTarget, targetOf]
        cases htarget : o.target with
        | none => rfl
        | some target =>
          have hsome : target ≠ "" := fun hnil => hempty (by rw [htarget, hnil])
          simp [Option.filter, hsome]
      simp only [hanalysis, hempty, false_imp_iff]
  · show (scanned w.tree root registry (targetOf w.tree root o)).map _ = _
    rw [hwet outcome houtcome]
    rfl
  · apply upgrade_of_scanned_error
    have herror : (scanned w.tree root registry (targetOf w.tree root o)).map Outcome.ofAnalysis =
        .error failure := hfailure
    show scanned w.tree root registry (targetOf w.tree root o) = .error failure
    cases hscanned : scanned w.tree root registry (targetOf w.tree root o) with
    | error e =>
      rw [hscanned] at herror
      cases herror
      rfl
    | ok findings =>
      rw [hscanned] at herror
      cases herror

theorem isOk_foo : (Pattern.compile .byLine "foo").isOk = true :=
  Pattern.compile_isOk String.toList_ofList (by decide +kernel)

/-- A rule for releases from 6.0.0 on. -/
def gatedRules : Registry where
  detections := [⟨.fixed .byLine "foo" isOk_foo, "", "**/*.rb", some (.text ">= 6.0.0")⟩]

/-- One file, which the rule finds something in. -/
def gatedSpace : Workspace where
  tree := { files := [(["a.rb"], Text.encode ['f', 'o', 'o'])] }

/-- With an empty target the analysis detects a release that the rule is for, and the upgrade does not
try the rule. -/
theorem analyze_empty_target :
    (Run.exec (analyze ⟨[], "."⟩ gatedRules (some "")) gatedSpace).1 = .ok [⟨"a.rb", "", "foo"⟩] ∧
      (Run.exec (upgrade ⟨[], "."⟩ gatedRules { target := some "", dryRun := true })
        gatedSpace).1 = .ok {} ∧
      (Run.exec (upgrade ⟨[], "."⟩ gatedRules { target := some "" }) gatedSpace).1 = .ok {} := by
  decide +kernel

end Project

end RailsUpgrade
