import RailsUpgrade.Proofs.Analysis
import RailsUpgrade.Proofs.Built
import RailsUpgrade.Proofs.ReleaseLine

/-!
# `RailsUpgrade.Proofs.Malformed`: targets that are no version text

A target that cannot be read meets no constraint. The updates that need its release line ask first
whether the target has reached a release, and no target that cannot be read has. The first part puts
this in the order of the updates: `guardedConfig` and `guardedMigrations` read the target where they
use it, and could fail there. They never do.

There is one exception to all of this. A number with too many digits cannot be compared, in the target
or in a constraint, and this ends the run.

* `reached_eq`: what is asked before a target is read;
* `guardedConfig_eq`, `guardedMigrations_eq`: a target that is read is one that can be;
* `failure_analyze`, `failure_upgrade`: the failures that analyses and upgrades may end with;
* `FailsClosed`: what a target that cannot be read leaves alone;
* `malformed_target`: it does so exactly if no number is too long;
* `analyze_overlongRelease`: a constraint with such a number.
-/

set_option autoImplicit false

namespace RailsUpgrade

/-- The failures of analyses and upgrades: a faulty template, a number that is too long, and a file
that cannot be written. None of them is about a text that is no version. -/
inductive Failure.OfRun : Failure → Prop
  | template (error : Pattern.TemplateError) : OfRun (.template error)
  | overlong (number : Text.Overlong) : OfRun (.overlong number)
  | cannotWrite (path : String) (fault : WriteFault) : OfRun (.cannotWrite path fault)

/-- The failures of repairs and moves, which look at no version. -/
inductive Failure.OfRepair : Failure → Prop
  | template (error : Pattern.TemplateError) : OfRepair (.template error)
  | cannotWrite (path : String) (fault : WriteFault) : OfRepair (.cannotWrite path fault)

/-- Digits that are too many for a number make a version text that is not read. -/
theorem Version.parse_digits (digits : List Char) (hdigits : ∀ c ∈ digits, c.isDigit = true)
    (hlong : Text.digitLimit < digits.length) :
    Version.parse (String.ofList digits) = .error (.overlong ⟨digits.length⟩) := by
  have hdot : '.' ∉ digits := fun hmem => absurd (hdigits _ hmem) (by decide)
  have hfields : Version.fields (String.ofList digits) = [digits] := by
    rw [Version.fields, String.toList_ofList,
      Text.trim_eq_self fun c hc => Text.isBlank_eq_false_of_isDigit (hdigits c hc),
      Text.splitChar_eq_splitOn, List.splitOn_eq_singleton hdot]
  have hnumber : (Text.number? digits).isSome := by
    have hne : digits.isEmpty = false := by
      cases digits with
      | nil => simp at hlong
      | cons c rest => rfl
    simp [Text.number?, hne, Text.foldlM_digits hdigits]
  obtain ⟨n, hn⟩ := Option.isSome_iff_exists.mp hnumber
  rw [Version.parse, hfields]
  simp [hn, Text.overlong?, hlong]

namespace Project

variable {root : Root} {registry : Registry} {target : String} {w : Workspace}

/-! ### The question before the reading -/

/-- Reads a target. `invalid` is the failure for a text that is no version. -/
def readTarget (invalid : Failure) (target : String) : Except Failure Version :=
  match Version.parse target with
  | .ok version => .ok version
  | .error .notDotted => .error invalid
  | .error (.overlong number) => .error (.overlong number)

/-- Asks whether a target has reached a release. A text that is no version has not. -/
def reached (target minimum : String) : Except Failure Bool :=
  match (Constraint.parts [">=", minimum]).overlong? (some target) with
  | some number => .error (.overlong number)
  | none => .ok (Version.atLeast (some target) minimum)

theorem reached_eq {minimum : String} {wanted : Version} (h : Version.parse minimum = .ok wanted) :
    reached target minimum = match Version.parse target with
      | .ok _ => .ok (Version.atLeast (some target) minimum)
      | .error .notDotted => .ok false
      | .error (.overlong number) => .error (.overlong number) := by
  have hpair : (Constraint.parts [">=", minimum]).pair? = some (.atLeast, minimum) := rfl
  have hlong : (Constraint.parts [">=", minimum]).overlong? (some target) =
      Version.overlong? target := by
    simp [Constraint.overlong?, Constraint.overlongVersion?, Constraint.parse?, hpair,
      Version.overlong?, Version.parse?, h, Except.toOption]
  rw [reached, hlong, Version.overlong?]
  cases hparse : Version.parse target with
  | ok version => rfl
  | error fault =>
    cases fault with
    | overlong number => rfl
    | notDotted =>
      -- What has reached a release can be read.
      cases hreached : Version.atLeast (some target) minimum with
      | false => rfl
      | true =>
        obtain ⟨version, hversion⟩ := Version.exists_parse_of_atLeast hreached
        rw [hversion] at hparse
        cases hparse

/-- Runs an edit of a configuration file. The target is read where the edit needs it. -/
def guardedConfig (invalid : Failure) (root : Root) (target : String) (e : FrameworkConfig.Edit) :
    Run Bool := do
  if !(← Run.tree).isFileAt root e.path then return false
  match reached target e.since with
  | .error failure => throw failure
  | .ok false => return false
  | .ok true =>
    if ← Run.edit root (fun text => (readTarget invalid target).map (e.apply · text)) e.path then
      Run.note (.configUpdated e.path)
      return true
    return false

theorem guardedConfig_eq (invalid : Failure) {e : FrameworkConfig.Edit}
    (he : e ∈ FrameworkConfig.edits) :
    guardedConfig invalid root target e = updateConfig root target e := by
  have hsince : ∀ e ∈ FrameworkConfig.edits, (Version.parse e.since).toOption.isSome = true := by
    decide
  obtain ⟨wanted, hwanted⟩ := Option.isSome_iff_exists.mp (hsince e he)
  unfold guardedConfig updateConfig
  congr 1
  funext t
  rw [reached_eq (Run.eq_ok_of_toOption hwanted)]
  cases hparse : Version.parse target with
  | ok version =>
    have hread : ∀ text, (readTarget invalid target).map (e.apply · text) =
        .ok (e.apply version text) := by
      intro text
      rw [readTarget, hparse]
      rfl
    simp only [hread]
    cases Version.atLeast (some target) e.since <;> rfl
  | error fault => cases fault <;> rfl

/-- Updates migrations. The target is read for each of them. -/
def guardedMigrationsWith (invalid : Failure) (root : Root) (target : String) :
    List String → Run (List String)
  | [] => return []
  | path :: rest => do
    if ← Run.edit root (fun text => do
        (Migration.update (← readTarget invalid target) text).mapError .overlong) path then
      Run.note (.migrationUpdated path)
      return path :: (← guardedMigrationsWith invalid root target rest)
    else guardedMigrationsWith invalid root target rest

theorem guardedMigrationsWith_eq (invalid : Failure) {version : Version}
    (h : Version.parse target = .ok version) (paths : List String) :
    guardedMigrationsWith invalid root target paths = updateMigrationsWith root version paths := by
  have hread : readTarget invalid target = .ok version := by rw [readTarget, h]
  induction paths with
  | nil => rfl
  | cons path rest ih =>
    rw [guardedMigrationsWith, updateMigrationsWith, hread, ih]
    rfl

/-- Updates all migrations, for targets that have release lines in them. -/
def guardedMigrations (invalid : Failure) (root : Root) (target : String) : Run (List String) := do
  match reached target "5.0.0" with
  | .error failure => throw failure
  | .ok false => return []
  | .ok true =>
    let changed ← guardedMigrationsWith invalid root target (← Run.filesOf root migrations)
    if !changed.isEmpty then
      match readTarget invalid target with
      | .error failure => throw failure
      | .ok version => Run.note (.migrationsUpdated changed.length version.line)
    return changed

theorem guardedMigrations_eq (invalid : Failure) :
    guardedMigrations invalid root target = updateMigrations root target := by
  have hsince : (Version.parse "5.0.0").toOption = some ⟨5, 0, 0⟩ := by decide
  unfold guardedMigrations updateMigrations
  rw [reached_eq (Run.eq_ok_of_toOption hsince)]
  cases hparse : Version.parse target with
  | ok version =>
    have hread : readTarget invalid target = .ok version := by rw [readTarget, hparse]
    simp only [guardedMigrationsWith_eq invalid hparse, hread]
    cases Version.atLeast (some target) "5.0.0" <;> rfl
  | error fault => cases fault <;> rfl

/-! ### The failures of a run -/

variable (root registry) in
theorem failure_analyze {given : Option String} {failure : Failure}
    (h : (Run.exec (analyze root registry given) w).1 = .error failure) : failure.OfRun := by
  have hbuilt : Run.Built Failure.OfRun (analyze root registry given) :=
    .bind .tree fun _ => built_scan root registry .overlong _
  exact hbuilt.failure h

variable (root registry) in
theorem failure_upgrade {o : Options} {failure : Failure}
    (h : (Run.exec (upgrade root registry o) w).1 = .error failure) : failure.OfRun :=
  (built_upgrade root registry o .cannotWrite .template .overlong).failure h

/-! ### What is left alone -/

/-- What the detections without a constraint find. -/
def freeFindings (t : Tree) (root : Root) (registry : Registry) : List Finding :=
  (registry.detections.filter (·.constraint.isNone)).flatMap (findingsOf t root none)

/-- A run leaves the tree as it is, with a result that names no file. -/
def Idle (w : Workspace) (x : Run (List String)) : Prop :=
  ∃ notices, Run.exec x w = (.ok [], { w with notices })

/-- What a target that cannot be read has to leave alone. Analyses and upgrades report what needs no
target, and an upgrade ends with no failure but those of repairs and moves. The updates that take a
target have a result and change nothing. -/
structure FailsClosed (root : Root) (registry : Registry) (target : String) (w : Workspace) :
    Prop where
  analysis : ∀ given, analysisTarget w.tree root given = target →
    (Run.exec (analyze root registry given) w).1 = .ok (freeFindings w.tree root registry)
  upgrade : ∀ o, targetOf w.tree root o = target →
    match (Run.exec (upgrade root registry o) w).1 with
    | .ok outcome => outcome.findings = freeFindings w.tree root registry
    | .error failure => failure.OfRepair
  gemfile : Idle w (updateGemfile root target)
  configs : Idle w (updateConfigs root target)
  migrations : Idle w (updateMigrations root target)

/-- No number is too long to compare a target with what the detections ask for. -/
def Comparable (registry : Registry) (target : String) : Prop :=
  Version.overlong? target = none ∧
    ∀ d ∈ registry.detections, d.constraint.bind Constraint.overlongVersion? = none

/-- A target that cannot be read is no version text, if no number in it is too long. -/
theorem parse_of_parse? (h : Version.parse? target = none) (hshort : Version.overlong? target = none) :
    Version.parse target = .error .notDotted := by
  unfold Version.parse? at h
  unfold Version.overlong? at hshort
  cases hparse : Version.parse target with
  | ok version =>
    rw [hparse] at h
    cases h
  | error fault =>
    cases fault with
    | notDotted => rfl
    | overlong number =>
      rw [hparse] at hshort
      cases hshort

/-- Of the detections only those without a constraint find something for a target that cannot be
read. -/
theorem findingsOf_unread (t : Tree) (h : Version.parse? target = none) (d : Detection) :
    findingsOf t root (some target) d =
      if d.constraint.isNone then findingsOf t root none d else [] := by
  unfold findingsOf Detection.isActive
  cases d.constraint with
  | none => rfl
  | some c =>
    have hadmits : c.admits (some target) = false := by
      unfold Constraint.admits
      cases c.parse? with
      | none => rfl
      | some wanted => simp [h]
    simp [hadmits]

theorem flatMap_findingsOf_unread (t : Tree) (h : Version.parse? target = none) :
    registry.detections.flatMap (findingsOf t root (some target)) =
      freeFindings t root registry := by
  unfold freeFindings
  induction registry.detections with
  | nil => rfl
  | cons d rest ih =>
    rw [List.flatMap_cons, ih, findingsOf_unread t h d, List.filter_cons]
    split
    · rw [List.flatMap_cons]
    · rw [List.nil_append]

variable (root) in
/-- If all numbers can be compared, a scan for such a target reports what needs no target. -/
theorem scanned_of_comparable (t : Tree) (h : Version.parse? target = none)
    (hshort : Comparable registry target) :
    scanned t root registry target = .ok (freeFindings t root registry) := by
  have hnone : registry.detections.findSome? (overlong? (some target)) = none := by
    rw [List.findSome?_eq_none_iff]
    intro d hd
    have hd := hshort.2 d hd
    unfold overlong?
    cases hc : d.constraint with
    | none => rfl
    | some c =>
      rw [hc] at hd
      have hversion : c.overlongVersion? = none := hd
      simp [Constraint.overlong?, hversion, hshort.1]
  rw [scanned, hnone, flatMap_findingsOf_unread t h]

/-- A number that is too long in a constraint ends every scan. -/
theorem overlongVersion?_of_scanned {t : Tree} {findings : List Finding}
    (h : scanned t root registry target = .ok findings) :
    ∀ d ∈ registry.detections, d.constraint.bind Constraint.overlongVersion? = none := by
  intro d hd
  have hnone : registry.detections.findSome? (overlong? (some target)) = none := by
    unfold scanned at h
    cases hlong : registry.detections.findSome? (overlong? (some target)) with
    | none => rfl
    | some number =>
      rw [hlong] at h
      cases h
  have hd := List.findSome?_eq_none_iff.mp hnone d hd
  unfold overlong? at hd
  cases hc : d.constraint with
  | none => rfl
  | some c =>
    rw [hc] at hd
    show c.overlongVersion? = none
    cases hversion : c.overlongVersion? with
    | none => rfl
    | some number => simp [Constraint.overlong?, hversion] at hd

variable (root) in
/-- An edit that makes no difference to any text changes no file. -/
theorem exec_edit_of_same {change : List Char → Except Failure (List Char)}
    (h : ∀ text, change text = .ok text) (path : String) (w : Workspace) :
    ∃ notices, Run.exec (Run.edit root change path) w = (.ok false, { w with notices }) := by
  rw [Run.edit, Run.exec_tree_bind]
  split
  · exact ⟨_, rfl⟩
  · simp only [h, beq_self_eq_true, if_true]
    exact ⟨_, rfl⟩

theorem idle_updateGemfile (h : Version.parse target = .error .notDotted) :
    Idle w (updateGemfile root target) := by
  have hline : Gemfile.releaseLine? target = none := by
    rw [Gemfile.releaseLine?, List.find?_eq_none]
    intro line _ hreached
    obtain ⟨version, hversion⟩ := Version.exists_parse_of_atLeast hreached
    rw [hversion] at h
    cases h
  have hsame : ∀ text, (Gemfile.update target text).mapError Failure.overlong = .ok text := by
    intro text
    rw [Gemfile.update, Version.overlong?, h]
    simp only [Gemfile.updated, hline]
    rfl
  unfold Idle updateGemfile
  rw [Run.exec_tree_bind]
  split
  · exact ⟨_, rfl⟩
  · obtain ⟨notices, hedit⟩ := exec_edit_of_same root hsame "Gemfile" w
    rw [Run.exec_bind_of_ok hedit]
    exact ⟨notices, rfl⟩

theorem idle_updateConfigs (h : Version.parse target = .error .notDotted) :
    Idle w (updateConfigs root target) := by
  have hedit : ∀ e, Run.exec (updateConfig root target e) w = (.ok false, w) := by
    intro e
    rw [updateConfig, Run.exec_tree_bind, h]
    split
    · rfl
    · rfl
  have hedits : ∀ edits, Run.exec (updateConfigsWith root target edits) w = (.ok [], w) := by
    intro edits
    induction edits with
    | nil => rfl
    | cons e rest ih =>
      rw [updateConfigsWith, Run.exec_bind_of_ok (hedit e), Run.exec_bind_of_ok ih]
      rfl
  exact ⟨w.notices, hedits _⟩

theorem idle_updateMigrations (h : Version.parse target = .error .notDotted) :
    Idle w (updateMigrations root target) := by
  unfold Idle updateMigrations
  rw [h]
  exact ⟨w.notices, rfl⟩

/-- An upgrade with such a target reports what needs no target. Its repairs and moves may fail, but
no comparison does. -/
theorem upgrade_of_comparable {o : Options} (htarget : targetOf w.tree root o = target)
    (h : Version.parse? target = none) (hshort : Comparable registry target) :
    match (Run.exec (upgrade root registry o) w).1 with
    | .ok outcome => outcome.findings = freeFindings w.tree root registry
    | .error failure => failure.OfRepair := by
  have hscanned := scanned_of_comparable root w.tree h hshort
  cases hrun : (Run.exec (upgrade root registry o) w).1 with
  | ok outcome =>
    have hfindings := findings_upgrade hrun
    rw [htarget, hscanned] at hfindings
    exact (Except.ok.inj hfindings).symm
  | error failure =>
    obtain ⟨notices, hrepair⟩ := exec_upgrade registry root o w
    rw [htarget] at hrepair
    cases hlong : registry.detections.findSome? (overlong? (some target)) with
    | some number =>
      rw [scanned, hlong] at hscanned
      cases hscanned
    | none =>
      rw [hrepair, hlong] at hrun
      -- The target of the updates is no version text, so none of them compares it.
      refine (built_repair root registry { o with target := some target } .cannotWrite .template
        (fun other hother hread => ?_) _).failure hrun
      cases hother
      exact absurd (parse_of_parse? h hshort.1) hread

/-- A target that cannot be read leaves alone what it should exactly if all numbers can be
compared. -/
theorem failsClosed_iff (h : Version.parse? target = none) :
    FailsClosed root registry target w ↔ Comparable registry target := by
  constructor
  · intro hclosed
    constructor
    · -- An update of migrations compares the target before it looks for any.
      obtain ⟨notices, hmigrations⟩ := hclosed.migrations
      unfold Version.overlong?
      cases hparse : Version.parse target with
      | ok version => rfl
      | error fault =>
        cases fault with
        | notDotted => rfl
        | overlong number =>
          rw [updateMigrations, hparse] at hmigrations
          cases hmigrations
    · have hdry := hclosed.upgrade { target := some target, dryRun := true } rfl
      rw [exec_upgrade_dry registry root rfl] at hdry
      cases hscanned : scanned w.tree root registry target with
      | ok findings => exact overlongVersion?_of_scanned hscanned
      | error failure =>
        simp only [targetOf, Option.getD_some, hscanned] at hdry
        have hrepair : failure.OfRepair := hdry
        unfold scanned at hscanned
        split at hscanned
        · cases hscanned
          cases hrepair
        · cases hscanned
  · intro hshort
    have hparse := parse_of_parse? h hshort.1
    refine ⟨fun given hgiven => ?_, fun o htarget => upgrade_of_comparable htarget h hshort,
      idle_updateGemfile hparse, idle_updateConfigs hparse, idle_updateMigrations hparse⟩
    rw [exec_analyze registry root, hgiven, scanned_of_comparable root w.tree h hshort]

/-- No analysis and no upgrade ends because a target, or any other text, is no version: their failures
are others, and the updates read a target only if it can be read. A target that cannot be read fails
closed exactly if no number in it or in a constraint is too long. -/
theorem malformed_target (root : Root) (registry : Registry) (w : Workspace) :
    (∀ given failure, (Run.exec (analyze root registry given) w).1 = .error failure →
      failure.OfRun) ∧
    (∀ o failure, (Run.exec (upgrade root registry o) w).1 = .error failure → failure.OfRun) ∧
    (∀ invalid target,
      (∀ e ∈ FrameworkConfig.edits,
        guardedConfig invalid root target e = updateConfig root target e) ∧
      guardedMigrations invalid root target = updateMigrations root target) ∧
    (∀ line ∈ Gemfile.releaseLines, (Version.parse? line.ruby).isSome) ∧
    ∀ target, Version.parse? target = none →
      (FailsClosed root registry target w ↔ Comparable registry target) :=
  ⟨fun _ _ => failure_analyze root registry, fun _ _ => failure_upgrade root registry,
    fun invalid _ => ⟨fun _ => guardedConfig_eq invalid, guardedMigrations_eq invalid⟩,
    by decide, fun _ => failsClosed_iff⟩

/-- A rule without a constraint, and one for the targets from a release on. -/
def constrainedRules (since : String) : Registry where
  detections := [⟨.fixed .byLine "a", "", "**/*.rb", none⟩,
    ⟨.fixed .byLine "a", "", "**/*.rb", some (.parts [">=", since])⟩]

/-- One file, which both rules find something in if they are active. -/
def constrainedSpace : Workspace where
  tree := { files := [(["a.rb"], Text.encode ['a'])] }

/-- What needs no target is the finding of the first rule. -/
theorem freeFindings_constrained (since : String) :
    freeFindings constrainedSpace.tree ⟨[], "."⟩ (constrainedRules since) = [⟨"a.rb", "", "a"⟩] := by
  have hfree : (constrainedRules since).detections.filter (·.constraint.isNone) =
      [⟨.fixed .byLine "a", "", "**/*.rb", none⟩] := rfl
  rw [freeFindings, hfree]
  decide +kernel

/-- A target with two dots in a row fails closed. -/
theorem malformed_target_dots :
    FailsClosed ⟨[], "."⟩ (constrainedRules "6.0.0") "6..1" constrainedSpace ∧
      freeFindings constrainedSpace.tree ⟨[], "."⟩ (constrainedRules "6.0.0") =
        [⟨"a.rb", "", "a"⟩] := by
  obtain ⟨-, -, -, -, hclosed⟩ :=
    malformed_target ⟨[], "."⟩ (constrainedRules "6.0.0") constrainedSpace
  exact ⟨(hclosed "6..1" (by decide)).mpr ⟨by decide, by decide⟩,
    freeFindings_constrained _⟩

/-- A version of so many digits. -/
def longRelease (digits : Nat) : String := String.ofList (List.replicate digits '9')

theorem overlong?_longRelease {digits : Nat} (h : Text.digitLimit < digits) :
    Version.overlong? (longRelease digits) = some ⟨digits⟩ := by
  have hparse := Version.parse_digits (List.replicate digits '9')
    (fun c hc => by rw [List.eq_of_mem_replicate hc]; rfl) (by rwa [List.length_replicate])
  rw [List.length_replicate] at hparse
  rw [Version.overlong?, longRelease, hparse]

/-- With such a version in a constraint no target that is given is analysed. -/
theorem analyze_longRelease {digits : Nat} (h : Text.digitLimit < digits) (target : String)
    (w : Workspace) :
    (Run.exec (analyze root (constrainedRules (longRelease digits)) (some target)) w).1 =
      .error (.overlong ⟨digits⟩) := by
  have hpair : (Constraint.parts [">=", longRelease digits]).pair? =
      some (.atLeast, longRelease digits) := rfl
  rw [exec_analyze, scanned]
  simp [constrainedRules, List.findSome?_cons, overlong?, Constraint.overlong?,
    Constraint.overlongVersion?, hpair, overlong?_longRelease h]

/-- With one digit too many in a constraint a target that cannot be read does not fail closed: the
finding of the other rule is not reported, and the analysis ends with the number. -/
theorem analyze_overlongRelease :
    Version.parse? "." = none ∧
      freeFindings constrainedSpace.tree ⟨[], "."⟩ (constrainedRules (longRelease 4301)) =
        [⟨"a.rb", "", "a"⟩] ∧
      (Run.exec (analyze ⟨[], "."⟩ (constrainedRules (longRelease 4301)) (some "."))
        constrainedSpace).1 = .error (.overlong ⟨4301⟩) :=
  ⟨by decide, freeFindings_constrained _, analyze_longRelease (by decide) "." _⟩

end Project

end RailsUpgrade
