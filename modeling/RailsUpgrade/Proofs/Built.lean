import RailsUpgrade.Project.Upgrade
import RailsUpgrade.Proofs.Run

/-!
# `RailsUpgrade.Proofs.Built`: what every run has in common

All runs are put together from a few steps: results, failures, looks at the tree, notices and writes.
`Run.Built` says so of a run, with one rule for each step and one for steps that follow each other,
and keeps account of the failures that the run may end with. A law that these rules keep holds of
every run, and is proved once:

* `Run.Built.failure`: a run ends with no failure but those;
* `Run.Alike.of_built`: notices have no influence. Two workspaces that differ in their notices only have
  the same run.

The second half of this module goes through an upgrade and finds each part of it built. Each part
names the failures of its own; a write may fail in all of them.
-/

set_option autoImplicit false

namespace RailsUpgrade

/-- Two workspaces differ in their notices at most. -/
structure Workspace.Alike (w v : Workspace) : Prop where
  tree : w.tree = v.tree
  writes : w.writes = v.writes

namespace Run

variable {α β : Type} {P : Failure → Prop}

/-- How a run is put together, with the failures that it may end with. -/
inductive Built (P : Failure → Prop) : {α : Type} → Run α → Prop
  | pure {α : Type} (a : α) : Built P (Pure.pure a : Run α)
  | throw {α : Type} {failure : Failure} (may : P failure) :
      Built P (MonadExcept.throw failure : Run α)
  | bind {α β : Type} {x : Run α} {f : α → Run β} (first : Built P x) (rest : ∀ a, Built P (f a)) :
      Built P (x >>= f)
  | tree : Built P Run.tree
  | noteAll (notices : List Notice) : Built P (Run.noteAll notices)
  | write (root : Root) (path : String) (text : List Char)
      (may : ∀ path fault, P (.cannotWrite path fault)) : Built P (Run.write root path text)

/-- A run ends with no failure but those that its steps may end with. -/
theorem Built.failure {x : Run α} (h : Built P x) {w : Workspace} {failure : Failure}
    (hexec : (exec x w).1 = .error failure) : P failure := by
  induction h generalizing w failure with
  | pure a => cases hexec
  | throw may =>
    cases hexec
    exact may
  -- The failure is that of the first part or of the rest, which starts where the first has ended.
  | @bind _ _ x f _ _ first rest =>
    rw [exec_bind] at hexec
    cases hx : exec x w with
    | mk result w' =>
      rw [hx] at hexec
      cases result with
      | ok a => exact rest a hexec
      | error e =>
        cases hexec
        exact first (congrArg Prod.fst hx)
  | tree => cases hexec
  | noteAll notices => cases hexec
  | write root path text may =>
    rw [Run.write, exec_tree_bind] at hexec
    cases hwrite : w.tree.write root path text with
    | error fault =>
      rw [hwrite] at hexec
      cases hexec
      exact may _ _
    | ok result =>
      rw [hwrite] at hexec
      cases hexec

/-! ### Notices -/

/-- Two runs do the same on workspaces that differ in their notices at most, but for the notices that
they leave. -/
def Alike (x y : Run α) : Prop :=
  ∀ w v : Workspace, w.Alike v → (exec x w).1 = (exec y v).1 ∧ (exec x w).2.Alike (exec y v).2

namespace Alike

theorem bind {x y : Run α} {f g : α → Run β} (h : Alike x y) (hrest : ∀ a, Alike (f a) (g a)) :
    Alike (x >>= f) (y >>= g) := by
  intro w v hwv
  obtain ⟨hresult, hspaces⟩ := h w v hwv
  rw [exec_bind, exec_bind]
  generalize exec x w = left at hresult hspaces ⊢
  generalize exec y v = right at hresult hspaces ⊢
  obtain ⟨result, w'⟩ := left
  obtain ⟨_, v'⟩ := right
  obtain rfl := hresult
  cases result with
  | ok a => exact hrest a w' v' hspaces
  | error failure => exact ⟨rfl, hspaces⟩

/-- A notice that only one of the two runs gives makes no difference. -/
theorem note_bind {f : Unit → Run α} {y : Run α} (notice : Notice) (h : Alike (f ()) y) :
    Alike (note notice >>= f) y := fun w v hwv => by
  rw [exec_note_bind]
  exact h _ v ⟨hwv.tree, hwv.writes⟩

end Alike

/-- Notices have no influence on a run. -/
theorem Alike.of_built {x : Run α} (h : Built (fun _ => True) x) : Alike x x := by
  induction h with
  | pure a => exact fun w v hwv => ⟨rfl, hwv⟩
  | throw _ => exact fun w v hwv => ⟨rfl, hwv⟩
  | bind _ _ first rest => exact first.bind rest
  | tree => exact fun w v hwv => ⟨congrArg Except.ok hwv.tree, hwv⟩
  | noteAll notices => exact fun w v hwv => ⟨rfl, hwv.tree, hwv.writes⟩
  | write root path text _ =>
    intro w v hwv
    rw [Run.write, exec_tree_bind, exec_tree_bind, hwv.tree]
    cases v.tree.write root path text with
    | error fault => exact ⟨rfl, hwv⟩
    | ok result => exact ⟨rfl, rfl, congrArg (· ++ _) hwv.writes⟩

/-! ### The parts of an upgrade -/

theorem Built.note (notice : Notice) : Built P (note notice) := .noteAll [notice]

variable (hwrite : ∀ path fault, P (.cannotWrite path fault)) (root : Root)
include hwrite

theorem built_edit {change : List Char → Except Failure (List Char)}
    (hchange : ∀ text failure, change text = .error failure → P failure) (path : String) :
    Built P (edit root change path) := by
  unfold edit
  refine .bind .tree fun t => ?_
  split
  · exact .bind (.note _) fun _ => .pure false
  · split
    · exact .throw (hchange _ _ ‹_›)
    · split
      · exact .pure false
      · exact .bind (.write root path _ hwrite) fun _ => .pure true

theorem built_editAll {change : List Char → Except Failure (List Char)}
    (hchange : ∀ text failure, change text = .error failure → P failure) (paths : List String) :
    Built P (editAll root change paths) := by
  induction paths with
  | nil => exact .pure []
  | cons path rest ih =>
    exact .bind (built_edit hwrite root hchange path) fun _ => .bind ih fun _ => .pure _

omit hwrite in
theorem built_filesOf (glob : String) : Built P (filesOf root glob) :=
  .bind .tree fun _ => .pure _

end Run

namespace Project

open Run (Built built_edit built_editAll built_filesOf)

variable {P : Failure → Prop} (root : Root) (registry : Registry) (o : Options)

theorem built_scan (hlong : ∀ number, P (.overlong number)) (target : Option String) :
    Built P (scan root registry target) := by
  unfold scan
  refine .bind .tree fun t => .bind (.noteAll _) fun _ => ?_
  split
  · exact .throw (hlong _)
  · exact .pure _

variable (hwrite : ∀ path fault, P (.cannotWrite path fault))
  (htemplate : ∀ error, P (.template error))

include htemplate in
theorem built_repairFindings (file : String) (findings : List Finding) (text : List Char) :
    Built P (repairFindings registry o file findings text) := by
  induction findings generalizing text with
  | nil => exact .pure _
  | cons f rest ih =>
    rw [repairFindings]
    split
    · exact .bind (.note _) fun _ => ih text
    · split
      · exact .throw (htemplate _)
      · exact ih text
      · split
        · exact ih text
        · exact .bind (.note _) fun _ => .bind (ih _) fun _ => .pure _

include hwrite

include htemplate in
theorem built_repairFiles (findings : List Finding) (files : List String) :
    Built P (repairFiles root registry o findings files) := by
  have hfile : ∀ file findings, Built P (repairFile root registry o file findings) := by
    intro file findings
    unfold repairFile
    split
    · exact .bind (.note _) fun _ => .pure []
    · refine .bind .tree fun t => ?_
      split
      · exact .bind (.note _) fun _ => .pure []
      · refine .bind .tree fun t => ?_
        split
        · exact .bind (.note _) fun _ => .pure []
        · refine .bind (built_repairFindings registry o htemplate file _ _) fun (new, fixed) => ?_
          dsimp only
          split
          · exact .pure []
          · exact .bind (.write root file new hwrite) fun _ => .pure fixed
  induction files with
  | nil => exact .pure []
  | cons file rest ih => exact .bind (hfile file _) fun _ => .bind ih fun _ => .pure _

/-- A number that is too long in a target ends an update of the Gemfile. A target that is no version
text ends none of the updates. -/
theorem built_updateGemfile {target : String}
    (hlong : Version.parse target ≠ .error .notDotted → ∀ number, P (.overlong number)) :
    Built P (updateGemfile root target) := by
  unfold updateGemfile
  refine .bind .tree fun t => ?_
  split
  · exact .bind (.note _) fun _ => .pure []
  · refine .bind (built_edit hwrite root ?_ _) fun changed => ?_
    -- Only a number that is too long makes the update of a text fail.
    · intro text failure hfails
      unfold Gemfile.update Version.overlong? at hfails
      cases hparse : Version.parse target with
      | ok version =>
        rw [hparse] at hfails
        cases hfails
      | error fault =>
        cases fault with
        | notDotted =>
          rw [hparse] at hfails
          cases hfails
        | overlong number =>
          rw [hparse] at hfails
          cases hfails
          exact hlong (by simp [hparse]) number
    · split
      · exact .bind (.note _) fun _ => .pure _
      · exact .pure []

theorem built_updateConfig {target : String}
    (hlong : Version.parse target ≠ .error .notDotted → ∀ number, P (.overlong number))
    (e : FrameworkConfig.Edit) : Built P (updateConfig root target e) := by
  unfold updateConfig
  refine .bind .tree fun t => ?_
  split
  · exact .pure false
  · split
    · exact .pure false
    · exact .throw (hlong (by simp [*]) _)
    · split
      · exact .pure false
      · refine .bind (built_edit hwrite root (fun text failure hfails => by cases hfails) _)
          fun changed => ?_
        split
        · exact .bind (.note _) fun _ => .pure true
        · exact .pure false

theorem built_updateConfigsWith {target : String}
    (hlong : Version.parse target ≠ .error .notDotted → ∀ number, P (.overlong number))
    (edits : List FrameworkConfig.Edit) : Built P (updateConfigsWith root target edits) := by
  induction edits with
  | nil => exact .pure []
  | cons e rest ih =>
    exact .bind (built_updateConfig root hwrite hlong e) fun _ => .bind ih fun _ => .pure _

theorem built_updateMigrationsWith (hlong : ∀ number, P (.overlong number)) (version : Version)
    (paths : List String) : Built P (updateMigrationsWith root version paths) := by
  induction paths with
  | nil => exact .pure []
  | cons path rest ih =>
    rw [updateMigrationsWith]
    refine .bind (built_edit hwrite root ?_ _) fun changed => ?_
    · intro text failure hfails
      cases hupdate : Migration.update version text with
      | ok new =>
        rw [hupdate] at hfails
        cases hfails
      | error number =>
        rw [hupdate] at hfails
        cases hfails
        exact hlong number
    · split
      · exact .bind (.note _) fun _ => .bind ih fun _ => .pure _
      · exact ih

theorem built_updateMigrations {target : String}
    (hlong : Version.parse target ≠ .error .notDotted → ∀ number, P (.overlong number)) :
    Built P (updateMigrations root target) := by
  unfold updateMigrations
  split
  · exact .pure []
  · exact .throw (hlong (by simp [*]) _)
  · have hlong := hlong (by simp [*])
    split
    · exact .pure []
    · refine .bind (built_filesOf root _) fun files => ?_
      refine .bind (built_updateMigrationsWith root hwrite hlong _ files) fun changed => ?_
      split
      · exact .bind (.note _) fun _ => .pure _
      · exact .pure _

theorem built_renameApiWith (changed globs : List String) :
    Built P (renameApiWith root changed globs) := by
  induction globs generalizing changed with
  | nil => exact .pure changed
  | cons glob rest ih =>
    exact .bind (built_filesOf root glob) fun _ =>
      .bind (built_editAll hwrite root (fun text failure hfails => by cases hfails) _) fun _ => ih _

theorem built_renameApi : Built P (renameApi root) := by
  unfold renameApi
  refine .bind (built_renameApiWith root hwrite _ _) fun changed => ?_
  split
  · exact .bind (.note _) fun _ => .pure _
  · exact .pure _

include htemplate

theorem built_relocate (r : Relocation) : Built P (relocate root r) := by
  have hwriteTarget (c : ClassText) : Built P (writeTarget root r c) := by
    unfold writeTarget
    refine .bind .tree fun t => ?_
    split
    · exact .bind (.note _) fun _ => .pure []
    · exact .bind (.write root _ _ hwrite) fun _ => .pure _
  have hreferences : Built P (updateReferences root r) := by
    refine .bind (built_filesOf root _) fun _ => built_editAll hwrite root ?_ _
    intro text failure hfails
    cases hredirect : r.redirect text with
    | ok new =>
      rw [hredirect] at hfails
      cases hfails
    | error e =>
      rw [hredirect] at hfails
      cases hfails
      exact htemplate e
  unfold relocate
  refine .bind .tree fun t => ?_
  split
  · exact .bind (.note _) fun _ => .pure []
  · split
    · exact .bind (.note _) fun _ => .pure []
    · split
      · exact .bind (.note _) fun _ => .pure []
      · exact .bind (hwriteTarget _) fun _ => .bind hreferences fun _ =>
          .bind (.write root _ _ hwrite) fun _ => .bind (.note _) fun _ => .pure _

theorem built_relocateAll (plan : List Relocation) : Built P (relocateAll root plan) := by
  induction plan with
  | nil => exact .pure []
  | cons r rest ih =>
    exact .bind (built_relocate root hwrite htemplate r) fun _ => .bind ih fun _ => .pure _

theorem built_runPlan (plan : Tree → Root → List Relocation) (wanted : Bool) :
    Built P (runPlan root plan wanted) := by
  unfold runPlan
  split
  · exact .bind .tree fun _ => built_relocateAll root hwrite htemplate _
  · exact .pure []

omit hwrite htemplate

/-- A part of an update that is only run if it is asked for. -/
def onlyIf (wanted : Bool) (x : Run (List String)) : Run (List String) :=
  if wanted then x else pure []

theorem built_onlyIf (wanted : Bool) {x : Run (List String)} (h : Built P x) :
    Built P (onlyIf wanted x) := by
  unfold onlyIf
  split
  · exact h
  · exact .pure []

variable {root o} in
theorem updateNamespaces_eq : updateNamespaces root o = (do
    let api ← onlyIf (o.updateJobNamespaces || o.updateApiModule) (renameApi root)
    let stock ← runPlan root stockPlan (o.updateJobNamespaces || o.updateStockJobs)
    let order ← runPlan root orderPlan (o.updateJobNamespaces || o.updateOrderJobs)
    let pos ← runPlan root posPlan (o.updateJobNamespaces || o.updatePosStatusJobs)
    return api ++ stock ++ order ++ pos) := by
  unfold updateNamespaces onlyIf
  by_cases hwanted : (o.updateJobNamespaces || o.updateApiModule) = true
  · simp [hwanted]
  · simp [hwanted]

include hwrite htemplate in
theorem built_updateNamespaces : Built P (updateNamespaces root o) := by
  have hplan := built_runPlan root hwrite htemplate
  rw [updateNamespaces_eq]
  exact .bind (built_onlyIf _ (built_renameApi root hwrite)) fun _ => .bind (hplan _ _) fun _ =>
    .bind (hplan _ _) fun _ => .bind (hplan _ _) fun _ => .pure _

/-- The updates that need a target. -/
def released (root : Root) (o : Options) : Run (List String) :=
  match o.target with
  | none => do
    if o.updateGems || o.updateConfigs || o.updateMigrations then Run.note .noTarget
    return []
  | some target => do
    let gems ← onlyIf o.updateGems (updateGemfile root target)
    let configs ← onlyIf o.updateConfigs (updateConfigs root target)
    let migrations ← onlyIf o.updateMigrations (updateMigrations root target)
    return gems ++ configs ++ migrations

theorem updateFiles_eq : updateFiles root o = (do
    let released ← released root o
    let named ← updateNamespaces root o
    return distinct (released ++ named)) := by
  unfold updateFiles released
  cases o.target with
  | none => cases o.updateGems || o.updateConfigs || o.updateMigrations <;> simp
  | some target =>
    cases o.updateGems <;> cases o.updateConfigs <;> cases o.updateMigrations <;> simp [onlyIf]

include hwrite htemplate

theorem built_updateFiles (hlong : ∀ target, o.target = some target →
      Version.parse target ≠ .error .notDotted → ∀ number, P (.overlong number)) :
    Built P (updateFiles root o) := by
  have hreleased : Built P (released root o) := by
    unfold released
    split
    · split
      · exact .bind (.note _) fun _ => .pure []
      · exact .pure []
    · rename_i target htarget
      have hlong := hlong target htarget
      exact .bind (built_onlyIf _ (built_updateGemfile root hwrite hlong)) fun _ =>
        .bind (built_onlyIf _ (built_updateConfigsWith root hwrite hlong _)) fun _ =>
        .bind (built_onlyIf _ (built_updateMigrations root hwrite hlong)) fun _ => .pure _
  rw [updateFiles_eq]
  exact .bind hreleased fun _ =>
    .bind (built_updateNamespaces root o hwrite htemplate) fun _ => .pure _

theorem built_repair (hlong : ∀ target, o.target = some target →
      Version.parse target ≠ .error .notDotted → ∀ number, P (.overlong number))
    (findings : List Finding) :
    Built P (repair root registry o findings) := by
  unfold repair
  split
  · exact .pure _
  · exact .bind (built_repairFiles root registry o hwrite htemplate findings _) fun _ =>
      .bind (built_updateFiles root o hwrite htemplate hlong) fun _ => .pure _

theorem built_upgrade (hlong : ∀ number, P (.overlong number)) :
    Built P (upgrade root registry o) :=
  .bind .tree fun _ => .bind (built_scan root registry hlong _) fun _ =>
    built_repair root registry _ hwrite htemplate (fun _ _ _ => hlong) _

end Project

end RailsUpgrade
