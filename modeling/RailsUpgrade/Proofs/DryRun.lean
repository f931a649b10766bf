import RailsUpgrade.Command.Basic
import RailsUpgrade.Proofs.Analysis

/-!
# `RailsUpgrade.Proofs.DryRun`: analyses and dry runs change nothing

A run spares the files if it leaves the tree as it is and writes nothing. Analyses do, and so do dry
runs: an upgrade ends before its repairs then. What a command line asks for is merged from a file and
from its own options. An option of the command line can switch something on, but not off again, so a
dry run that is asked for in one place is a dry run.

* `Run.Spares`: with one rule for each step of a run;
* `Switch.get_overlay`: a switch is on in the merged settings if it is on in either place;
* `Project.spares_analyze`, `Project.spares_upgrade`: the runs of the library;
* `Command.run_spares`: every command line that asks for an analysis or for a dry run;
* `Command.dry_runs_change_nothing`: all of it together.
-/

set_option autoImplicit false

namespace RailsUpgrade

/-! ### Runs that spare the files -/

namespace Run

variable {α β : Type}

/-- A run from a workspace that leaves the tree as it is and writes nothing. -/
def SparesFrom (w : Workspace) (x : Run α) : Prop :=
  (exec x w).2.tree = w.tree ∧ (exec x w).2.writes = w.writes

/-- A run that leaves every tree as it is and writes nothing. -/
def Spares (x : Run α) : Prop := ∀ w, SparesFrom w x

namespace Spares

theorem pure (a : α) : Spares (pure a : Run α) := fun _ => ⟨rfl, rfl⟩

theorem throw (failure : Failure) : Spares (throw failure : Run α) := fun _ => ⟨rfl, rfl⟩

theorem tree : Spares tree := fun _ => ⟨rfl, rfl⟩

theorem noteAll (notices : List Notice) : Spares (noteAll notices) := fun _ => ⟨rfl, rfl⟩

theorem bind {x : Run α} {f : α → Run β} (hx : Spares x) (hf : ∀ a, Spares (f a)) :
    Spares (x >>= f) := by
  intro w
  obtain ⟨htree, hwrites⟩ := hx w
  unfold SparesFrom
  rw [exec_bind]
  generalize exec x w = first at htree hwrites ⊢
  obtain ⟨result, w'⟩ := first
  cases result with
  | error failure => exact ⟨htree, hwrites⟩
  | ok a =>
    obtain ⟨htree', hwrites'⟩ := hf a w'
    exact ⟨htree'.trans htree, hwrites'.trans hwrites⟩

end Spares

end Run

/-! ### Switches that are on in either place -/

theorem Switch.get_set (s s' : Switch) (on : Bool) (o : Options) :
    s.get (s'.set on o) = if s = s' then on else s.get o := by
  cases s <;> cases s' <;> rfl

theorem Switch.get_foldl_set (s : Switch) (switches : List Switch) (o : Options) :
    s.get (switches.foldl (fun o switch => switch.set true o) o) =
      (decide (s ∈ switches) || s.get o) := by
  induction switches generalizing o with
  | nil => simp
  | cons s' switches ih =>
    rw [List.foldl_cons, ih, Switch.get_set]
    by_cases hs : s = s'
    · simp [hs]
    · simp [hs]

/-- Apart from its switches a command line sets safe mode and the target. -/
theorem Settings.exists_of_overlay {settings merged : Settings} {o : Settings.Overlay}
    (h : settings.overlay o = .ok merged) : ∃ safeMode target, merged.options =
      { o.enabled.foldl (fun options switch => switch.set true options) settings.options with
        safeMode, target } := by
  -- If nothing is refused, the options are those that were put together before the format.
  have hclose : ∀ (options : Options) (found : ReportFormat × List FieldError),
      (if found.2.isEmpty then .ok ⟨options, found.1⟩ else .error found.2 :
        Except (List FieldError) Settings) = .ok merged → merged.options = options := by
    intro options found hfound
    split at hfound
    · cases hfound
      rfl
    · cases hfound
  unfold Settings.overlay at h
  generalize o.enabled.foldl (fun options switch => switch.set true options) settings.options =
    switched at h ⊢
  obtain ⟨safeMode, hsafe⟩ : ∃ safeMode, (if o.allRepairs then { switched with safeMode := false }
      else switched) = { switched with safeMode } := by
    split
    · exact ⟨false, rfl⟩
    · exact ⟨switched.safeMode, rfl⟩
  simp only [hsafe] at h
  cases htarget : o.target.filter (!·.isEmpty) with
  | none =>
    simp only [htarget] at h
    exact ⟨safeMode, switched.target, hclose _ _ h⟩
  | some t =>
    simp only [htarget] at h
    cases hread : targetOf (.text t) with
    | ok target =>
      simp only [hread] at h
      exact ⟨safeMode, target, hclose _ _ h⟩
    | error fault =>
      simp only [hread] at h
      exact ⟨safeMode, switched.target, hclose _ _ h⟩

/-- A command line switches on what it names and leaves all else as the settings have it, but for safe
mode. -/
theorem Switch.get_overlay {s : Switch} (hs : s ≠ .safeMode) {settings merged : Settings}
    {o : Settings.Overlay} (h : settings.overlay o = .ok merged) :
    s.get merged.options = (decide (s ∈ o.enabled) || s.get settings.options) := by
  obtain ⟨safeMode, target, hoptions⟩ := Settings.exists_of_overlay h
  rw [← Switch.get_foldl_set, hoptions]
  cases s with
  | safeMode => exact absurd rfl hs
  | _ => rfl

/-! ### The runs of the library -/

namespace Project

open Run (Spares)

variable (root : Root) (registry : Registry)

theorem spares_scan (target : Option String) : Spares (scan root registry target) := by
  unfold scan
  refine .bind .tree fun t => .bind (.noteAll _) fun _ => ?_
  split
  · exact .throw _
  · exact .pure _

/-- An analysis changes nothing. -/
theorem spares_analyze (target : Option String) : Spares (analyze root registry target) :=
  .bind .tree fun _ => spares_scan root registry _

/-- A dry run changes nothing. -/
theorem spares_upgrade {o : Options} (hdry : o.dryRun = true) :
    Spares (upgrade root registry o) := by
  refine .bind .tree fun t => .bind (spares_scan root registry _) fun findings => ?_
  rw [repair, if_pos hdry]
  exact .pure _

end Project

/-! ### Command lines -/

namespace Command

namespace Arguments

variable {a a' : Arguments}

/-- What the first arguments ask for is also asked for by those behind them. -/
structure Extends (a a' : Arguments) : Prop where
  analyze : a.analyze = true → a'.analyze = true
  enabled : a.overlay.enabled ⊆ a'.overlay.enabled

theorem Extends.refl (a : Arguments) : a.Extends a := ⟨id, List.Subset.refl _⟩

theorem Extends.trans {a'' : Arguments} (h : a.Extends a') (h' : a'.Extends a'') : a.Extends a'' :=
  ⟨fun hon => h'.analyze (h.analyze hon), List.Subset.trans h.enabled h'.enabled⟩

theorem extends_turnOn (a : Arguments) (f : Flag) : a.Extends (a.turnOn f) := by
  cases f with
  | analyze => exact ⟨fun _ => rfl, List.Subset.refl _⟩
  | switch s => exact ⟨id, List.subset_append_left _ _⟩
  | _ => exact ⟨id, List.Subset.refl _⟩

theorem extends_option {o : Opt} {attached next : Option String} {used : Bool}
    (h : a.option o attached next = .ok (a', used)) : a.Extends a' := by
  have hassign : ∀ value s, a.Extends (a.assign value s) := by
    intro value s
    cases s <;> exact ⟨id, List.Subset.refl _⟩
  unfold option at h
  split at h
  · cases h
    exact extends_turnOn a _
  · cases h
  · cases h
    exact hassign _ _
  · cases h
    exact hassign _ _
  · cases h

theorem extends_letters {next : Option String} {used : Bool} {letters : List Char}
    (h : a.letters next letters = .ok (a', used)) : a.Extends a' := by
  induction letters generalizing a with
  | nil =>
    cases h
    exact .refl _
  | cons c rest ih =>
    rw [Arguments.letters] at h
    split at h
    · cases h
    · exact (extends_turnOn a _).trans (ih h)
    · exact extends_option h

theorem extends_hyphenated {arg : List Char} {next : Option String} {used : Bool}
    (h : a.hyphenated arg next = .ok (a', used)) : a.Extends a' := by
  unfold hyphenated at h
  dsimp only at h
  split at h
  · exact extends_option h
  · split at h
    · cases h
    · exact extends_letters h

/-- No argument takes back what those in front of it ask for. -/
theorem extends_read {used : Bool} {args : List String} (h : a.read used args = .ok a') :
    a.Extends a' := by
  induction args generalizing a used with
  | nil =>
    cases h
    exact .refl _
  | cons arg rest ih =>
    rw [read] at h
    split at h
    · exact ih h
    · split at h
      · cases h
        exact ⟨id, List.Subset.refl _⟩
      · split at h
        · split at h
          · cases h
          · rename_i hread
            exact (extends_hyphenated hread).trans (ih h)
        · have hrest := ih h
          exact ⟨hrest.analyze, hrest.enabled⟩

/-- Wherever the option is read, an analysis is asked for. -/
theorem analyze_of_read {rest : List String} (h : a.read false ("--analyze" :: rest) = .ok a') :
    a'.analyze = true := by
  have hturned : a.read false ("--analyze" :: rest) = (a.turnOn .analyze).read false rest := rfl
  exact (extends_read (hturned ▸ h)).analyze rfl

/-- Wherever the option is read, a dry run is asked for. -/
theorem dryRun_of_read {rest : List String} (h : a.read false ("--dry-run" :: rest) = .ok a') :
    Switch.dryRun ∈ a'.overlay.enabled := by
  have hturned : a.read false ("--dry-run" :: rest) =
      (a.turnOn (.switch .dryRun)).read false rest := rfl
  exact (extends_read (hturned ▸ h)).enabled (by simp [turnOn])

end Arguments

/-- The settings of a file: the one that is named, or the first of those that are looked for. -/
def fileSettings (t : Tree) (here root : Root) (a : Arguments) : Except Failure Settings :=
  match a.config with
  | some path => Settings.ofFile t here path
  | none => Settings.find t root

/-- The settings of a file with a command line on top of them. -/
def mergedSettings (t : Tree) (here root : Root) (a : Arguments) : Except Failure Settings :=
  (fileSettings t here root a).bind fun s => (s.overlay a.overlay).mapError .settingsFields

/-- Settings are read off the tree, which stays as it is. -/
theorem exec_settings (here root : Root) (a : Arguments) (w : Workspace) :
    Run.exec (settings here root a) w = (mergedSettings w.tree here root a, w) := by
  unfold settings
  rw [Run.exec_tree_bind]
  unfold mergedSettings fileSettings
  dsimp only
  cases a.config
  all_goals
    split
    all_goals
      rename_i _ hmerged
      exact congrArg (·, w) hmerged.symm

/-- The merged settings ask for a dry run if the file or the command line does. -/
theorem dryRun_mergedSettings {t : Tree} {here root : Root} {a : Arguments} {merged : Settings}
    (h : mergedSettings t here root a = .ok merged) :
    merged.options.dryRun = true ↔ Switch.dryRun ∈ a.overlay.enabled ∨
      ∃ s, fileSettings t here root a = .ok s ∧ s.options.dryRun = true := by
  unfold mergedSettings at h
  cases hfile : fileSettings t here root a with
  | error failure =>
    rw [hfile] at h
    cases h
  | ok s =>
    rw [hfile] at h
    have hmerged : (s.overlay a.overlay).mapError Failure.settingsFields = .ok merged := h
    cases hoverlay : s.overlay a.overlay with
    | error errors =>
      rw [hoverlay] at hmerged
      cases hmerged
    | ok overlaid =>
      rw [hoverlay] at hmerged
      cases hmerged
      have hget : merged.options.dryRun = (decide (Switch.dryRun ∈ a.overlay.enabled) ||
          s.options.dryRun) := Switch.get_overlay (s := .dryRun) (by decide) hoverlay
      simp [hget]

/-- Whether a command line asks for an analysis or for a dry run, wherever it does so. -/
def ChangesNothing (t : Tree) (here root : Root) (a : Arguments) : Prop :=
  a.analyze = true ∨ ∀ merged, mergedSettings t here root a = .ok merged →
    merged.options.dryRun = true

/-- The work on a command line that asks for an analysis or for a dry run changes nothing. -/
theorem spares_work {here root : Root} (shelf : Shelf) {a : Arguments} {w : Workspace}
    (h : ChangesNothing w.tree here root a) : Run.SparesFrom w (work here root shelf a) := by
  unfold Run.SparesFrom work
  rw [Run.exec_bind, exec_settings]
  cases hmerged : mergedSettings w.tree here root a with
  | error failure => exact ⟨rfl, rfl⟩
  | ok s =>
    -- With the settings at hand, all that is left to do spares every tree.
    have hrest : Run.Spares (do
        Run.noteAll shelf.registryNotices
        let outcome ← if a.analyze then do
            pure (Outcome.ofAnalysis (← Project.analyze root shelf.registry s.options.target))
          else Project.upgrade root shelf.registry s.options
        return report s.format a.analyze outcome) := by
      refine .bind (.noteAll _) fun _ => ?_
      dsimp only
      split
      · exact .bind (Project.spares_analyze root _ _) fun findings =>
          .bind (.pure _) fun outcome => .pure _
      · rename_i hanalyze
        exact .bind (Project.spares_upgrade root _ (h.resolve_left hanalyze s hmerged))
          fun outcome => .pure _
    exact hrest w

/-- The directory of the application that a command line names. -/
def rootOf (place : Place) (a : Arguments) : Root := ⟨place, (Path.Lexical.parse a.path).text⟩

/-- A command line that asks for an analysis or for a dry run changes nothing. -/
theorem run_spares {directory : Place} (shelf : Shelf) (detail : String) {args : List String}
    {w : Workspace} (h : ∀ a place, Arguments.parse args = .ok a →
      w.tree.look ⟨directory, "."⟩ a.path = .dir place →
        ChangesNothing w.tree ⟨directory, "."⟩ (rootOf place a) a) :
    ((run directory shelf detail args).run w).2.tree = w.tree ∧
      ((run directory shelf detail args).run w).2.writes = w.writes := by
  unfold run
  cases hparse : Arguments.parse args with
  | error e => exact ⟨rfl, rfl⟩
  | ok a =>
    simp only
    split
    · exact ⟨rfl, rfl⟩
    · split
      · exact ⟨rfl, rfl⟩
      · simp only [StateT.run_bind, StateT.run_get, pure_bind]
        cases hlook : w.tree.look ⟨directory, "."⟩ a.path with
        | dir place =>
          have hwork := spares_work shelf (h a place hparse hlook)
          unfold Run.SparesFrom Run.exec rootOf at hwork
          simp only
          split
          · exact ⟨rfl, rfl⟩
          · -- The reply is made of the result of the work, and leaves what the work has left.
            rw [StateT.run_bind]
            generalize StateT.run (ExceptT.run (work _ _ shelf a)) w = done at hwork ⊢
            obtain ⟨result, w'⟩ := done
            cases result with
            | ok reply => exact hwork
            | error failure => exact hwork
        | _ => exact ⟨rfl, rfl⟩

/-- Analyses and dry runs change nothing, however they are asked for. What a command line asks for
stays asked for, and the merged settings ask for a dry run if the file or the command line does. A
command line that asks for either leaves the tree as it is and writes nothing. So do the runs of the
library, and a dry run that has an outcome lists every finding as left and no file as changed. -/
theorem dry_runs_change_nothing :
    (∀ (a a' : Arguments) (rest : List String),
      (a.read false ("--analyze" :: rest) = .ok a' → a'.analyze = true) ∧
      (a.read false ("--dry-run" :: rest) = .ok a' → Switch.dryRun ∈ a'.overlay.enabled)) ∧
    (∀ (t : Tree) (here root : Root) (a : Arguments) (merged : Settings),
      mergedSettings t here root a = .ok merged →
        (merged.options.dryRun = true ↔ Switch.dryRun ∈ a.overlay.enabled ∨
          ∃ s, fileSettings t here root a = .ok s ∧ s.options.dryRun = true)) ∧
    (∀ (directory : Place) (shelf : Shelf) (detail : String) (args : List String) (w : Workspace),
      (∀ a place, Arguments.parse args = .ok a →
        w.tree.look ⟨directory, "."⟩ a.path = .dir place →
          ChangesNothing w.tree ⟨directory, "."⟩ (rootOf place a) a) →
      ((run directory shelf detail args).run w).2.tree = w.tree ∧
        ((run directory shelf detail args).run w).2.writes = w.writes) ∧
    (∀ (root : Root) (registry : Registry) (target : Option String) (w : Workspace),
      Run.SparesFrom w (Project.analyze root registry target)) ∧
    (∀ (root : Root) (registry : Registry) (o : Options) (w : Workspace), o.dryRun = true →
      Run.SparesFrom w (Project.upgrade root registry o) ∧
        ∀ outcome, (Run.exec (Project.upgrade root registry o) w).1 = .ok outcome →
          outcome.changed = [] ∧ outcome.unresolved = outcome.findings) := by
  refine ⟨fun a a' rest => ⟨Arguments.analyze_of_read, Arguments.dryRun_of_read⟩,
    fun t here root a merged => dryRun_mergedSettings,
    fun directory shelf detail args w => run_spares shelf detail,
    fun root registry target w => Project.spares_analyze root registry target w,
    fun root registry o w hdry => ⟨Project.spares_upgrade root registry hdry w, ?_⟩⟩
  intro outcome houtcome
  -- What a dry run answers is told from the findings alone.
  rw [Project.exec_upgrade_dry registry root hdry] at houtcome
  cases hfound : Project.scanned w.tree root registry (Project.targetOf w.tree root o) with
  | error failure =>
    rw [hfound] at houtcome
    cases houtcome
  | ok findings =>
    rw [hfound] at houtcome
    cases houtcome
    exact ⟨rfl, rfl⟩

/-- An application whose settings ask for a dry run. -/
def drySpace : Workspace where
  tree := { files := [(["upshift.yml"], Text.encode "dry_run: true\n".toList),
    (["config", "application.rb"], Text.encode "module App\nend\n".toList)] }

/-- The command line asks for updates and for repairs that are not safe, and nothing changes. -/
theorem dry_runs_change_nothing_settings :
    ((run [] {} "" ["--update-configs", "--unsafe"]).run drySpace).2.tree = drySpace.tree ∧
      ((run [] {} "" ["--update-configs", "--unsafe"]).run drySpace).2.writes = [] := by
  have hread : (Settings.find drySpace.tree ⟨[], "."⟩).toOption.map (·.options.dryRun) =
      some true := by
    decide +kernel
  refine dry_runs_change_nothing.2.2.1 [] {} "" ["--update-configs", "--unsafe"] drySpace ?_
  intro a place hparse hlook
  have ha : a = { overlay := { enabled := [.updateConfigs], allRepairs := true } } :=
    (Except.ok.inj hparse).symm
  subst ha
  obtain rfl : place = [] := by
    have hhere : drySpace.tree.look ⟨[], "."⟩ "." = .dir [] := rfl
    cases hlook.symm.trans hhere
    rfl
  refine .inr fun merged hmerged => (dryRun_mergedSettings hmerged).mpr (.inr ?_)
  obtain ⟨s, hs, hdry⟩ := Option.map_eq_some_iff.mp hread
  exact ⟨s, Run.eq_ok_of_toOption hs, hdry⟩

end Command

end RailsUpgrade
