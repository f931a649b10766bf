import RailsUpgrade.Proofs.DetectedRelease
import RailsUpgrade.Proofs.ReleaseFiles

/-!
# `RailsUpgrade.Proofs.SteadyTarget`: a second upgrade to a detected target

Without a target an upgrade reads one off the Gemfile, and the update of the Gemfile writes the pin that
the next upgrade reads. So the second target may be another version of the same release line, or, where
the update leaves no pin to be read, another release line altogether:

* `releaseLine?_again_iff`: when the release line stays;
* `textAt_gemfile_upgrade`: what an upgrade makes of the Gemfile, whatever its other parts do;
* `SameSettings`: what the second target would set in the configuration files is set;
* `second_upgrade_steady`: the release line and the files after a first upgrade.
-/

set_option autoImplicit false

namespace RailsUpgrade.Project

open FrameworkConfig (Edit edits Setting AllSet addBootsnap allowHosts dropUglifier loadDefaults
  setLoadDefaults)
open Gemfile (ReleaseLine Tidy Unbroken pinOf releaseLine? releaseLines)

variable {root : Root} {o : Options} {w w' w₁ : Workspace} {t : Tree} {text : List Char} {a b : String}

/-! ### The target of an updated Gemfile -/

/-- The target that a Gemfile tells. -/
def targetIn (text : List Char) : String := (pinnedVersion? text).getD defaultTarget

/-- The Gemfile once it has been updated to the target that it tells. -/
def updatedGemfile (text : List Char) : List Char := Gemfile.updated (targetIn text) text

/-- An update to the target that a Gemfile tells keeps its release line, unless it leaves no pin to be
read; then the target is that of applications without a pin. -/
theorem releaseLine?_again_iff (hunbroken : Unbroken text) (hwhole : WholePins (updatedGemfile text)) :
    releaseLine? (targetIn (updatedGemfile text)) = releaseLine? (targetIn text) ↔
      (pinnedVersion? (updatedGemfile text) = none →
        releaseLine? (targetIn text) = releaseLine? defaultTarget) := by
  have hdefault : pinnedVersion? (updatedGemfile text) = none →
      targetIn (updatedGemfile text) = defaultTarget := fun hnone => by rw [targetIn, hnone, Option.getD_none]
  refine ⟨fun hsame hnone => by rw [← hsame, hdefault hnone], fun hnone => ?_⟩
  cases hline : releaseLine? (targetIn text) with
  | none => rw [updatedGemfile, Gemfile.updated, hline, hline]
  | some line =>
    have hmem := List.mem_of_find?_eq_some hline
    obtain ⟨lines, hlines, hupdated⟩ := Gemfile.exists_upToDate_updateTo hmem (targetIn text) hunbroken
    have hgemfile : updatedGemfile text = Gemfile.updateTo line (targetIn text) text := by
      rw [updatedGemfile, Gemfile.updated, hline]
    have htidy : Tidy (pinOf hmem) (updatedGemfile text) := by
      rw [hgemfile, hupdated]
      exact hlines.tidy
    rcases pinnedVersion?_of_tidy hmem htidy hwhole with hpin | hpin
    · rw [hdefault hpin, ← hnone hpin, hline]
    · rw [targetIn, hpin, Option.getD_some, releaseLine?_pinnedTo line hmem]

/-- Then no rule and no edit of the Gemfile tells the two targets apart. -/
theorem sameRelease_again
    (h : releaseLine? (targetIn (updatedGemfile text)) = releaseLine? (targetIn text)) :
    SameRelease (targetIn text) (targetIn (updatedGemfile text)) := by
  cases hline : releaseLine? (targetIn text) with
  | none =>
    have hsame : updatedGemfile text = text := by rw [updatedGemfile, Gemfile.updated, hline]
    exact .inl (by rw [hsame])
  | some line => exact Gemfile.sameRelease_of_releaseLine? hline (h.trans hline)

/-- A second update of the Gemfile to a target of the same release changes nothing. -/
theorem updated_again (hunbroken : Unbroken text)
    (h : releaseLine? (targetIn (updatedGemfile text)) = releaseLine? (targetIn text)) :
    Gemfile.updated (targetIn (updatedGemfile text)) (updatedGemfile text) = updatedGemfile text := by
  have hsame := sameRelease_again h
  cases hline : releaseLine? (targetIn text) with
  | none => rw [Gemfile.updated, h, hline]
  | some line =>
    have hgemfile : updatedGemfile text = Gemfile.updateTo line (targetIn text) text := by
      rw [updatedGemfile, Gemfile.updated, hline]
    rw [Gemfile.updated, h, hline]
    simp only
    rw [← Gemfile.updateTo_congr hsame, hgemfile]
    exact Gemfile.updateTo_updateTo (List.mem_of_find?_eq_some hline) _ hunbroken

/-! ### The Gemfile after an upgrade -/

theorem path_gemfile : "Gemfile" = Path.ofNames ["Gemfile"] := by decide

theorem read_gemfile_iff (ht : t.WellFormed) :
    t.read root "Gemfile" = .ok text ↔ t.textAt root ["Gemfile"] = some text := by
  have hread : t.read root (Path.ofNames ["Gemfile"]) = .ok text ↔ _ :=
    Tree.read_eq_ok_iff ht areNames_gemfile
  rwa [← path_gemfile] at hread

theorem gemfileText_eq (ht : t.WellFormed) : gemfileText t root = (t.textAt root ["Gemfile"]).getD [] := by
  unfold gemfileText
  split
  · rename_i text hread
    rw [(read_gemfile_iff ht).mp hread, Option.getD_some]
  · rename_i fault hread
    cases htext : t.textAt root ["Gemfile"] with
    | none => rfl
    | some text =>
      rw [(read_gemfile_iff ht).mpr htext] at hread
      cases hread

/-- An update that does not fail leaves the updated text in the Gemfile. -/
theorem textAt_updateGemfile {target : String} {gems : List String} (ht : w.tree.WellFormed)
    (htext : w.tree.textAt root ["Gemfile"] = some text)
    (h : Run.exec (updateGemfile root target) w = (.ok gems, w')) :
    w'.tree.WellFormed ∧ Version.overlong? target = none ∧
      w'.tree.textAt root ["Gemfile"] = some (Gemfile.updated target text) := by
  obtain ⟨bytes, hfile, hdecode⟩ := Option.bind_eq_some_iff.mp htext
  have hthere : w.tree.isFileAt root "Gemfile" = true := by
    rw [path_gemfile, isFileAt_ofNames ht areNames_gemfile, hfile, Option.isSome_some]
  rw [updateGemfile, Run.exec_tree_bind, hthere] at h
  obtain ⟨changed, w₁, hedit, hrest⟩ := Run.exec_bind_eq_ok h
  -- What is told about the edit does not touch the tree.
  have htree : w'.tree = w₁.tree := by
    split at hrest <;> cases hrest <;> rfl
  rw [htree]
  rw [Run.edit, Run.exec_tree_bind, (read_gemfile_iff ht).mpr htext] at hedit
  unfold Gemfile.update at hedit
  cases hlong : Version.overlong? target with
  | some number =>
    rw [hlong] at hedit
    cases hedit
  | none =>
    simp only [hlong, Except.mapError] at hedit
    split at hedit
    · rename_i hsame
      cases hedit
      exact ⟨ht, rfl, by rw [htext, eq_of_beq hsame]⟩
    -- The text is written over the file that was read, and it holds no return to be lost.
    · have hlook := Tree.look_of_file? ht areNames_gemfile.ne_nil hfile
      rw [← path_gemfile] at hlook
      have hwrite := Tree.write_of_look ht (by decide) hlook (Gemfile.updated target text)
      rw [Run.exec_bind_of_ok (Run.exec_write_ok hwrite)] at hedit
      cases hedit
      refine ⟨ht.put (by simp [hfile]) _, rfl, ?_⟩
      have hsolid := Gemfile.return_notMem_updated target (Text.return_notMem_of_decode? hdecode)
      rw [Tree.textAt, Tree.file?_put, if_pos rfl, Option.bind_some, Text.decode?_encode_of_notMem hsolid]

/-- The rest of an upgrade leaves the Gemfile alone. -/
theorem avoids_afterGemfile_gemfile {target : String} (ht : w.tree.WellFormed) (gems : List String) :
    Run.Avoids root [["Gemfile"]] w (afterGemfile root o target gems) := by
  have hconfigs : ∀ e ∈ edits, Path.namesOf e.path ∉ [["Gemfile"]] := by decide
  refine avoids_afterGemfile ht (by simp [releaseFiles]) (fun r _ names hcovers hmem => ?_)
    (fun e he _ _ _ hmem => ?_) gems
  · rw [List.mem_singleton.mp hmem] at hcovers
    exact absurd hcovers (by decide)
  · exact absurd hmem (hconfigs e he)

/-- Within an upgrade that has an outcome the Gemfile is updated, and left alone before and after. -/
theorem exists_gemfile_update {first : Outcome} (ht : w.tree.WellFormed) (hgems : o.updateGems = true)
    (hdry : o.dryRun = false) (h : Run.exec (upgrade root .stock o) w = (.ok first, w₁)) :
    ∃ before gems after, Untouched root [["Gemfile"]] w before ∧
      Run.exec (updateGemfile root (targetOf w.tree root o)) before = (.ok gems, after) ∧
      (after.tree.WellFormed → Untouched root [["Gemfile"]] after w₁) := by
  obtain ⟨before, gems, after, updated, hbefore, hgemfile, hrest⟩ := exists_parts ht hdry h
  rw [onlyIf, if_pos hgems] at hgemfile
  refine ⟨before, gems, after, ?_, hgemfile, fun hafter => ?_⟩
  · refine hbefore [["Gemfile"]] fun names hmem text _ => ?_
    rw [List.mem_singleton.mp hmem]
    exact stockRepaired_gemfile o.safeMode (targetOf w.tree root o) text
  · have havoids : Run.Avoids root [["Gemfile"]] after (afterGemfile root
        { o with target := some (targetOf w.tree root o) } (targetOf w.tree root o) gems) :=
      avoids_afterGemfile_gemfile hafter gems
    exact havoids.ends (Untouched.refl hafter) hrest

/-- An upgrade that has an outcome leaves the updated text in the Gemfile. -/
theorem textAt_gemfile_upgrade {first : Outcome} (ht : w.tree.WellFormed) (hgems : o.updateGems = true)
    (hdry : o.dryRun = false) (h : Run.exec (upgrade root .stock o) w = (.ok first, w₁)) :
    w₁.tree.WellFormed ∧ w₁.tree.textAt root ["Gemfile"] =
        (w.tree.textAt root ["Gemfile"]).map (Gemfile.updated (targetOf w.tree root o)) ∧
      ((w.tree.textAt root ["Gemfile"]).isSome → Version.overlong? (targetOf w.tree root o) = none) := by
  obtain ⟨before, gems, after, hbefore, hgemfile, hafter⟩ := exists_gemfile_update ht hgems hdry h
  have htext := hbefore.textAt (List.mem_singleton_self _)
  cases hread : w.tree.textAt root ["Gemfile"] with
  -- Without a Gemfile there is nothing to set, and the step leaves the place empty.
  | none =>
    rw [hread] at htext
    have havoids : Run.Avoids root [["Gemfile"]] before (updateGemfile root (targetOf w.tree root o)) :=
      avoids_updateGemfile fun _ text hsome => by
        rw [htext] at hsome
        cases hsome
    have hkept := havoids.ends (Untouched.refl hbefore.wellFormed) hgemfile
    have hlast := hafter hkept.wellFormed
    refine ⟨hlast.wellFormed, ?_, fun hsome => by cases hsome⟩
    rw [hlast.textAt (List.mem_singleton_self _), hkept.textAt (List.mem_singleton_self _), htext]
    rfl
  | some text =>
    rw [hread] at htext
    obtain ⟨hwellFormed, hlong, hupdated⟩ := textAt_updateGemfile hbefore.wellFormed htext hgemfile
    have hlast := hafter hwellFormed
    refine ⟨hlast.wellFormed, ?_, fun _ => hlong⟩
    rw [hlast.textAt (List.mem_singleton_self _), hupdated]
    rfl

/-! ### What the second target sets -/

/-- A version sets the defaults of a text that another one has set exactly if both have the same release
line, or the text sets none. -/
theorem setLoadDefaults_eq_iff {v v' : Version} (hset : setLoadDefaults v text = text) :
    setLoadDefaults v' text = text ↔ (loadDefaults.found text = true → v.line = v'.line) := by
  have hpart : loadDefaults.found text = true → "config.load_defaults".toList <:+: text := by
    intro hfound
    obtain ⟨lead, taken, after, new, rfl, ⟨s, rfl⟩, -, -⟩ :=
      (Pattern.found_iff (FrameworkConfig.swaps_loadDefaults v) text).mp hfound
    rw [s.text_eq]
    exact ⟨lead, s.gap ++ s.value ++ after, by simp⟩
  constructor
  · intro hset' hfound
    have hall : ∀ {u : Version}, setLoadDefaults u text = text → AllSet u text := by
      intro u hu
      rw [FrameworkConfig.setLoadDefaults_of_part (hpart hfound)] at hu
      have hpass := Pattern.pass_replaceAll (FrameworkConfig.swaps_loadDefaults u) text
      rw [hu] at hpass
      exact FrameworkConfig.allSet_of_pass hpass
    obtain ⟨lead, taken, after, new, htext, ⟨s, rfl⟩, hstop, -⟩ :=
      (Pattern.found_iff (FrameworkConfig.swaps_loadDefaults v) text).mp hfound
    have hsame := (hall hset lead s after htext hstop).symm.trans (hall hset' lead s after htext hstop)
    rw [Setting.text_eq, Setting.text_eq] at hsame
    exact String.toList_inj.mp (List.append_cancel_left (List.append_cancel_left hsame))
  · intro hline
    by_cases hfound : loadDefaults.found text = true
    · rw [setLoadDefaults, ← hline hfound, ← setLoadDefaults]
      exact hset
    by_cases hname : "config.load_defaults".toList <:+: text
    · rw [FrameworkConfig.setLoadDefaults_of_part hname]
      rcases (Pattern.pass_replaceAll (FrameworkConfig.swaps_loadDefaults v') text).first with
        ⟨-, hsame⟩ | ⟨lead, taken, after, new, more, htext, hswap, -⟩
      · exact hsame
      · exact absurd ((Pattern.found_iff (FrameworkConfig.swaps_loadDefaults v') text).mpr
          ⟨lead, taken, after, new, htext, by simpa using hswap⟩) hfound
    · -- Without the name a setting would have been put in, so there is no place for it.
      rw [setLoadDefaults, if_neg (by rwa [Text.hasPart_iff]), Pattern.Expr.replaceFirst] at hset ⊢
      cases hsearch : FrameworkConfig.applicationClass.expr.search text with
      | none => rfl
      | some m =>
        have hlength := congrArg List.length (hset.trans (Pattern.hit_of_search hsearch).1)
        simp only [hsearch, List.length_append] at hlength
        have hsetting : "config.load_defaults ".toList.length = 21 := by decide
        omega

/-- What a second target would set in the configuration files is set: the framework defaults, which go
with the release line of a version, and the faster start, which is asked for from 5.2 on. -/
structure SameSettings (root : Root) (t : Tree) (a b : String) : Prop where
  defaults : ∀ v v' text, Version.parse? a = some v → Version.parse? b = some v' →
    t.textAt root ["config", "application.rb"] = some text → loadDefaults.found text = true →
    v.line = v'.line
  start : Version.atLeast (some b) "5.2.0" = true → ∀ text,
    t.textAt root ["config", "boot.rb"] = some text → addBootsnap text = text

/-- Where a target finds all configuration files set, another one of the same release does so exactly if
it has the same settings. -/
theorem isSet_iff (h : SameRelease a b) (hset : ∀ e ∈ edits, IsSet root a t e) :
    (∀ e ∈ edits, IsSet root b t e) ↔ SameSettings root t a b := by
  have hnames : Path.namesOf "config/application.rb" = ["config", "application.rb"] ∧
      Path.namesOf "config/boot.rb" = ["config", "boot.rb"] := by decide
  have hparse : ∀ {v'}, Version.parse? b = some v' → ∃ v, Version.parse? a = some v := by
    intro v' hv'
    rcases h with rfl | ⟨v, -, hv, -, -⟩
    · exact ⟨v', hv'⟩
    · exact ⟨v, hv⟩
  have hzero : ∀ {c : String} {v}, Version.parse? c = some v → Version.atLeast (some c) "0.0.0" = true := by
    intro c v hv
    have hfirst : Version.parse? "0.0.0" = some ⟨0, 0, 0⟩ := by decide
    rw [Gemfile.atLeast_release hv hfirst]
    simp
  -- The two releases agree on both borders that the edits ask for, so that they ask for the same edits.
  have hsix : Version.atLeast (some a) "6.0.0" = Version.atLeast (some b) "6.0.0" :=
    h.admits (by decide)
  have hseven : Version.atLeast (some a) "7.0.0" = Version.atLeast (some b) "7.0.0" :=
    h.admits (by decide)
  simp only [edits, List.forall_mem_cons, List.not_mem_nil, false_imp_iff, implies_true, and_true, IsSet,
    hnames] at hset ⊢
  obtain ⟨happlication, -, hdevelopment, hproduction⟩ := hset
  -- What is left to compare are the lines of the defaults and of the start.
  constructor
  · rintro ⟨happlication', hboot', -, -⟩
    refine ⟨fun v v' text hv hv' htext => ?_, fun hsince text htext => ?_⟩
    · exact (setLoadDefaults_eq_iff (happlication v hv (hzero hv) text htext)).mp
        (happlication' v' hv' (hzero hv') text htext)
    · obtain ⟨v', hv'⟩ := Version.exists_parse_of_atLeast hsince
      exact hboot' v' (Version.parse?_of_parse hv') hsince text htext
  · intro hsame
    refine ⟨fun v' hv' _ text htext => ?_, fun _ _ hsince => hsame.start hsince,
      fun v' hv' hsince => ?_, fun v' hv' hsince => ?_⟩
    · obtain ⟨v, hv⟩ := hparse hv'
      exact (setLoadDefaults_eq_iff (happlication v hv (hzero hv) text htext)).mpr
        (hsame.defaults v v' text hv hv' htext)
    · obtain ⟨v, hv⟩ := hparse hv'
      exact hdevelopment v hv (hsix.trans hsince)
    · obtain ⟨v, hv⟩ := hparse hv'
      exact hproduction v hv (hseven.trans hsince)

/-! ### An application without a settled release -/

/-- Settings of Rails 6.0. -/
def earlySettings : List Char := "config.load_defaults 6.0".toList

/-- An application that asks for no release in particular from 6.0 on, with the settings of 6.0. -/
def looseApp : Workspace :=
  { tree := { files := [(["Gemfile"], Text.encode "gem 'rails', '>= 6.0'".toList),
      (["config", "application.rb"], Text.encode earlySettings)] } }

theorem repaired_earlySettings (safe : Bool) (target : String) (names : List String) :
    stockRepaired safe target names earlySettings = earlySettings := by
  refine stockRepaired_of_repairs safe target names ?_
  rw [Catalogue.repairs_eq]
  decide +kernel

theorem textAt_looseApp : ∀ e ∈ edits, ∀ text,
    looseApp.tree.textAt ⟨[], "."⟩ (Path.namesOf e.path) = some text → text = earlySettings := by
  have hfiles : ∀ e ∈ edits, looseApp.tree.textAt ⟨[], "."⟩ (Path.namesOf e.path) = none ∨
      looseApp.tree.textAt ⟨[], "."⟩ (Path.namesOf e.path) = some earlySettings := by decide +kernel
  intro e he text htext
  rcases hfiles e he with hnone | hsome
  · rw [hnone] at htext
    cases htext
  · rw [hsome] at htext
    exact (Option.some.inj htext).symm


def releaseOptions : Options := { updateGems := true, updateConfigs := true }

/-- The upgrade of this application pins 6.1 and leaves the settings as they are. -/
theorem exists_upgrade_looseApp : ∃ outcome w₁,
    Run.exec (upgrade ⟨[], "."⟩ .stock releaseOptions) looseApp = (.ok outcome, w₁) ∧
    gemfileText w₁.tree ⟨[], "."⟩ = "ruby '2.7.0'\ngem 'rails', '~> 6.1.0'".toList ∧
    ∀ e ∈ edits, w₁.tree.textAt ⟨[], "."⟩ (Path.namesOf e.path) =
      looseApp.tree.textAt ⟨[], "."⟩ (Path.namesOf e.path) := by
  have ht : looseApp.tree.WellFormed := by decide +kernel
  have htarget : targetOf looseApp.tree ⟨[], "."⟩ releaseOptions = "6.0" := by decide +kernel
  have hv : Version.parse (targetOf looseApp.tree ⟨[], "."⟩ releaseOptions) = .ok ⟨6, 0, 0⟩ := by
    rw [htarget]
    decide
  obtain ⟨outcome, w₁, hrun⟩ := exists_upgrade ht rfl hv rfl rfl
  refine ⟨outcome, w₁, hrun, ?_, fun e he => ?_⟩
  -- The Gemfile gets a pin for the target of the first run.
  · obtain ⟨ht₁, htext, -⟩ := textAt_gemfile_upgrade ht rfl rfl hrun
    have hgemfile : looseApp.tree.textAt ⟨[], "."⟩ ["Gemfile"] = some "gem 'rails', '>= 6.0'".toList := by
      decide +kernel
    rw [gemfileText_eq ht₁, htext, hgemfile, htarget]
    decide +kernel
  -- The settings are those of the release already, so that the first run leaves them.
  · have hgemfile : ["Gemfile"] ∉ edits.map fun e => Path.namesOf e.path := by decide
    have hset : ∀ e ∈ edits, looseApp.tree.textAt ⟨[], "."⟩ (Path.namesOf e.path) = none ∨
        e.apply ⟨6, 0, 0⟩ earlySettings = earlySettings := by decide +kernel
    have hkept : Untouched ⟨[], "."⟩ (edits.map fun e => Path.namesOf e.path) looseApp
        (Run.exec (upgrade ⟨[], "."⟩ .stock releaseOptions) looseApp).2 := by
      refine untouched_upgrade ht rfl (fun hmem => absurd hmem hgemfile) ?_
        (List.subset_cons_self _ _) ?_ (fun r hr => absurd hr List.not_mem_nil)
      · intro names hnames text htext
        obtain ⟨e, he, rfl⟩ := List.mem_map.mp hnames
        rw [textAt_looseApp e he text htext]
        exact repaired_earlySettings _ _ _
      · intro e he v hparse _ _ text htext
        obtain rfl := Except.ok.inj (hv.symm.trans hparse)
        rcases hset e he with hnone | hsame
        · rw [hnone] at htext
          cases htext
        · rw [textAt_looseApp e he text htext]
          exact congrArg Except.ok hsame
    rw [hrun] at hkept
    exact hkept.textAt (List.mem_map_of_mem he)

/-! ### Two upgrades -/

/-- In the configuration files nothing is left to do for a target. -/
structure Quiet (root : Root) (o : Options) (target : String) (t : Tree) : Prop where
  repaired : ∀ e ∈ edits, ∀ text, t.textAt root (Path.namesOf e.path) = some text →
    stockRepaired o.safeMode target (Path.namesOf e.path) text = text
  unmoved : ∀ r ∈ askedPlan o t root, ∀ e ∈ edits, ∀ text,
    t.textAt root (Path.namesOf e.path) = some text → r.redirect text = .ok text
  isSet : ∀ e ∈ edits, IsSet root target t e

/-- An upgrade that moves no class leaves its configuration files quiet if it leaves nothing to repair
in them. -/
theorem quiet_upgrade {first : Outcome} (ht : w.tree.WellFormed) (hconfigs : o.updateConfigs = true)
    (hdry : o.dryRun = false) (h : Run.exec (upgrade root .stock o) w = (.ok first, w₁))
    (hplan : askedPlan o w.tree root = [])
    (hrepaired : ∀ e ∈ edits, ∀ text, w₁.tree.textAt root (Path.namesOf e.path) = some text →
      stockRepaired o.safeMode (targetOf w.tree root o) (Path.namesOf e.path) text = text) :
    Quiet root o (targetOf w.tree root o) w₁.tree := by
  obtain ⟨before, gems, after, updated, hbefore, hgemfile, hrest⟩ := exists_parts ht hdry h
  obtain ⟨configs, wc, hset, hrest⟩ := Run.exec_bind_eq_ok hrest
  rw [onlyIf, if_pos (by exact hconfigs)] at hset
  -- The jobs stay where they are, so no part of both upgrades moves a class.
  have hafter : Untouched root [] w after := by
    have havoids : Run.Avoids root [] w (onlyIf o.updateGems (updateGemfile root (targetOf w.tree root o))) :=
      avoids_onlyIf (avoids_updateGemfile fun hmem => absurd hmem List.not_mem_nil)
    exact havoids.ends (hbefore [] (by simp)) hgemfile
  have hwc : Untouched root [] w wc := by
    have havoids : Run.Avoids root [] w (updateConfigs root (targetOf w.tree root o)) :=
      avoids_updateConfigsWith (List.Subset.refl _) fun _ _ _ _ _ hmem => absurd hmem List.not_mem_nil
    exact havoids.ends hafter hset
  have hnone : ∀ {t'}, t'.WellFormed → SameJobs root w.tree t' → askedPlan o t' root = [] :=
    fun ht' hjobs => by rw [← askedPlan_congr o ht ht' hjobs, hplan]
  have hw₁ : Untouched root (edits.map fun e => Path.namesOf e.path) wc w₁ := by
    have havoids : Run.Avoids root (edits.map fun e => Path.namesOf e.path) wc (afterConfigs root
        { o with target := some (targetOf w.tree root o) } (targetOf w.tree root o) (gems ++ configs)) :=
      avoids_afterConfigs hwc.wellFormed (List.subset_cons_self _ _)
        (fun r hr => absurd (hnone hwc.wellFormed hwc.jobs ▸ hr) List.not_mem_nil) _
    exact havoids.ends (Untouched.refl hwc.wellFormed) hrest
  obtain ⟨-, hsettled, -⟩ :=
    settled_updateConfigsWith hafter.wellFormed (List.Subset.refl edits) nodup_config_paths hset
  refine ⟨hrepaired, fun r hr => ?_, fun e he => ?_⟩
  · rw [hnone hw₁.wellFormed (hwc.jobs.trans hw₁.jobs)] at hr
    exact absurd hr List.not_mem_nil
  · exact ((configWrite_eq_none_iff hwc.wellFormed he).mp (hsettled e he).idle).congr
      (hw₁.textAt (List.mem_map_of_mem he))

/-- A number that is too long is in none of two targets of the same release that differ. -/
theorem overlong?_of_sameRelease (h : SameRelease a b) (hlong : Version.overlong? a = none) :
    Version.overlong? b = none := by
  rcases h with rfl | ⟨-, v', -, hv', -⟩
  · exact hlong
  · exact Version.overlong?_of_parse (Run.eq_ok_of_toOption hv')

/-- An upgrade to a target of the same release as one that has nothing left to do. -/
theorem leftAlone_iff_sameSettings (ht : w.tree.WellFormed) (hconfigs : o.updateConfigs = true)
    (hdry : o.dryRun = false) (hsame : SameRelease a (targetOf w.tree root o))
    (hgemfile : ∀ text, w.tree.textAt root ["Gemfile"] = some text →
      Version.overlong? a = none ∧ Gemfile.updated (targetOf w.tree root o) text = text)
    (hquiet : Quiet root o a w.tree) :
    LeftAlone root releaseFiles w (Run.exec (upgrade root .stock o) w).2 ↔
      SameSettings root w.tree a (targetOf w.tree root o) := by
  have hgems : ∀ text, w.tree.textAt root ["Gemfile"] = some text →
      Gemfile.update (targetOf w.tree root o) text = .ok text := by
    intro text htext
    obtain ⟨hlong, hupdated⟩ := hgemfile text htext
    rw [Gemfile.update, overlong?_of_sameRelease hsame hlong]
    exact congrArg Except.ok hupdated
  have hrepaired : ∀ e ∈ edits, ∀ text, w.tree.textAt root (Path.namesOf e.path) = some text →
      stockRepaired o.safeMode (targetOf w.tree root o) (Path.namesOf e.path) text = text := by
    intro e he text htext
    rw [← stockRepaired_congr hsame]
    exact hquiet.repaired e he text htext
  exact (leftAlone_iff hgems hrepaired hquiet.unmoved ht hdry hconfigs).trans (isSet_iff hsame hquiet.isSet)

theorem targetOf_of_none (h : o.target = none) (t : Tree) : targetOf t root o = detectTarget t root := by
  rw [targetOf, h, Option.getD_none]

/-- After an upgrade to a detected target, the target that is detected next has the same release line,
unless no pin is left to be read and the release line is not that of applications without a pin. Then a
second upgrade changes neither the Gemfile nor a configuration file exactly if the second target sets
what the first one has set. -/
theorem second_upgrade_steady {first : Outcome} (ht : w.tree.WellFormed) (htarget : o.target = none)
    (hgems : o.updateGems = true) (hconfigs : o.updateConfigs = true) (hdry : o.dryRun = false)
    (h : Run.exec (upgrade root .stock o) w = (.ok first, w₁))
    (hunbroken : Unbroken (gemfileText w.tree root)) (hwhole : WholePins (gemfileText w₁.tree root))
    (hquiet : Quiet root o (detectTarget w.tree root) w₁.tree) :
    (releaseLine? (detectTarget w₁.tree root) = releaseLine? (detectTarget w.tree root) ↔
      (pinnedVersion? (gemfileText w₁.tree root) = none →
        releaseLine? (detectTarget w.tree root) = releaseLine? defaultTarget)) ∧
    (releaseLine? (detectTarget w₁.tree root) = releaseLine? (detectTarget w.tree root) →
      (LeftAlone root releaseFiles w₁ (Run.exec (upgrade root .stock o) w₁).2 ↔
        SameSettings root w₁.tree (detectTarget w.tree root) (detectTarget w₁.tree root))) := by
  have htargetOf : ∀ t, targetOf t root o = detectTarget t root := targetOf_of_none htarget
  have hdetect : ∀ t, detectTarget t root = targetIn (gemfileText t root) := fun _ => rfl
  obtain ⟨ht₁, htext₁, hlong⟩ := textAt_gemfile_upgrade ht hgems hdry h
  have hsecond : ∀ {a}, SameRelease a (detectTarget w₁.tree root) →
      (∀ text, w₁.tree.textAt root ["Gemfile"] = some text →
        Version.overlong? a = none ∧ Gemfile.updated (detectTarget w₁.tree root) text = text) →
      Quiet root o a w₁.tree → (LeftAlone root releaseFiles w₁ (Run.exec (upgrade root .stock o) w₁).2 ↔
        SameSettings root w₁.tree a (detectTarget w₁.tree root)) := by
    rw [← htargetOf]
    exact fun hsame hgemfile hquiet => leftAlone_iff_sameSettings ht₁ hconfigs hdry hsame hgemfile hquiet
  rw [htargetOf] at htext₁ hlong
  cases htext : w.tree.textAt root ["Gemfile"] with
  | none =>
    -- Without a Gemfile both upgrades have the target of applications without a pin.
    rw [htext] at htext₁
    have hsame : gemfileText w₁.tree root = gemfileText w.tree root := by
      rw [gemfileText_eq ht₁, gemfileText_eq ht, htext₁, htext]
      rfl
    have htargets : detectTarget w₁.tree root = detectTarget w.tree root := by
      rw [hdetect, hdetect, hsame]
    refine ⟨⟨fun _ hnone => ?_, fun _ => by rw [htargets]⟩, fun _ => hsecond (.inl htargets.symm) ?_ hquiet⟩
    · rw [← htargets, hdetect, targetIn, hnone, Option.getD_none]
    · intro text hsome
      rw [htext₁] at hsome
      cases hsome
  | some text =>
    have hbefore : gemfileText w.tree root = text := by rw [gemfileText_eq ht, htext, Option.getD_some]
    have hafter : gemfileText w₁.tree root = updatedGemfile text := by
      rw [gemfileText_eq ht₁, htext₁, htext, hdetect, hbefore]
      rfl
    rw [hbefore] at hunbroken
    rw [hafter] at hwhole
    simp only [hdetect, hbefore, hafter] at hsecond hquiet hlong ⊢
    refine ⟨releaseLine?_again_iff hunbroken hwhole, fun hline => ?_⟩
    refine hsecond (sameRelease_again hline) (fun text' hsome => ?_) hquiet
    obtain rfl : updatedGemfile text = text' := by
      rw [htext₁, htext, hdetect, hbefore] at hsome
      exact Option.some.inj hsome
    exact ⟨hlong (by rw [htext, Option.isSome_some]), updated_again hunbroken hline⟩

/-- The second upgrade takes 6.1 for its target, and writes it into the settings. -/
theorem second_upgrade_steady_looseApp : ∃ outcome w₁,
    Run.exec (upgrade ⟨[], "."⟩ .stock releaseOptions) looseApp = (.ok outcome, w₁) ∧
    ¬ LeftAlone ⟨[], "."⟩ releaseFiles w₁ (Run.exec (upgrade ⟨[], "."⟩ .stock releaseOptions) w₁).2 := by
  obtain ⟨outcome, w₁, hrun, hgemfile, hkept⟩ := exists_upgrade_looseApp
  have ht : looseApp.tree.WellFormed := by decide +kernel
  have hfirst : detectTarget looseApp.tree ⟨[], "."⟩ = "6.0" := by decide +kernel
  have hsecond : detectTarget w₁.tree ⟨[], "."⟩ = "6.1.0" := by
    rw [show detectTarget w₁.tree ⟨[], "."⟩ = targetIn (gemfileText w₁.tree ⟨[], "."⟩) from rfl, hgemfile]
    decide +kernel
  -- The pin that was written is whole, so that the second run detects it as a different release.
  have hunbroken : Unbroken (gemfileText looseApp.tree ⟨[], "."⟩) := by
    have hbefore : gemfileText looseApp.tree ⟨[], "."⟩ = "gem 'rails', '>= 6.0'".toList := by decide +kernel
    rw [hbefore]
    decide +kernel
  have hwhole : WholePins (gemfileText w₁.tree ⟨[], "."⟩) := by
    rw [hgemfile]
    exact wholePins_of_tails (by decide +kernel)
  have hquiet : Quiet ⟨[], "."⟩ releaseOptions (targetOf looseApp.tree ⟨[], "."⟩ releaseOptions) w₁.tree := by
    refine quiet_upgrade ht rfl rfl hrun rfl fun e he text htext => ?_
    rw [hkept e he] at htext
    rw [textAt_looseApp e he text htext]
    exact repaired_earlySettings _ _ _
  rw [targetOf_of_none rfl] at hquiet
  obtain ⟨-, hsteady⟩ := second_upgrade_steady ht rfl rfl rfl rfl hrun hunbroken hwhole hquiet
  -- A second run that left the files alone would need the defaults of both releases to be one line.
  refine ⟨outcome, w₁, hrun, fun hleft => ?_⟩
  have hsame := (hsteady (by rw [hfirst, hsecond]; decide)).mp hleft
  rw [hfirst, hsecond] at hsame
  have htext : w₁.tree.textAt ⟨[], "."⟩ ["config", "application.rb"] = some earlySettings := by
    obtain ⟨e, he, hpath⟩ : ∃ e ∈ edits, Path.namesOf e.path = ["config", "application.rb"] :=
      ⟨_, List.mem_cons_self, by decide⟩
    rw [← hpath, hkept e he, hpath]
    decide +kernel
  have hlines := hsame.defaults ⟨6, 0, 0⟩ ⟨6, 1, 0⟩ _ (by decide) (by decide) htext (by decide +kernel)
  exact absurd hlines (by decide)

end RailsUpgrade.Project
