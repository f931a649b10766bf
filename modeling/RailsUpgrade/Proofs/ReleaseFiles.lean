import RailsUpgrade.Proofs.Configs
import RailsUpgrade.Proofs.Raising
import RailsUpgrade.Proofs.Rerun
import RailsUpgrade.Proofs.Untouched

/-!
# `RailsUpgrade.Proofs.ReleaseFiles`: upgrades that leave the release files alone

An upgrade with the rules of the library may write the Gemfile and the configuration files in several of
its parts. Where repairs, the update of the Gemfile and moved classes have nothing to do in these files,
only the edits of configuration files are left:

* `stockRepaired_gemfile`: no repair of the library is for the Gemfile;
* `IsSet`: an edit of a configuration file finds it as it would make it;
* `Run.Built.writes`: a run only adds to what was written, so what one of its parts writes stays told;
* `leftAlone_iff`: an upgrade leaves these files alone exactly if all of them are set.
-/

set_option autoImplicit false

namespace RailsUpgrade

/-! ### Runs only add to what was written -/

namespace Run

variable {α β : Type} {P : Failure → Prop}

theorem Built.writes {x : Run α} (h : Built P x) (w : Workspace) :
    ∃ more, (exec x w).2.writes = w.writes ++ more := by
  induction h generalizing w with
  | pure a => exact ⟨[], (List.append_nil _).symm⟩
  | throw may => exact ⟨[], (List.append_nil _).symm⟩
  | @bind _ _ x f _ _ first rest =>
    obtain ⟨more, hmore⟩ := first w
    rw [exec_bind]
    cases hx : exec x w with
    | mk result w' =>
      rw [hx] at hmore
      cases result with
      | ok a =>
        obtain ⟨others, hothers⟩ := rest a w'
        simp only at hmore ⊢
        exact ⟨more ++ others, by rw [hothers, hmore, List.append_assoc]⟩
      | error failure => exact ⟨more, hmore⟩
  | tree => exact ⟨[], (List.append_nil _).symm⟩
  | noteAll notices => exact ⟨[], (List.append_nil _).symm⟩
  | write root path text may =>
    rw [Run.write, exec_tree_bind]
    cases hwrite : w.tree.write root path text with
    | error fault => exact ⟨[], (List.append_nil _).symm⟩
    | ok result => exact ⟨[⟨result.2, Text.encode text⟩], rfl⟩

theorem space_bind_pure (x : Run α) (f : α → β) (w : Workspace) :
    (exec (x >>= fun a => pure (f a)) w).2 = (exec x w).2 := by
  rw [exec_bind]
  cases exec x w with
  | mk result w' => cases result <;> rfl

/-- What the first part of a run writes is among what the run writes. -/
theorem writes_bind {x : Run α} {f : α → Run β} (hf : ∀ a, Built P (f a)) (w : Workspace) :
    ∃ more, (exec (x >>= f) w).2.writes = (exec x w).2.writes ++ more := by
  rw [exec_bind]
  cases exec x w with
  | mk result w' =>
    cases result with
    | ok a => exact (hf a).writes w'
    | error failure => exact ⟨[], (List.append_nil _).symm⟩

end Run

namespace Project

open FrameworkConfig (Edit edits)

variable {root : Root} {o : Options} {target : String} {t : Tree} {w : Workspace} {e : Edit}

/-! ### Repairs -/

section
open Catalogue

/-- What is looked for in a file of the project has no repair in the library. -/
theorem repairFor?_projectFiles : ∀ d ∈ Catalogue.projectFiles, repairFor? d.source = none := by
  simp only [Catalogue.projectFiles, List.forall_mem_cons, List.not_mem_nil, false_imp_iff, implies_true,
    and_true, Detection.source, protectedAttributesGem, deprecatedFindersGem, controllerTestingGem,
    coffeeGem, sassGem, uglifierGem, rubyDirectiveMissing, loadDefaultsMissing, hostsMissing, uglifierCompressor,
    Pattern.source_fixed, repairFor?, repairs_eq]
  decide

/-- Everything else is looked for in files other than the Gemfile. -/
theorem not_covers_gemfile : ∀ d ∈ deprecations ++ records ++ conventions ++ naming,
    Glob.covers d.glob ["Gemfile"] = false := by
  have hglobs : ∀ d ∈ deprecations ++ records ++ conventions ++ naming,
      d.glob ∈ [Catalogue.rubyFiles, viewFiles, mailerFiles, jobFiles, Catalogue.apiFiles] := by
    decide +kernel
  have hcovers : ∀ glob ∈ [Catalogue.rubyFiles, viewFiles, mailerFiles, jobFiles, Catalogue.apiFiles],
      Glob.covers glob ["Gemfile"] = false := by
    decide +kernel
  exact fun d hd => hcovers _ (hglobs d hd)

end

/-- No repair of the library is for the Gemfile. -/
theorem stockRepaired_gemfile (safe : Bool) (target : String) (text : List Char) :
    stockRepaired safe target ["Gemfile"] text = text := by
  refine stockRepaired_eq_iff.mpr fun source hsource _ => ?_
  rw [dueSources, mem_distinct] at hsource
  obtain ⟨d, hd, rfl⟩ := List.mem_map.mp hsource
  obtain ⟨hd, hdue⟩ := List.mem_filter.mp hd
  simp only [Bool.and_eq_true] at hdue
  rcases List.mem_append.mp hd with hd | hd
  · rw [not_covers_gemfile d hd] at hdue
    cases hdue.1.2
  · rw [Catalogue.stockStep, repairFor?_projectFiles d hd]
    rfl

/-- Repairs leave a text alone that none of the library changes. -/
theorem stockRepaired_of_repairs {text : List Char} (safe : Bool) (target : String) (names : List String)
    (h : ∀ entry ∈ Catalogue.repairs, entry.2.apply text = text) :
    stockRepaired safe target names text = text := by
  refine stockRepaired_eq_iff.mpr fun source _ _ => ?_
  rw [Catalogue.stockStep]
  cases hrepair : Catalogue.repairFor? source with
  | none => rfl
  | some r =>
    obtain ⟨lead, rest, hentry, -⟩ := List.lookup_eq_some_iff.mp hrepair
    exact h (source, r) (by rw [hentry]; simp)

theorem repairing_stock (ht : t.WellFormed) {names : List String} (hnames : Path.AreNames names)
    {text : List Char} (htext : t.textAt root names = some text) (safe : Bool) :
    repairing .stock safe (foundIn t root .stock o) (Path.ofNames names) text =
      .ok (stockRepaired safe (targetOf t root o) names text) := by
  obtain ⟨bytes, hfile, hdecode⟩ := Option.bind_eq_some_iff.mp htext
  rw [repairing, foundIn, sourcesAt_eq_dueSources ht isPlain_stock _ hnames.ne_nil hfile hdecode,
    repaired_stock]
  rfl

/-- The repairs of the library have no faults, so all turns are taken. -/
theorem turns_stock (safe : Bool) (root : Root) (findings : List Finding) (t : Tree) (files : List String) :
    (turns .stock safe root findings t files).2 = none := by
  induction files generalizing t with
  | nil => rfl
  | cons file files ih =>
    have hturn : ∃ x, turn .stock safe root findings t file = .ok x := by
      obtain hpassed | ⟨hopen, text, place, bytes, -, hlook, hdecode⟩ := exists_text_or_error t root file
      · exact ⟨none, turn_of_error hpassed⟩
      · rw [turn_of_text hopen hlook hdecode, repaired_stock]
        exact ⟨_, rfl⟩
    obtain ⟨x, hx⟩ := hturn
    rw [turns, hx]
    exact ih _

/-! ### Edits of configuration files -/

/-- An edit finds its configuration file as it would make it. -/
def IsSet (root : Root) (target : String) (t : Tree) (e : Edit) : Prop :=
  ∀ v, Version.parse? target = some v → Version.atLeast (some target) e.since = true →
    ∀ text, t.textAt root (Path.namesOf e.path) = some text → e.apply v text = text

theorem IsSet.congr {t' : Tree} (h : IsSet root target t e)
    (htext : t'.textAt root (Path.namesOf e.path) = t.textAt root (Path.namesOf e.path)) :
    IsSet root target t' e := by
  unfold IsSet
  rw [htext]
  exact h

theorem configWrite_eq_none_iff (ht : t.WellFormed) (he : e ∈ edits) :
    configWrite root target e t = none ↔ IsSet root target t e := by
  obtain ⟨hnames, hpath⟩ := areNames_config he
  have hedit : ∀ change, Run.editOf root change t e.path = _ := fun change =>
    (congrArg (Run.editOf root change t) hpath).trans (Run.editOf_ofNames ht hnames)
  unfold configWrite IsSet Tree.textAt
  cases Version.parse? target with
  | none => simp
  | some v =>
    cases Version.atLeast (some target) e.since with
    | false => simp
    | true =>
      rw [Option.bind_some, if_pos rfl, hedit]
      cases t.file? (root.place ++ Path.namesOf e.path) with
      | none => simp
      | some bytes => cases hdecode : Text.decode? bytes <;> simp [Run.edited?, hdecode]

theorem IsSet.spared {files : List (List String)} (h : IsSet root target w.tree e) :
    SparedConfig root files w target e := fun v hv hsince _ text htext =>
  congrArg Except.ok (h v (Version.parse?_of_parse hv) hsince text htext)

/-- Edits that write none of their files had nothing to do. -/
theorem isSet_of_unwritten {rest : List Edit} {more : List Write} (ht : w.tree.WellFormed)
    (hsub : rest ⊆ edits) (hlong : Version.overlong? target = none)
    (hwrites : (Run.exec (updateConfigsWith root target rest) w).2.writes = w.writes ++ more)
    (hmore : ∀ x ∈ more, ∀ e ∈ edits, x.place ≠ root.place ++ Path.namesOf e.path) :
    ∀ e ∈ rest, IsSet root target w.tree e := by
  induction rest generalizing w more with
  | nil => simp
  | cons e rest ih =>
    obtain ⟨he, hrest⟩ := List.cons_subset.mp hsub
    obtain ⟨hnames, hpath⟩ := areNames_config he
    have hne : (Path.Lexical.parse e.path).names ≠ [] := by
      rw [hpath, Path.parse_ofNames hnames.ne_nil hnames.isName]
      exact hnames.ne_nil
    rcases exec_updateConfig root target ht hne with ⟨hrefused, -⟩ | ⟨-, notices, hexec⟩
    · simp [isRefused, hlong] at hrefused
    · have hbuilt : Run.Built (fun _ => True) (updateConfigsWith root target rest) :=
        built_updateConfigsWith root (fun _ _ => trivial) (fun _ _ => trivial) rest
      rw [updateConfigsWith, Run.exec_bind_of_ok hexec, Run.space_bind_pure] at hwrites
      -- What the first edit has written is among what all of them have.
      obtain ⟨others, hothers⟩ := hbuilt.writes (w.after (configWrite root target e w.tree).toList notices)
      obtain rfl : (configWrite root target e w.tree).toList ++ others = more := by
        rw [hothers, Workspace.after, List.append_assoc] at hwrites
        exact List.append_cancel_left hwrites
      have hset : configWrite root target e w.tree = none := by
        rw [Option.eq_none_iff_forall_ne_some]
        intro x hx
        exact hmore x (by simp [hx]) e he (place_of_configWrite ht he hx).1
      rw [hset] at hothers hmore
      refine List.forall_mem_cons.mpr ⟨(configWrite_eq_none_iff ht he).mp hset, ?_⟩
      refine ih (w := w.after [] notices) ht hrest (by simpa [hset] using hothers) fun x hx => ?_
      exact hmore x (List.mem_append_right _ hx)

/-! ### The whole run -/

/-- The repairs of an upgrade. -/
def stockRepairs (root : Root) (o : Options) (t : Tree) : Run (List (String × List String)) :=
  repairFiles root .stock { o with target := some (targetOf t root o) } (foundIn t root .stock o)
    (distinct ((foundIn t root .stock o).map Finding.file))

/-- Repairs of the library avoid files whose texts they would not change. -/
theorem avoids_stockRepairs {files : List (List String)} (ht : w.tree.WellFormed)
    (hkept : ∀ names ∈ files, ∀ text, w.tree.textAt root names = some text →
      stockRepaired o.safeMode (targetOf w.tree root o) names text = text) :
    Run.Avoids root files w (stockRepairs root o w.tree) := by
  refine avoids_repairFiles fun path hpath => ?_
  obtain ⟨names, rfl, hne, hfile⟩ :=
    exists_names_of_mem_findings ht isPlain_stock ((mem_distinct _ _).mp hpath)
  obtain ⟨bytes, hbytes⟩ := Option.isSome_iff_exists.mp hfile
  have hnames : Path.AreNames names := ⟨hne, ht.names_of_file? hbytes⟩
  refine ⟨names, hnames, rfl, fun hmem text htext => ?_⟩
  rw [repairing_stock ht hnames htext]
  exact congrArg Except.ok (hkept names hmem text htext)

variable (root o) in
/-- The repairs of the library do not fail. -/
theorem exists_stockRepairs (ht : w.tree.WellFormed) (notices : List Notice) :
    ∃ fixes w', Run.exec (stockRepairs root o w.tree) { w with notices } = (.ok fixes, w') := by
  have hpaths : ∀ file ∈ distinct ((foundIn w.tree root .stock o).map Finding.file),
      (Path.Lexical.parse file).names ≠ [] := by
    intro file hfile
    obtain ⟨names, rfl, hne, hsome⟩ :=
      exists_names_of_mem_findings ht isPlain_stock ((mem_distinct _ _).mp hfile)
    obtain ⟨bytes, hbytes⟩ := Option.isSome_iff_exists.mp hsome
    rw [Path.parse_ofNames hne (ht.names_of_file? hbytes)]
    exact hne
  obtain ⟨notices', fixes, hfixes⟩ := exec_repairFiles .stock root
    { o with target := some (targetOf w.tree root o) } (foundIn w.tree root .stock o)
    (w := { w with notices }) ht hpaths
  rw [turns_stock] at hfixes
  exact ⟨fixes, _, hfixes⟩

/-- The update of the Gemfile to a version does not fail. -/
theorem exists_updateGemfile (ht : w.tree.WellFormed) (hlong : Version.overlong? target = none) :
    ∃ gems w', Run.exec (updateGemfile root target) w = (.ok gems, w') := by
  rw [updateGemfile, Run.exec_tree_bind]
  split
  · exact ⟨_, _, rfl⟩
  · have hne : (Path.Lexical.parse "Gemfile").names ≠ [] := by decide
    rcases Run.exec_edit root (fun text => (Gemfile.update target text).mapError .overlong) ht hne with
      ⟨text, failure, hfail, -⟩ | ⟨notices, hexec⟩
    · rw [Gemfile.update, hlong] at hfail
      cases hfail
    · rw [Run.exec_bind_of_ok hexec]
      split
      · exact ⟨_, _, rfl⟩
      · exact ⟨_, _, rfl⟩

/-- Nor does the update of the configuration files. -/
theorem exists_updateConfigsWith {rest : List Edit} (ht : w.tree.WellFormed) (hsub : rest ⊆ edits)
    (hlong : Version.overlong? target = none) :
    ∃ changed w', Run.exec (updateConfigsWith root target rest) w = (.ok changed, w') := by
  induction rest generalizing w with
  | nil => exact ⟨_, _, rfl⟩
  | cons e rest ih =>
    obtain ⟨he, hrest⟩ := List.cons_subset.mp hsub
    obtain ⟨hnames, hpath⟩ := areNames_config he
    have hne : (Path.Lexical.parse e.path).names ≠ [] := by
      rw [hpath, Path.parse_ofNames hnames.ne_nil hnames.isName]
      exact hnames.ne_nil
    rcases exec_updateConfig root target ht hne with ⟨hrefused, -⟩ | ⟨-, notices, hexec⟩
    · simp [isRefused, hlong] at hrefused
    · obtain ⟨changed, w', hmore⟩ := ih (settled_updateConfig ht he hexec).1 hrest
      rw [updateConfigsWith, Run.exec_bind_of_ok hexec, Run.exec_bind_of_ok hmore]
      exact ⟨_, _, rfl⟩

theorem mem_releaseFiles {names : List String} : names ∈ releaseFiles ↔
    names = ["Gemfile"] ∨ ∃ e ∈ edits, Path.namesOf e.path = names := by
  simp [releaseFiles]

/-- An upgrade that has an outcome does its repairs, updates the Gemfile and goes on. -/
theorem exists_parts {w₁ : Workspace} {first : Outcome} (ht : w.tree.WellFormed) (hdry : o.dryRun = false)
    (h : Run.exec (upgrade root .stock o) w = (.ok first, w₁)) :
    ∃ before gems after updated,
      (∀ files : List (List String), (∀ names ∈ files, ∀ text, w.tree.textAt root names = some text →
          stockRepaired o.safeMode (targetOf w.tree root o) names text = text) →
        Untouched root files w before) ∧
      Run.exec (onlyIf o.updateGems (updateGemfile root (targetOf w.tree root o))) before =
        (.ok gems, after) ∧
      Run.exec (afterGemfile root { o with target := some (targetOf w.tree root o) }
        (targetOf w.tree root o) gems) after = (.ok updated, w₁) := by
  obtain ⟨notices, hrun⟩ := exec_upgrade .stock root o w
  rw [hrun] at h
  split at h
  · cases h
  -- The run is taken apart along its phases: the repairs, the Gemfile, and what comes behind.
  rw [repair, if_neg (by simp [hdry])] at h
  obtain ⟨fixes, before, hfixes, h⟩ := Run.exec_bind_eq_ok h
  obtain ⟨updated, w', hupdated, h⟩ := Run.exec_bind_eq_ok h
  obtain rfl : w' = w₁ := (Prod.mk.inj h).2
  rw [updateFiles_eq_afterGemfile rfl] at hupdated
  obtain ⟨gems, after, hgemfile, hrest⟩ := Run.exec_bind_eq_ok hupdated
  refine ⟨before, gems, after, updated, fun files hkept => ?_, hgemfile, hrest⟩
  exact (avoids_stockRepairs ht hkept).ends ((Untouched.refl ht).notices notices) hfixes

variable {files : List (List String)}

section
variable (ht : w.tree.WellFormed) (hdry : o.dryRun = false)
  (hgemfile : Run.Spared root files w
    (fun text => (Gemfile.update (targetOf w.tree root o) text).mapError .overlong) ["Gemfile"])
  (hkept : ∀ names ∈ files, ∀ text, w.tree.textAt root names = some text →
    stockRepaired o.safeMode (targetOf w.tree root o) names text = text)
include ht hdry hgemfile hkept

/-- An upgrade leaves release files alone that none of its parts has something to do in, however it
ends. -/
theorem untouched_upgrade (hfiles : files ⊆ releaseFiles)
    (hconfigs : ∀ e ∈ edits, SparedConfig root files w (targetOf w.tree root o) e)
    (hmoves : ∀ r ∈ askedPlan o w.tree root, ∀ names, Glob.covers rubyFiles names = true →
      Run.Spared root files w (redirection r) names) :
    Untouched root files w (Run.exec (upgrade root .stock o) w).2 := by
  obtain ⟨notices, hrun⟩ := exec_upgrade .stock root o w
  rw [hrun]
  have hstart : Untouched root files w { w with notices } := (Untouched.refl ht).notices notices
  split
  · exact hstart
  · refine Run.Avoids.untouched ?_ _ hstart
    rw [repair, if_neg (by simp [hdry])]
    refine (avoids_stockRepairs ht hkept).bind fun fixes => Run.Avoids.bind ?_ fun _ => Run.avoids_pure _
    rw [updateFiles_eq_afterGemfile rfl]
    refine (avoids_onlyIf (avoids_updateGemfile hgemfile)).bind fun gems => ?_
    exact avoids_afterGemfile ht hfiles hmoves hconfigs gems

/-- An upgrade to a version comes past the update of the Gemfile. -/
theorem exists_afterGemfile {v : Version} (hv : Version.parse (targetOf w.tree root o) = .ok v) :
    ∃ gems w', ∃ finish : List String → Outcome, Untouched root files w w' ∧
      Run.exec (upgrade root .stock o) w =
        Run.exec (afterGemfile root { o with target := some (targetOf w.tree root o) }
          (targetOf w.tree root o) gems >>= fun updated => pure (finish updated)) w' := by
  obtain ⟨notices, hrun⟩ := exec_upgrade .stock root o w
  rw [overlong?_of_rising rising_stock hv] at hrun
  have hstart : Untouched root files w { w with notices } := (Untouched.refl ht).notices notices
  -- Each phase finds a tree in which the files are still as they were.
  obtain ⟨fixes, wr, hfixes⟩ := exists_stockRepairs root o ht notices
  have hrepairs := (avoids_stockRepairs ht hkept).ends hstart hfixes
  obtain ⟨gems, w', hupdate⟩ : ∃ gems w', Run.exec (onlyIf o.updateGems (updateGemfile root
      (targetOf w.tree root o))) wr = (.ok gems, w') := by
    unfold onlyIf
    split
    · exact exists_updateGemfile hrepairs.wellFormed (Version.overlong?_of_parse hv)
    · exact ⟨_, _, rfl⟩
  have havoids : Run.Avoids root files w (onlyIf o.updateGems (updateGemfile root
      (targetOf w.tree root o))) := avoids_onlyIf (avoids_updateGemfile hgemfile)
  have hgems := havoids.ends hrepairs hupdate
  refine ⟨gems, w', fun updated => ⟨foundIn w.tree root .stock o, addNew (fixes.map (·.1)) updated,
    (foundIn w.tree root .stock o).filter fun f => !isResolved fixes f⟩, hgems, ?_⟩
  rw [hrun, repair, if_neg (by simp [hdry])]
  refine (Run.exec_bind_of_ok hfixes).trans ?_
  rw [updateFiles_eq_afterGemfile rfl, bind_assoc, Run.exec_bind_of_ok hupdate]

end

/-- An upgrade to a version that moves no class and updates no migrations has an outcome. -/
theorem exists_upgrade (ht : w.tree.WellFormed) (hdry : o.dryRun = false) {v : Version}
    (hv : Version.parse (targetOf w.tree root o) = .ok v) (hmigrations : o.updateMigrations = false)
    (hplan : askedPlan o w.tree root = []) :
    ∃ outcome w', Run.exec (upgrade root .stock o) w = (.ok outcome, w') := by
  -- No file is asked to be kept here: only that every phase ends well is of interest.
  have hspared : Run.Spared root [] w
      (fun text => (Gemfile.update (targetOf w.tree root o) text).mapError .overlong) ["Gemfile"] :=
    fun hmem => absurd hmem List.not_mem_nil
  obtain ⟨gems, w', finish, hw', hrun⟩ := exists_afterGemfile ht hdry hspared (by simp) hv
  obtain ⟨configs, wc, hconfigs⟩ : ∃ configs wc, Run.exec (onlyIf o.updateConfigs
      (updateConfigs root (targetOf w.tree root o))) w' = (.ok configs, wc) := by
    unfold onlyIf
    split
    · exact exists_updateConfigsWith hw'.wellFormed (List.Subset.refl _) (Version.overlong?_of_parse hv)
    · exact ⟨_, _, rfl⟩
  have hwc : Untouched root [] w wc := by
    have hnone : ∀ e ∈ edits, SparedConfig root [] w (targetOf w.tree root o) e :=
      fun _ _ _ _ _ hmem => absurd hmem List.not_mem_nil
    have havoids : Run.Avoids root [] w (onlyIf o.updateConfigs (updateConfigs root
        (targetOf w.tree root o))) := avoids_onlyIf (avoids_updateConfigsWith (List.Subset.refl _) hnone)
    exact havoids.ends hw' hconfigs
  -- Nothing is moved, as the plan of the tree is empty.
  obtain ⟨named, wn, hnamed⟩ : ∃ named wn, Run.exec (updateNamespaces root
      { o with target := some (targetOf w.tree root o) }) wc = (.ok named, wn) := by
    rw [exec_updateNamespaces hwc.wellFormed, ← askedPlan_congr _ ht hwc.wellFormed hwc.jobs]
    obtain ⟨api, wa, hapi, -⟩ := exec_renamedApi root
      { o with target := some (targetOf w.tree root o) } hwc.wellFormed
    have hnone : askedPlan { o with target := some (targetOf w.tree root o) } w.tree root = [] := hplan
    rw [Run.exec_bind_of_ok hapi, hnone]
    exact ⟨_, _, rfl⟩
  have hrest : Run.exec (afterGemfile root { o with target := some (targetOf w.tree root o) }
      (targetOf w.tree root o) gems) w' = (.ok (distinct (gems ++ configs ++ [] ++ named)), wn) := by
    have hnone : onlyIf o.updateMigrations (updateMigrations root (targetOf w.tree root o)) = pure [] :=
      if_neg (by simp [hmigrations])
    rw [afterGemfile]
    refine (Run.exec_bind_of_ok hconfigs).trans ?_
    rw [afterConfigs, hnone, pure_bind, Run.exec_bind_of_ok hnamed]
    rfl
  rw [hrun, Run.exec_bind_of_ok hrest]
  exact ⟨_, _, rfl⟩

variable (hgems : ∀ text, w.tree.textAt root ["Gemfile"] = some text →
    Gemfile.update (targetOf w.tree root o) text = .ok text)
  (hrepaired : ∀ e ∈ edits, ∀ text, w.tree.textAt root (Path.namesOf e.path) = some text →
    stockRepaired o.safeMode (targetOf w.tree root o) (Path.namesOf e.path) text = text)
  (hunmoved : ∀ r ∈ askedPlan o w.tree root, ∀ e ∈ edits, ∀ text,
    w.tree.textAt root (Path.namesOf e.path) = some text → r.redirect text = .ok text)

include hrepaired in
theorem repaired_releaseFiles : ∀ names ∈ releaseFiles, ∀ text, w.tree.textAt root names = some text →
    stockRepaired o.safeMode (targetOf w.tree root o) names text = text := by
  intro names hmem text htext
  rcases mem_releaseFiles.mp hmem with rfl | ⟨e, he, rfl⟩
  · exact stockRepaired_gemfile _ _ _
  · exact hrepaired e he text htext

include hgems in
theorem spared_gemfile : Run.Spared root releaseFiles w
    (fun text => (Gemfile.update (targetOf w.tree root o) text).mapError .overlong) ["Gemfile"] := by
  intro _ text htext
  simp only [hgems text htext]
  rfl

include hunmoved in
theorem spared_redirection : ∀ r ∈ askedPlan o w.tree root, ∀ names, Glob.covers rubyFiles names = true →
    Run.Spared root releaseFiles w (redirection r) names := by
  intro r hr names hcovers hmem text htext
  rcases mem_releaseFiles.mp hmem with rfl | ⟨e, he, rfl⟩
  · exact absurd hcovers (by decide)
  · rw [redirection, hunmoved r hr e he text htext]
    rfl

section
variable (ht : w.tree.WellFormed) (hdry : o.dryRun = false)
include ht hdry hgems hrepaired

/-- What an upgrade to a version writes when it edits configuration files is among what it writes, and
it finds the files untouched. -/
theorem exists_before_configs (hconfigs : o.updateConfigs = true) {v : Version}
    (hv : Version.parse (targetOf w.tree root o) = .ok v) :
    ∃ w', Untouched root releaseFiles w w' ∧ ∃ more, (Run.exec (upgrade root .stock o) w).2.writes =
      (Run.exec (updateConfigs root (targetOf w.tree root o)) w').2.writes ++ more := by
  obtain ⟨gems, w', finish, hw', hrun⟩ := exists_afterGemfile ht hdry (spared_gemfile hgems)
    (repaired_releaseFiles hrepaired) hv
  refine ⟨w', hw', ?_⟩
  rw [hrun, Run.space_bind_pure, afterGemfile, onlyIf, if_pos hconfigs]
  refine Run.writes_bind (P := fun _ => True) (fun _ => ?_) w'
  unfold afterConfigs
  refine .bind ?_ fun _ => .bind ?_ fun _ => .pure _
  · exact built_onlyIf _ (built_updateMigrations root (fun _ _ => trivial) fun _ _ => trivial)
  · exact built_updateNamespaces root _ (fun _ _ => trivial) fun _ => trivial

include hunmoved in
/-- An upgrade leaves the files alone exactly if it finds its configuration files set. -/
theorem leftAlone_iff (hconfigs : o.updateConfigs = true) :
    LeftAlone root releaseFiles w (Run.exec (upgrade root .stock o) w).2 ↔
      ∀ e ∈ edits, IsSet root (targetOf w.tree root o) w.tree e := by
  refine ⟨fun hleft => ?_, fun hset => (untouched_upgrade ht hdry (spared_gemfile hgems)
    (repaired_releaseFiles hrepaired) (List.Subset.refl _) (fun e he => (hset e he).spared)
    (spared_redirection hunmoved)).toLeftAlone⟩
  cases hv : Version.parse (targetOf w.tree root o) with
  | error fault =>
    -- A target that is no version is not compared with anything.
    intro e _ v hparse
    simp [Version.parse?, hv, Except.toOption] at hparse
  | ok v =>
    obtain ⟨w', hw', more, hmore⟩ := exists_before_configs hgems hrepaired ht hdry hconfigs hv
    obtain ⟨before, hbefore, -⟩ := hw'.unwritten
    obtain ⟨configs, hconfigs⟩ := (built_updateConfigsWith (P := fun _ => True) root (fun _ _ => trivial)
      (fun _ _ => trivial) edits).writes w'
    obtain ⟨all, hall, hothers⟩ := hleft.unwritten
    obtain rfl : before ++ configs ++ more = all := by
      rw [hall, updateConfigs, hconfigs, hbefore] at hmore
      simpa using hmore.symm
    have hset := isSet_of_unwritten hw'.wellFormed (List.Subset.refl edits) (Version.overlong?_of_parse hv)
      hconfigs fun x hx e he => hothers x (by simp [hx]) _ (mem_releaseFiles.mpr (.inr ⟨e, he, rfl⟩))
    exact fun e he => (hset e he).congr (hw'.textAt (mem_releaseFiles.mpr (.inr ⟨e, he, rfl⟩))).symm

end

end Project

end RailsUpgrade
