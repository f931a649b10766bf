import RailsUpgrade.Proofs.Footprint
import RailsUpgrade.Proofs.Turns

/-!
# `RailsUpgrade.Proofs.Accounting`: an outcome accounts for what was done

An outcome lists findings, the files that have changed and the findings that are left. The three come
from different parts of a run, and `Accounted` says how they go together:

* `mem_fixedSources`: what is needed for a source to be fixed;
* `Fixes`, `fixes_of_repairFiles`: what the turns of files tell about the files that they have written;
* `repair_eq_ok`: the parts of an outcome;
* `upgrade_accounted`: the outcome of an upgrade accounts for it.
-/

set_option autoImplicit false

namespace RailsUpgrade.Project

variable {registry : Registry} {safe : Bool} {root : Root} {o : Options} {findings : List Finding}
  {w w' : Workspace} {file : String}

/-! ### Sources that were fixed -/

/-- A source has a repair: one that was registered for it, or one of the library. -/
def HasRepair (registry : Registry) (source : String) : Prop :=
  (registry.repair? source).isSome ∨ (Catalogue.repairFor? source).isSome

/-- A step that changes a text is that of a source with a repair, and is not left out. -/
theorem hasRepair_of_repairStep {text new : List Char} {source : String}
    (h : repairStep registry safe text source = .ok new) (hne : new ≠ text) :
    HasRepair registry source ∧ (safe && isGated registry source) = false := by
  unfold repairStep at h
  split at h
  · cases h
    exact absurd rfl hne
  · rename_i hgated
    refine ⟨?_, by simpa using hgated⟩
    unfold repairText at h
    cases hown : registry.repair? source with
    | some r => exact .inl (by rw [hown, Option.isSome_some])
    | none =>
      cases hstock : Catalogue.repairFor? source with
      | some r => exact .inr (by rw [hstock, Option.isSome_some])
      | none =>
        rw [hown, hstock] at h
        cases h
        exact absurd rfl hne

/-- A source that was fixed is one of those that were due, has a repair, and is not left out. -/
theorem mem_fixedSources {sources : List String} {text : List Char} {source : String}
    (h : source ∈ fixedSources registry safe sources text) :
    source ∈ sources ∧ HasRepair registry source ∧ (safe && isGated registry source) = false := by
  induction sources generalizing text with
  | nil => cases h
  | cons first rest ih =>
    rw [fixedSources] at h
    split at h
    · cases h
    · rename_i new hstep
      split at h
      · exact (ih h).imp_left (List.mem_cons_of_mem _)
      · rename_i hne
        obtain rfl | h := List.mem_cons.mp h
        · exact ⟨by simp, hasRepair_of_repairStep hstep hne⟩
        · exact (ih h).imp_left (List.mem_cons_of_mem _)

/-- What the turns of files tell: every file with findings at most once, with sources of its findings
that were fixed in it. -/
structure Fixes (registry : Registry) (o : Options) (findings : List Finding) (files : List String)
    (fixes : List (String × List String)) : Prop where
  sublist : (fixes.map (·.1)).Sublist files
  isOpen : ∀ fix ∈ fixes, Path.isProtected fix.1 = false
  ne_nil : ∀ fix ∈ fixes, fix.2 ≠ []
  sources : ∀ fix ∈ fixes, ∀ source ∈ fix.2, source ∈ sourcesAt findings fix.1 ∧
    HasRepair registry source ∧ (o.safeMode && isGated registry source) = false

/-- What the turn of one file tells. -/
theorem fixed_of_repairFile {fixed : List String}
    (h : Run.exec (repairFile root registry o file (findings.filter (·.file == file))) w =
      (.ok fixed, w')) (hne : fixed ≠ []) :
    Path.isProtected file = false ∧ ∃ text,
      fixed = fixedSources registry o.safeMode (sourcesAt findings file) text := by
  obtain hpassed | ⟨hopen, text, _, _, hread, -, -⟩ := exists_text_or_error w.tree root file
  · obtain ⟨notices, hrun⟩ := exec_repairFile_of_error registry root o
      (findings.filter (·.file == file)) hpassed
    rw [hrun] at h
    cases h
    exact absurd rfl hne
  · obtain ⟨notices, hrun⟩ := exec_repairFile_of_read registry root o findings hopen hread
    refine ⟨hopen, text, ?_⟩
    -- A repair that does not fail but has no sources left to note did not change the text.
    rw [hrun, repairResult] at h
    cases hrepaired : repaired registry o.safeMode (sourcesAt findings file) text with
    | error e =>
      rw [hrepaired] at h
      cases h
    | ok new =>
      simp only [hrepaired] at h
      split at h
      · cases h
        exact absurd rfl hne
      · obtain ⟨_, w₁, -, hreturn⟩ := Run.exec_bind_eq_ok h
        cases hreturn
        rfl

theorem fixes_of_repairFiles {files : List String} {fixes : List (String × List String)}
    (h : Run.exec (repairFiles root registry o findings files) w = (.ok fixes, w')) :
    Fixes registry o findings files fixes := by
  induction files generalizing w fixes with
  | nil =>
    cases h
    exact ⟨List.Sublist.slnil, by simp, by simp, by simp⟩
  | cons file files ih =>
    obtain ⟨fixed, w₁, hturn, h⟩ := Run.exec_bind_eq_ok h
    obtain ⟨more, w₂, hmore, h⟩ := Run.exec_bind_eq_ok h
    cases h
    have hrest := ih hmore
    by_cases hnone : fixed = []
    · rw [hnone, List.isEmpty_nil, if_pos rfl]
      exact ⟨hrest.sublist.cons _, hrest.isOpen, hrest.ne_nil, hrest.sources⟩
    · obtain ⟨hopen, text, hfixed⟩ := fixed_of_repairFile hturn hnone
      rw [if_neg (by simpa using hnone)]
      refine ⟨hrest.sublist.cons_cons _, ?_, ?_, ?_⟩
      · exact List.forall_mem_cons.mpr ⟨hopen, hrest.isOpen⟩
      · exact List.forall_mem_cons.mpr ⟨hnone, hrest.ne_nil⟩
      · refine List.forall_mem_cons.mpr ⟨fun source hsource => ?_, hrest.sources⟩
        exact mem_fixedSources (hfixed ▸ hsource)

theorem isResolved_iff {fixes : List (String × List String)} {f : Finding} :
    isResolved fixes f = true ↔ ∃ fix ∈ fixes, fix.1 = f.file ∧ f.source ∈ fix.2 := by
  simp [isResolved]

/-! ### The whole outcome -/

/-- The parts of the outcome of repairs. -/
theorem repair_eq_ok {outcome : Outcome} (hdry : o.dryRun = false)
    (h : Run.exec (repair root registry o findings) w = (.ok outcome, w')) :
    ∃ fixes updated w₁, Fixes registry o findings (distinct (findings.map Finding.file)) fixes ∧
      Run.exec (updateFiles root o) w₁ = (.ok updated, w') ∧
      outcome = ⟨findings, addNew (fixes.map (·.1)) updated,
        findings.filter fun f => !isResolved fixes f⟩ := by
  rw [repair, if_neg (by simp [hdry])] at h
  obtain ⟨fixes, w₁, hfixes, h⟩ := Run.exec_bind_eq_ok h
  obtain ⟨updated, w₂, hupdated, h⟩ := Run.exec_bind_eq_ok h
  cases h
  exact ⟨fixes, updated, w₁, fixes_of_repairFiles hfixes, hupdated, rfl⟩

/-- How the parts of an outcome go together, and what they say about the trees before and after. -/
structure Accounted (registry : Registry) (root : Root) (o : Options) (before after : Tree)
    (outcome : Outcome) : Prop where
  /-- No file is told twice. -/
  nodup : outcome.changed.Nodup
  /-- Every file that is new or has other bytes is told. -/
  told : ∀ q, after.file? q ≠ before.file? q → ∃ names, Path.AreNames names ∧
    q = root.place ++ names ∧ Path.ofNames names ∈ outcome.changed
  /-- What is left are findings, in their order. -/
  sublist : outcome.unresolved.Sublist outcome.findings
  /-- Which ones are left is up to their file and their source. -/
  left : ∃ isLeft : String → String → Bool,
    outcome.unresolved = outcome.findings.filter fun f => isLeft f.file f.source
  /-- A finding that is not left is in a file that has changed and is not protected. -/
  changed : ∀ f ∈ outcome.findings, f ∉ outcome.unresolved →
    f.file ∈ outcome.changed ∧ Path.isProtected f.file = false
  /-- Its source has a repair, which safe mode did not leave out. -/
  repaired : ∀ f ∈ outcome.findings, f ∉ outcome.unresolved →
    HasRepair registry f.source ∧ (o.safeMode && isGated registry f.source) = false
  /-- Without updates every file that has changed has a finding that is not left. -/
  caused : o.repairsOnly = true → ∀ file ∈ outcome.changed,
    ∃ f ∈ outcome.findings, f.file = file ∧ f ∉ outcome.unresolved

/-- The outcome of an upgrade accounts for it. -/
theorem upgrade_accounted {outcome : Outcome} (ht : w.tree.WellFormed)
    (hplain : ∀ d ∈ registry.detections, Glob.isPlain d.glob = true) (hdry : o.dryRun = false)
    (h : Run.exec (upgrade root registry o) w = (.ok outcome, w')) :
    Accounted registry root o w.tree w'.tree outcome := by
  obtain ⟨told, htold, hchanged⟩ := told_upgrade root registry o ht hplain
  obtain ⟨notices, hrun⟩ := exec_upgrade registry root o w
  rw [h] at htold hchanged hrun
  obtain rfl := hchanged outcome rfl
  cases hlong : registry.detections.findSome? (overlong? (some (targetOf w.tree root o))) with
  | some number =>
    rw [hlong] at hrun
    cases hrun
  | none =>
    rw [hlong] at hrun
    obtain ⟨fixes, updated, w₁, hfixes, hupdated, rfl⟩ := repair_eq_ok (by exact hdry) hrun.symm
    generalize foundIn w.tree root registry o = findings at *
    -- A finding that is not left was fixed in its file.
    have hresolved : ∀ f ∈ findings, f ∉ findings.filter (fun f => !isResolved fixes f) →
        ∃ fix ∈ fixes, fix.1 = f.file ∧ f.source ∈ fix.2 := by
      intro f hf hnot
      rw [← isResolved_iff]
      simpa [hf] using hnot
    refine ⟨?_, ?_, List.filter_sublist, ?_, ?_, ?_, ?_⟩
    · exact nodup_addNew _ _ (hfixes.sublist.nodup (nodup_distinct _))
    · intro q hq
      obtain ⟨names, hnames, hplace, -, hmem⟩ := htold.files q hq
      exact ⟨names, hnames, hplace, hmem⟩
    · exact ⟨fun file source => !isResolved fixes ⟨file, "", source⟩, rfl⟩
    · intro f hf hnot
      obtain ⟨fix, hfix, hfile, -⟩ := hresolved f hf hnot
      refine ⟨?_, hfile ▸ hfixes.isOpen fix hfix⟩
      rw [mem_addNew]
      exact .inl (List.mem_map.mpr ⟨fix, hfix, hfile⟩)
    · intro f hf hnot
      obtain ⟨fix, hfix, -, hsource⟩ := hresolved f hf hnot
      exact (hfixes.sources fix hfix f.source hsource).2
    · intro ho file hfile
      rw [exec_updateFiles_of_repairsOnly (by exact ho)] at hupdated
      cases hupdated
      have hfixed : file ∈ fixes.map (·.1) := hfile
      obtain ⟨fix, hfix, rfl⟩ := List.mem_map.mp hfixed
      obtain ⟨source, rest, hsources⟩ := List.exists_cons_of_ne_nil (hfixes.ne_nil fix hfix)
      have hsource : source ∈ fix.2 := by simp [hsources]
      -- A source that was fixed in a file is that of a finding in this file.
      have hdue := (hfixes.sources fix hfix source hsource).1
      rw [sourcesAt, mem_distinct] at hdue
      obtain ⟨f, hf, hfsource⟩ := List.mem_map.mp hdue
      obtain ⟨hmem, hpath⟩ := List.mem_filter.mp hf
      rw [beq_iff_eq] at hpath
      refine ⟨f, hmem, hpath, ?_⟩
      have hresolved := isResolved_iff.mpr ⟨fix, hfix, hpath.symm, hfsource ▸ hsource⟩
      simp [hresolved]

/-- Two detections, of which only the first one has a repair. -/
def halfRules : Registry :=
  ((({} : Registry).register (.detection {} "foo" "" "**/*.rb" none)).register
    (.detection {} "bar" "" "**/*.rb" none)).register (.repair {} "foo" (.template "baz") true)

/-- One file of the API, which both find something in. -/
def halfSpace : Workspace where
  tree := { files := [(["app", "controllers", "api", "a.rb"], Text.encode "API foo bar".toList)] }

/-- A file that both a repair and an update change is told once, and the finding without a repair is
left. -/
theorem upgrade_accounted_half : ∃ outcome w',
    Run.exec (upgrade ⟨[], "."⟩ halfRules { updateApiModule := true }) halfSpace =
      (.ok outcome, w') ∧
    outcome.changed = ["app/controllers/api/a.rb"] ∧
    outcome.unresolved = [⟨"app/controllers/api/a.rb", "", "bar"⟩] ∧
    Accounted halfRules ⟨[], "."⟩ { updateApiModule := true } halfSpace.tree w'.tree outcome := by
  have hrun : (Run.exec (upgrade ⟨[], "."⟩ halfRules { updateApiModule := true }) halfSpace).1 =
      .ok ⟨[⟨"app/controllers/api/a.rb", "", "foo"⟩, ⟨"app/controllers/api/a.rb", "", "bar"⟩],
        ["app/controllers/api/a.rb"], [⟨"app/controllers/api/a.rb", "", "bar"⟩]⟩ := by
    decide +kernel
  refine ⟨_, _, Prod.ext hrun rfl, rfl, rfl, ?_⟩
  exact upgrade_accounted (by decide) (by decide +kernel) rfl (Prod.ext hrun rfl)

end RailsUpgrade.Project
