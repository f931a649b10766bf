import RailsUpgrade.Proofs.Upgrade

/-!
# `RailsUpgrade.Proofs.SafeMode`: one tree with and without safe mode

Safe mode leaves repairs out. The repairs that it leaves out may take back what the others did: then
a file changes in safe mode and stays as it is without it. `mem_changed_unguarded_iff` says exactly
when: a file that changes in safe mode also changes without it if and only if all its repairs
together change its text. `changed_takeBackRun` shows that they need not.
-/

set_option autoImplicit false

namespace RailsUpgrade.Project

variable {registry : Registry} {root : Root} {o : Options} {w ws wu : Workspace}
  {guarded unguarded : Outcome} {path : String}

/-- A file that changed is not protected and had a finding. -/
theorem open_of_mem_changed (ho : o.repairsOnly = true)
    (h : Run.exec (upgrade root registry o) w = (.ok guarded, ws)) (hpath : path ∈ guarded.changed) :
    Path.isProtected path = false ∧ o.dryRun = false ∧
      path ∈ distinct (guarded.findings.map Finding.file) := by
  have hdry : o.dryRun = false := by
    cases hdry : o.dryRun with
    | false => rfl
    | true => simp [changed_of_dryRun hdry h] at hpath
  obtain ⟨-, w₁, fixes, -, hchanged, hrun⟩ := upgrade_eq_ok ho hdry h
  rw [hchanged] at hpath
  have hmem := mem_of_mem_fixes hrun hpath
  obtain ⟨_, _, -, hiff⟩ := mem_fixes_iff (nodup_distinct _) hmem hrun
  exact ⟨(hiff.mp hpath).1, hdry, hmem⟩

/-- A file that is written has a text, and its new text is another one. -/
theorem rewritten_eq_ok {safe : Bool} {sources : List String} {bytes : ByteArray}
    {result : Option ByteArray} (hopen : Path.isProtected path = false)
    (h : rewritten registry safe path sources bytes = .ok result) {text : List Char}
    (hdecode : Text.decode? bytes = some text) :
    ∃ new, repaired registry safe sources text = .ok new ∧ (result ≠ none ↔ new ≠ text) := by
  rw [rewritten, if_neg (by simp [hopen]), hdecode] at h
  cases hrepaired : repaired registry safe sources text with
  | error e =>
    simp only [hrepaired] at h
    cases h
  | ok new =>
    simp only [hrepaired] at h
    cases h
    refine ⟨new, rfl, ?_⟩
    by_cases hsame : new = text <;> simp [hsame]

/-- A file that changes in safe mode also changes without it if and only if all its repairs together
change the text that it has when its turn comes. In a well formed tree and with plain globs this is
the text that it has at the start. -/
theorem mem_changed_unguarded_iff (ho : o.repairsOnly = true)
    (hguarded : Run.exec (upgrade root registry { o with safeMode := true }) w = (.ok guarded, ws))
    (hunguarded : Run.exec (upgrade root registry { o with safeMode := false }) w =
      (.ok unguarded, wu))
    (hpath : path ∈ guarded.changed) :
    (∃ start turn earlier, start.tree = w.tree ∧
      Run.exec (repairFiles root registry
          { o with safeMode := false, target := some (targetOf w.tree root o) } unguarded.findings
          ((distinct (unguarded.findings.map Finding.file)).takeWhile (· != path))) start =
        (.ok earlier, turn) ∧
      (path ∈ unguarded.changed ↔ ∃ text new, turn.tree.read root path = .ok text ∧
        repaired registry false (sourcesAt unguarded.findings path) text = .ok new ∧
        new ≠ text)) ∧
    (w.tree.WellFormed → (∀ d ∈ registry.detections, Glob.isPlain d.glob = true) →
      ∃ names text new, path = Path.ofNames names ∧ w.tree.read root path = .ok text ∧
        repaired registry false (dueSources registry (targetOf w.tree root o) names text) text =
          .ok new ∧
        (path ∈ unguarded.changed ↔ new ≠ text)) := by
  obtain ⟨hopen, hdry, hmem⟩ := open_of_mem_changed (by exact ho) hguarded hpath
  constructor
  · obtain ⟨hfindings, -⟩ := upgrade_eq_ok (by exact ho) hdry hguarded
    obtain ⟨hfindings', w₁, fixes, htree, hchanged, hrun⟩ :=
      upgrade_eq_ok (by exact ho) (by exact hdry) hunguarded
    -- Both modes find the same, so the file has a turn in either.
    have hsame : guarded.findings = unguarded.findings := hfindings.trans hfindings'.symm
    rw [hsame] at hmem
    obtain ⟨earlier, turn, hearlier, hiff⟩ := mem_fixes_iff (nodup_distinct _) hmem hrun
    refine ⟨w₁, turn, earlier, htree, hearlier, ?_⟩
    rw [hchanged, hiff]
    exact and_iff_right hopen
  · intro ht hplain
    obtain ⟨-, -, hlisted, hfiles⟩ := upgrade_files ht hplain (by exact ho) (by exact hdry) hguarded
    obtain ⟨-, -, -, hfiles'⟩ := upgrade_files ht hplain (by exact ho) (by exact hdry) hunguarded
    obtain ⟨names, rfl, hne, hsome⟩ := hlisted path hpath
    obtain ⟨bytes, hbytes⟩ := Option.isSome_iff_exists.mp hsome
    obtain ⟨result, hresult, -, hiff⟩ := hfiles names bytes hbytes
    obtain ⟨result', hresult', -, hiff'⟩ := hfiles' names bytes hbytes
    cases hdecode : Text.decode? bytes with
    | none =>
      rw [upgradedBytes, rewritten_of_undecodable _ _ _ _ hdecode] at hresult
      cases hresult
      exact absurd rfl ((hiff hne).mp hpath)
    | some text =>
      rw [upgradedBytes, hdecode, Option.elim_some] at hresult'
      obtain ⟨new, hnew, hchange⟩ := rewritten_eq_ok hopen hresult' hdecode
      refine ⟨names, text, new, rfl, ?_, hnew, (hiff' hne).trans hchange⟩
      rw [Tree.read_of_look (Tree.look_of_file? ht hne hbytes), hdecode]

theorem isOk_old : (Pattern.compile .byLine "old").isOk = true :=
  Pattern.compile_isOk String.toList_ofList (by decide)

/-- A safe rule, and one that is not safe and puts back what the first one replaces. -/
def takeBackRules : Registry where
  detections := [⟨.fixed .byLine "old" isOk_old, "", "**/*.rb", none⟩,
    ⟨.fixed .byLine "old|new", "", "**/*.rb", none⟩]
  repairs :=
    [("old", ⟨.fixed .byLine "old" isOk_old, .template "new", true⟩),
     ("old|new", ⟨.fixed .byLine "old|new", .template "old", false⟩)]

/-- One file, which both rules find something in. -/
def takeBackSpace : Workspace := { tree := { files := [(["a.rb"], Text.encode ['o', 'l', 'd'])] } }

/-- What becomes of the file, with or without safe mode. -/
def takeBackRun (safe : Bool) : Except Failure Outcome × Workspace :=
  Run.exec (upgrade ⟨[], "."⟩ takeBackRules { safeMode := safe }) takeBackSpace

/-- All repairs together need not change a text that some of them change: the file changes in safe
mode, and without it stays as it is. -/
theorem changed_takeBackRun :
    (takeBackRun true).1.toOption.map Outcome.changed = some ["a.rb"] ∧
      (takeBackRun false).1.toOption.map Outcome.changed = some [] := by
  decide +kernel

/-- The file of `takeBackRules` at the condition: both repairs together give its text back. -/
theorem mem_changed_unguarded_iff_takeBack :
    ∃ guarded unguarded, (takeBackRun true).1 = .ok guarded ∧ (takeBackRun false).1 = .ok unguarded ∧
      "a.rb" ∈ guarded.changed ∧ ∃ names text new, "a.rb" = Path.ofNames names ∧
        takeBackSpace.tree.read ⟨[], "."⟩ "a.rb" = .ok text ∧
        repaired takeBackRules false
          (dueSources takeBackRules (targetOf takeBackSpace.tree ⟨[], "."⟩ {}) names text) text =
            .ok new ∧
        ("a.rb" ∈ unguarded.changed ↔ new ≠ text) := by
  obtain ⟨hchanged, hok⟩ : (takeBackRun true).1.toOption.map Outcome.changed = some ["a.rb"] ∧
      (takeBackRun false).1.isOk = true := by decide +kernel
  obtain ⟨guarded, hoption, hlist⟩ := Option.map_eq_some_iff.mp hchanged
  obtain ⟨ws, hguarded⟩ : ∃ ws, Run.exec (upgrade ⟨[], "."⟩ takeBackRules {}) takeBackSpace =
      (.ok guarded, ws) := ⟨_, Prod.ext (Run.eq_ok_of_toOption hoption) rfl⟩
  obtain ⟨unguarded, wu, hunguarded⟩ := Run.exists_of_isOk hok
  have hpath : "a.rb" ∈ guarded.changed := by simp [hlist]
  refine ⟨guarded, unguarded, by rw [takeBackRun, hguarded], by rw [takeBackRun, hunguarded],
    hpath, ?_⟩
  exact (mem_changed_unguarded_iff (o := {}) rfl hguarded hunguarded hpath).2 (by decide)
    (by decide +kernel)

end RailsUpgrade.Project
