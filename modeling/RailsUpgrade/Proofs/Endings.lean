import RailsUpgrade.Proofs.Turns

/-!
# `RailsUpgrade.Proofs.Endings`: what an upgrade ends with

A rule can be wrong in its pattern, its glob, its constraint or its template. Only two of these faults
end an upgrade: a number in a constraint that is too long to compare, and a faulty template.

* `Glob.isDir_or_slashes_of_mem_files?`: the files of a glob are found from a directory;
* `exists_read_of_mem_foundIn`: a file with a finding can be read;
* `findSome?_faultAt_eq_none_iff`: whether some file has a fault is told from its findings;
* `upgrade_endures_iff`: an upgrade without updates has an outcome, or ends with a write that failed,
  exactly if no rule that it tries has one of these two faults.
-/

set_option autoImplicit false

namespace RailsUpgrade

namespace Glob

variable {t : Tree} {root : Root}

theorem isDir_of_mem_follow {segments : List (List Char)} (hne : segments ≠ []) {here : Place}
    {path result : List String} (h : result ∈ follow t segments here path) : t.isDir here = true := by
  obtain ⟨segment, rest, rfl⟩ := List.exists_cons_of_ne_nil hne
  rw [follow] at h
  split at h
  · cases h
  · rename_i hdir
    simpa using hdir

/-- A path with leading slashes is read back with some. -/
theorem slashes_parse_text {slashes : Nat} (h : slashes ≠ 0) (names : List String) :
    (Path.Lexical.parse (Path.Lexical.mk slashes names).text).slashes ≠ 0 := by
  obtain ⟨n, rfl⟩ := Nat.exists_eq_succ_of_ne_zero h
  have hlead : (Path.Lexical.mk (n + 1) names).text.toList.takeWhile (· == '/') ≠ [] := by
    simp [Path.Lexical.text, List.replicate_succ]
  have hlength := Nat.ne_of_gt (List.length_pos_iff.mpr hlead)
  simp only [Path.Lexical.parse]
  rw [if_neg (by simpa using hlength)]
  split <;> simp

/-- The files of a glob are found from the root, which is a directory then, or from the top. -/
theorem isDir_or_slashes_of_mem_files? {glob : String} {files : List String}
    (hfiles : files? t root glob = some files) {file : String} (h : file ∈ files) :
    t.isDir root.place = true ∨ (Path.Lexical.parse file).slashes ≠ 0 := by
  obtain ⟨found, hfound, rfl⟩ := files?_eq_some hfiles
  rw [mem_sortedTexts, mem_distinct, mem_flatten_of_mapM hfound] at h
  obtain ⟨g, -, listed, hlisted, hmem⟩ := h
  rw [filesOf?_eq] at hlisted
  split at hlisted
  · cases hlisted
  · split at hlisted
    · rename_i hends
      cases hlisted
      obtain ⟨names, hnames, rfl⟩ := List.mem_map.mp hmem
      have hdir := isDir_of_mem_follow (segmentsOf_ne_nil hends) hnames
      -- A pattern that begins with a slash lists paths that do so as well.
      by_cases hslashes : (Path.Lexical.parse g).slashes = 0
      · left
        simpa [Tree.startOf, hslashes] using hdir
      · exact .inr (slashes_parse_text hslashes names)
    · cases hlisted
      cases hmem

end Glob

namespace Project

variable {registry : Registry} {safe : Bool} {root : Root} {o : Options} {findings : List Finding}
  {t : Tree} {w : Workspace}

/-- A file with a finding can be read, and its path has a name. -/
theorem exists_read_of_mem_foundIn (ht : t.WellFormed) {f : Finding}
    (hf : f ∈ foundIn t root registry o) :
    (∃ text, t.read root f.file = .ok text) ∧ (Path.Lexical.parse f.file).names ≠ [] := by
  obtain ⟨d, hd, hmem⟩ := List.mem_flatMap.mp hf
  unfold findingsOf at hmem
  split at hmem
  · obtain ⟨path, hpath, rfl⟩ := List.mem_map.mp hmem
    obtain ⟨hlisted, hfound⟩ := List.mem_filter.mp hpath
    cases hread : t.read root path with
    | error fault => simp [Detection.foundAt, hread] at hfound
    | ok text =>
      refine ⟨⟨text, rfl⟩, fun hnil => ?_⟩
      -- Without a name the path leads to where it starts, and there is a directory.
      obtain ⟨place, bytes, hlook, -⟩ := Tree.look_of_read hread
      have hfile := Tree.file?_of_look hlook
      have hstart : Tree.startOf root (Path.Lexical.parse path) = place := by
        rw [Tree.look, hnil] at hlook
        exact Tree.place_of_walk_nil hlook
      have hleaf := ht.leaves place (by rw [hfile, Option.isSome_some])
      cases hfiles : Glob.files? t root d.glob with
      | none => simp [hfiles] at hlisted
      | some files =>
        rw [hfiles, Option.getD_some] at hlisted
        rw [Tree.startOf] at hstart
        split at hstart
        · rename_i hslashes
          obtain hdir | hlead := Glob.isDir_or_slashes_of_mem_files? hfiles hlisted
          · rw [← hstart, hdir] at hleaf
            cases hleaf
          · exact absurd (by simpa using hslashes) hlead
        · rw [← hstart] at hleaf
          cases hleaf
  · cases hmem

/-- A source has no fault exactly if the template of its repair is sound, or safe mode leaves the
repair out. -/
theorem faultOf_eq_none_iff {source : String} :
    faultOf registry safe source = none ↔
      ∀ r, registry.repair? source = some r → (safe = true → r.safe = true) → r.fault? = none := by
  unfold faultOf isGated
  cases registry.repair? source with
  | none => simp
  | some r => cases safe <;> cases hsafe : r.safe <;> simp [hsafe]

/-- No file has a fault exactly if the repairs for its findings have none. -/
theorem findSome?_faultAt_eq_none_iff :
    (distinct (findings.map Finding.file)).findSome? (faultAt registry safe findings) = none ↔
      ∀ f ∈ findings, Path.isProtected f.file = false →
        ∀ r, registry.repair? f.source = some r → (safe = true → r.safe = true) →
          r.fault? = none := by
  simp only [List.findSome?_eq_none_iff, ← faultOf_eq_none_iff]
  constructor
  · intro h f hf hopen
    have hnone := h f.file ((mem_distinct _ _).mpr (List.mem_map_of_mem hf))
    rw [faultAt, if_neg (by simp [hopen]), List.findSome?_eq_none_iff] at hnone
    apply hnone
    rw [sourcesAt, mem_distinct]
    exact List.mem_map_of_mem (List.mem_filter.mpr ⟨hf, by simp⟩)
  · intro h file _
    unfold faultAt
    split
    · rfl
    · rename_i hopen
      rw [List.findSome?_eq_none_iff]
      intro source hsource
      rw [sourcesAt, mem_distinct] at hsource
      obtain ⟨f, hf, rfl⟩ := List.mem_map.mp hsource
      obtain ⟨hmem, hpath⟩ := List.mem_filter.mp hf
      rw [beq_iff_eq] at hpath
      exact h f hmem (by simpa [hpath] using hopen)

variable (root registry) in
/-- Repairs without updates end with the first fault, or with an outcome. -/
theorem exec_repair_of_repairsOnly (ht : w.tree.WellFormed) (ho : o.repairsOnly = true)
    (hdry : o.dryRun = false)
    (hread : ∀ f ∈ findings, (∃ text, w.tree.read root f.file = .ok text) ∧
      (Path.Lexical.parse f.file).names ≠ []) :
    ∃ outcome, (Run.exec (repair root registry o findings) w).1 =
      match (distinct (findings.map Finding.file)).findSome?
        (faultAt registry o.safeMode findings) with
      | some e => .error (.template e)
      | none => .ok outcome := by
  have hfiles : ∀ file ∈ distinct (findings.map Finding.file),
      (∃ text, w.tree.read root file = .ok text) ∧ (Path.Lexical.parse file).names ≠ [] := by
    intro file hfile
    obtain ⟨f, hf, rfl⟩ := List.mem_map.mp ((mem_distinct _ _).mp hfile)
    exact hread f hf
  obtain ⟨notices, fixes, hrun⟩ := exec_repairFiles registry root o findings ht
    fun file hfile => (hfiles file hfile).2
  -- All files with findings are read, so that the turns end with the first fault of a repair.
  rw [turns_fault fun file hfile => (hfiles file hfile).1] at hrun
  rw [repair, if_neg (by simp [hdry])]
  cases hfault : (distinct (findings.map Finding.file)).findSome?
      (faultAt registry o.safeMode findings) with
  | some e =>
    rw [hfault] at hrun
    exact ⟨{}, by rw [Run.exec_bind_of_error hrun]⟩
  | none =>
    rw [hfault] at hrun
    rw [Run.exec_bind_of_ok hrun, Run.exec_bind_of_ok (exec_updateFiles_of_repairsOnly ho _)]
    exact ⟨_, rfl⟩

/-- An upgrade without updates has an outcome, or ends with a write that failed, exactly if every
constraint can be compared with the target and, unless it is a dry run, every repair for a finding
in a file that is not protected has a sound template or is left out in safe mode. -/
theorem upgrade_endures_iff (ht : w.tree.WellFormed) (ho : o.repairsOnly = true) :
    ((∃ outcome, (Run.exec (upgrade root registry o) w).1 = .ok outcome) ∨
      ∃ path fault, (Run.exec (upgrade root registry o) w).1 = .error (.cannotWrite path fault)) ↔
    (∀ d ∈ registry.detections, overlong? (some (targetOf w.tree root o)) d = none) ∧
      (o.dryRun = false → ∀ f ∈ foundIn w.tree root registry o, Path.isProtected f.file = false →
        ∀ r, registry.repair? f.source = some r → (o.safeMode = true → r.safe = true) →
          r.fault? = none) := by
  obtain ⟨notices, hrun⟩ := exec_upgrade registry root o w
  rw [hrun, ← List.findSome?_eq_none_iff]
  cases registry.detections.findSome? (overlong? (some (targetOf w.tree root o))) with
  | some number => simp
  | none =>
    simp only [true_and]
    -- A dry run repairs nothing, so that no repair can have a fault.
    by_cases hdry : o.dryRun = true
    · simp [repair, hdry]
    · have hwet : o.dryRun = false := by simpa using hdry
      have hread : ∀ f ∈ foundIn w.tree root registry o,
          (∃ text, w.tree.read root f.file = .ok text) ∧ (Path.Lexical.parse f.file).names ≠ [] :=
        fun f => exists_read_of_mem_foundIn ht
      obtain ⟨outcome, hrepair⟩ := exec_repair_of_repairsOnly registry root
        (o := { o with target := some (targetOf w.tree root o) }) (w := { w with notices }) ht ho
        hwet hread
      rw [hrepair, ← findSome?_faultAt_eq_none_iff]
      simp only [hwet, true_imp_iff]
      cases (distinct ((foundIn w.tree root registry o).map Finding.file)).findSome?
        (faultAt registry o.safeMode (foundIn w.tree root registry o)) <;> simp

/-- A rule whose template names a group that its pattern does not have, added as any rule is. -/
def missingGroupRules (safe : Bool) : Registry :=
  (({} : Registry).register (.detection {} "foo" "" "**/*.rb" none)).register
    (.repair {} "foo" (.template "\\7") safe)

/-- One file, which the rule finds something in. -/
def missingGroupSpace : Workspace where
  tree := { files := [(["a.rb"], Text.encode ['f', 'o', 'o'])] }

/-- A template that names a missing group ends the upgrade. -/
theorem upgrade_missingGroup :
    (Run.exec (upgrade ⟨[], "."⟩ (missingGroupRules true) {}) missingGroupSpace).1 =
      .error (.template (.at (.noSuchGroup 7) "\\7" 1)) := by
  decide +kernel

/-- With the same template in a repair that is not safe, an upgrade in safe mode endures. -/
theorem upgrade_endures_iff_unsafe :
    (∃ outcome, (Run.exec (upgrade ⟨[], "."⟩ (missingGroupRules false) {}) missingGroupSpace).1 =
        .ok outcome) ∨
      ∃ path fault, (Run.exec (upgrade ⟨[], "."⟩ (missingGroupRules false) {})
        missingGroupSpace).1 = .error (.cannotWrite path fault) := by
  have hunsafe : ∀ entry ∈ (missingGroupRules false).repairs, entry.2.safe = false := by
    decide
  refine (upgrade_endures_iff (by decide) rfl).mpr ⟨by decide, ?_⟩
  intro _ f _ _ r hr hsafe
  obtain ⟨before, after, hrepairs, -⟩ := List.lookup_eq_some_iff.mp hr
  have hnot := hunsafe (f.source, r) (by simp [hrepairs])
  rw [hsafe rfl] at hnot
  cases hnot

end Project

end RailsUpgrade
