import RailsUpgrade.Project.Upgrade
import RailsUpgrade.Proofs.Repair
import RailsUpgrade.Proofs.Scan

/-!
# `RailsUpgrade.Proofs.Upgrade`: what an upgrade makes of every file

An upgrade scans a tree, and then every file with findings has its turn. `rewritten` says what the
turn makes of the bytes of a file, and looks at nothing else:

* `repairFile_of_file`: the turn of a file, as a step on the tree;
* `repairFiles_of_files`: the turns of different files do not disturb each other;
* `sourcesAt_eq_dueSources`: the sources that are repaired in a file, read off its names and text;
* `exec_upgrade`: an upgrade is a scan and then the repair of what it found;
* `upgrade_eq_ok`: an upgrade without updates is a scan and the turns of the files;
* `upgrade_file`: what becomes of every file.
-/

set_option autoImplicit false

namespace RailsUpgrade

/-- Whether options ask for no update of whole files. -/
def Options.repairsOnly (o : Options) : Bool :=
  !(o.updateGems || o.updateConfigs || o.updateMigrations || o.updateJobNamespaces
    || o.updateApiModule || o.updateStockJobs || o.updateOrderJobs || o.updatePosStatusJobs)

namespace Project

/-- The bytes that the turn of a file writes, if it writes any. -/
def rewritten (registry : Registry) (safe : Bool) (path : String) (sources : List String)
    (bytes : ByteArray) : Except Pattern.TemplateError (Option ByteArray) :=
  if Path.isProtected path then .ok none
  else match Text.decode? bytes with
    | none => .ok none
    | some text => (repaired registry safe sources text).map fun new =>
      if new = text then none else some (Text.encode new)

/-- The sources that are repaired in a file with some names and a text: those of the detections that
are active for the target, cover the names and are found in the text. -/
def dueSources (registry : Registry) (target : String) (names : List String) (text : List Char) :
    List String :=
  distinct ((registry.detections.filter fun d => d.isActive (some target)
    && Glob.covers d.glob names && d.pattern.found text).map Detection.source)

variable {registry : Registry} {root : Root} {o : Options} {findings : List Finding}

/-! ### One turn -/

/-- The turn of a file, as a step on the tree. -/
theorem repairFile_of_file {w w' : Workspace} {names : List String} {bytes : ByteArray}
    {fixed : List String} (ht : w.tree.WellFormed) (hne : names ≠ [])
    (hfile : w.tree.file? (root.place ++ names) = some bytes)
    (h : Run.exec (repairFile root registry o (Path.ofNames names)
      (findings.filter (·.file == Path.ofNames names))) w = (.ok fixed, w')) :
    ∃ result, rewritten registry o.safeMode (Path.ofNames names)
        (sourcesAt findings (Path.ofNames names)) bytes = .ok result ∧
      (fixed = [] ↔ result = none) ∧ w'.tree.WellFormed ∧
      ∀ q, w'.tree.file? q =
        if q = root.place ++ names then some (result.getD bytes) else w.tree.file? q := by
  have hlook := Tree.look_of_file? ht hne hfile
  have hread := Tree.read_of_look hlook
  obtain ⟨rfl, htree, hkept⟩ | ⟨hfixed, hopen, text, new, place, htext, hnew, hchange, hwrite⟩ :=
    repairFile_eq_ok h
  · -- The bytes stay, whatever the reason is.
    have hnone : rewritten registry o.safeMode (Path.ofNames names)
        (sourcesAt findings (Path.ofNames names)) bytes = .ok none := by
      unfold rewritten
      obtain hprotected | ⟨fault, hfault⟩ | ⟨text, htext, hsame⟩ := hkept
      · rw [if_pos hprotected]
      · split
        · rfl
        · cases hdecode : Text.decode? bytes with
          | none => rfl
          | some text =>
            rw [hread, hdecode] at hfault
            cases hfault
      · split
        · rfl
        · cases hdecode : Text.decode? bytes with
          | none => rfl
          | some found =>
            rw [hread, hdecode] at htext
            cases htext
            simp [hsame, Except.map]
    refine ⟨none, hnone, by simp, by rw [htree]; exact ht, fun q => ?_⟩
    rw [htree]
    split
    · rename_i hq
      rw [hq, hfile, Option.getD_none]
    · rfl
  · have hdecode : Text.decode? bytes = some text := by
      rw [hread] at htext
      cases hdecode : Text.decode? bytes with
      | none =>
        rw [hdecode] at htext
        cases htext
      | some found =>
        rw [hdecode] at htext
        cases htext
        rfl
    obtain ⟨ht', hput⟩ := Tree.write_eq_ok ht hne (ht.names_of_file? hfile) hwrite
    refine ⟨some (Text.encode new), ?_, by simp [hfixed], ht', hput⟩
    simp [rewritten, hopen, hdecode, hnew, hchange, Except.map]

/-! ### The turns of all files -/

/-- The turns of different files do not disturb each other: every file with a turn gets the bytes that
its turn makes of the bytes it had, and no other place changes. -/
theorem repairFiles_of_files {files : List String} {w w' : Workspace}
    {fixes : List (String × List String)} (ht : w.tree.WellFormed) (hnodup : files.Nodup)
    (hfiles : ∀ file ∈ files, ∃ names, file = Path.ofNames names ∧ names ≠ [] ∧
      (w.tree.file? (root.place ++ names)).isSome)
    (h : Run.exec (repairFiles root registry o findings files) w = (.ok fixes, w')) :
    w'.tree.WellFormed ∧
      (∀ q, (w.tree.file? q = none ∨
          ∀ names, names ≠ [] → Path.ofNames names ∈ files → q ≠ root.place ++ names) →
        w'.tree.file? q = w.tree.file? q) ∧
      ∀ names bytes, names ≠ [] → Path.ofNames names ∈ files →
        w.tree.file? (root.place ++ names) = some bytes →
        ∃ result, rewritten registry o.safeMode (Path.ofNames names)
            (sourcesAt findings (Path.ofNames names)) bytes = .ok result ∧
          w'.tree.file? (root.place ++ names) = some (result.getD bytes) ∧
          (Path.ofNames names ∈ fixes.map (·.1) ↔ result ≠ none) := by
  induction files generalizing w fixes with
  | nil =>
    cases h
    exact ⟨ht, fun _ _ => rfl, fun _ _ _ hmem => by simp at hmem⟩
  | cons file files ih =>
    obtain ⟨hnew, hrest⟩ := List.nodup_cons.mp hnodup
    obtain ⟨first, rfl, hne, hsome⟩ := hfiles file (by simp)
    obtain ⟨old, hold⟩ := Option.isSome_iff_exists.mp hsome
    obtain ⟨fixed, w₁, more, hturn, hmore, hfixes⟩ := repairFiles_cons_eq_ok h
    obtain ⟨result, hresult, hfixed, ht₁, hput⟩ := repairFile_of_file ht hne hold hturn
    have hfirst : ∀ names, names ≠ [] → Path.ofNames names ∈ files →
        root.place ++ names ≠ root.place ++ first := by
      intro names _ hmem heq
      exact hnew (List.append_cancel_left heq ▸ hmem)
    have hfiles₁ : ∀ file ∈ files, ∃ names, file = Path.ofNames names ∧ names ≠ [] ∧
        (w₁.tree.file? (root.place ++ names)).isSome := by
      intro file hmem
      obtain ⟨names, rfl, hne', hsome'⟩ := hfiles file (by simp [hmem])
      refine ⟨names, rfl, hne', ?_⟩
      rw [hput, if_neg (hfirst names hne' hmem)]
      exact hsome'
    obtain ⟨ht', hothers, hturns⟩ := ih ht₁ hrest hfiles₁ hmore
    rw [hfixes]
    refine ⟨ht', ?_, ?_⟩
    · rintro q hq
      have hplace : q ≠ root.place ++ first := by
        rintro rfl
        obtain hnone | hq := hq
        · simp [hold] at hnone
        · exact hq first hne (by simp) rfl
      have hkept : w₁.tree.file? q = w.tree.file? q := by rw [hput, if_neg hplace]
      rw [← hkept]
      apply hothers
      rw [hkept]
      exact hq.imp_right fun hq names hne' hmem => hq names hne' (by simp [hmem])
    · intro names bytes hne' hmem hbytes
      by_cases hpath : Path.ofNames names ∈ files
      · have hplace := hfirst names hne' hpath
        have hkept : w₁.tree.file? (root.place ++ names) = some bytes := by
          rw [hput, if_neg hplace, hbytes]
        obtain ⟨result', hresult', hfile', hchanged'⟩ := hturns names bytes hne' hpath hkept
        have hother : Path.ofNames names ≠ Path.ofNames first := by
          intro heq
          exact hnew (heq ▸ hpath)
        refine ⟨result', hresult', hfile', ?_⟩
        rw [← hchanged']
        split <;> simp [hother]
      · obtain heq : Path.ofNames names = Path.ofNames first := by simpa [hpath] using hmem
        obtain rfl := Path.ofNames_inj hne' hne (ht.names_of_file? hbytes)
          (ht.names_of_file? hold) heq
        obtain rfl : old = bytes := by simpa [hold] using hbytes
        -- No later turn is that of this file.
        have hlast : w'.tree.file? (root.place ++ names) = w₁.tree.file? (root.place ++ names) := by
          refine hothers _ (.inr ?_)
          intro others _ hmem' heq'
          exact hpath (List.append_cancel_left heq' ▸ hmem')
        have hnot : Path.ofNames names ∉ more.map (·.1) := fun hmem' =>
          hpath (mem_of_mem_fixes hmore hmem')
        refine ⟨result, hresult, by rw [hlast, hput, if_pos rfl], ?_⟩
        rw [List.mem_append, or_iff_left hnot, ne_eq, ← hfixed]
        by_cases hnone : fixed = [] <;> simp [hnone]

/-! ### The whole run -/

/-- Options that ask for repairs only run no update. -/
theorem exec_updateFiles_of_repairsOnly (ho : o.repairsOnly = true) (w : Workspace) :
    Run.exec (updateFiles root o) w = (.ok [], w) := by
  simp only [Options.repairsOnly, Bool.not_eq_true', Bool.or_eq_false_iff] at ho
  obtain ⟨⟨⟨⟨⟨⟨⟨hgems, hconfigs⟩, hmigrations⟩, hjobs⟩, hapi⟩, hstock⟩, horder⟩, hpos⟩ := ho
  have hnames : updateNamespaces root o = pure [] := by
    simp [updateNamespaces, runPlan, hjobs, hapi, hstock, horder, hpos]
  rw [updateFiles, hnames]
  cases o.target with
  | none => simp [hgems, hconfigs, hmigrations, distinct, addNew]
  | some target => simp [hgems, hconfigs, hmigrations, distinct, addNew]

/-- The release that a run upgrades to. -/
def targetOf (t : Tree) (root : Root) (o : Options) : String := o.target.getD (detectTarget t root)

/-- What the detections of a registry find in a tree. -/
def foundIn (t : Tree) (root : Root) (registry : Registry) (o : Options) : List Finding :=
  registry.detections.flatMap (findingsOf t root (some (targetOf t root o)))

variable (root registry o) in
/-- An upgrade ends with the first number that is too long to compare, or it repairs what its
detections find. -/
theorem exec_upgrade (w : Workspace) :
    ∃ notices, Run.exec (upgrade root registry o) w =
      match registry.detections.findSome? (overlong? (some (targetOf w.tree root o))) with
      | some number => (.error (.overlong number), { w with notices })
      | none => Run.exec (repair root registry { o with target := some (targetOf w.tree root o) }
          (foundIn w.tree root registry o)) { w with notices } := by
  obtain ⟨notices, hscan⟩ := exec_scan root registry (some (targetOf w.tree root o)) w
  refine ⟨notices, ?_⟩
  rw [upgrade, Run.exec_tree_bind]
  cases hlong : registry.detections.findSome? (overlong? (some (targetOf w.tree root o))) with
  | some number =>
    rw [hlong] at hscan
    exact Run.exec_bind_of_error hscan
  | none =>
    rw [hlong] at hscan
    exact Run.exec_bind_of_ok hscan

/-- An upgrade without updates is a scan and the turns of the files that it found something in. -/
theorem upgrade_eq_ok {w w' : Workspace} {outcome : Outcome} (ho : o.repairsOnly = true)
    (hdry : o.dryRun = false)
    (h : Run.exec (upgrade root registry o) w = (.ok outcome, w')) :
    outcome.findings =
        registry.detections.flatMap (findingsOf w.tree root (some (targetOf w.tree root o))) ∧
      ∃ w₁ fixes, w₁.tree = w.tree ∧ outcome.changed = fixes.map (·.1) ∧
        Run.exec (repairFiles root registry { o with target := some (targetOf w.tree root o) }
          outcome.findings (distinct (outcome.findings.map Finding.file))) w₁ = (.ok fixes, w') := by
  rw [upgrade, Run.exec_tree_bind] at h
  obtain ⟨findings, w₁, hscan, h⟩ := Run.exec_bind_eq_ok h
  obtain ⟨hfindings, htree⟩ := scan_eq_ok hscan
  rw [repair, if_neg (by simp [hdry])] at h
  obtain ⟨fixes, w₂, hfixes, h⟩ := Run.exec_bind_eq_ok h
  obtain ⟨updated, w₃, hupdated, h⟩ := Run.exec_bind_eq_ok h
  rw [exec_updateFiles_of_repairsOnly (by exact ho)] at hupdated
  cases hupdated
  cases h
  exact ⟨hfindings, w₁, fixes, htree, rfl, hfixes⟩

/-- A dry run changes nothing. -/
theorem changed_of_dryRun {w w' : Workspace} {outcome : Outcome} (hdry : o.dryRun = true)
    (h : Run.exec (upgrade root registry o) w = (.ok outcome, w')) : outcome.changed = [] := by
  rw [upgrade, Run.exec_tree_bind] at h
  obtain ⟨findings, w₁, -, h⟩ := Run.exec_bind_eq_ok h
  rw [repair, if_pos hdry] at h
  cases h
  rfl

/-! ### Reading the sources of a file off its names and text -/

variable {t : Tree} {names : List String} {bytes : ByteArray}

theorem reports_iff (ht : t.WellFormed) {d : Detection} (hplain : Glob.isPlain d.glob = true)
    (target : String) (hne : names ≠ []) (hfile : t.file? (root.place ++ names) = some bytes)
    {text : List Char} (hdecode : Text.decode? bytes = some text) :
    d.reports t root (some target) (Path.ofNames names) =
      (d.isActive (some target) && Glob.covers d.glob names && d.pattern.found text) := by
  have hlisted : ((Glob.files? t root d.glob).getD []).contains (Path.ofNames names) =
      Glob.covers d.glob names := by
    rw [Bool.eq_iff_iff, List.contains_iff_mem]
    exact Glob.mem_files?_iff_covers ht hplain hne (by simp [hfile])
  have hread : t.read root (Path.ofNames names) = .ok text := by
    rw [Tree.read_of_look (Tree.look_of_file? ht hne hfile), hdecode]
  rw [Detection.reports, hlisted, Detection.foundAt, hread]

/-- The sources that are repaired in a file are those that its names and its text ask for. -/
theorem sourcesAt_eq_dueSources (ht : t.WellFormed)
    (hplain : ∀ d ∈ registry.detections, Glob.isPlain d.glob = true) (target : String)
    (hne : names ≠ []) (hfile : t.file? (root.place ++ names) = some bytes)
    {text : List Char} (hdecode : Text.decode? bytes = some text) :
    sourcesAt (registry.detections.flatMap (findingsOf t root (some target)))
      (Path.ofNames names) = dueSources registry target names text := by
  rw [sourcesAt, sources_of_file, dueSources]
  congr 2
  apply List.filter_congr
  intro d hd
  exact reports_iff ht (hplain d hd) target hne hfile hdecode

/-- A glob covers no file at the root itself. -/
theorem covers_nil (glob : String) : Glob.covers glob [] = false := by
  rw [Glob.covers, Bool.and_eq_false_iff, List.any_eq_false]
  refine .inr fun g _ hcovers => ?_
  rw [Glob.alternativeCovers_eq, Bool.and_eq_true] at hcovers
  exact Glob.ne_nil_of_stands (Glob.segmentsOf_ne_nil hcovers.1) hcovers.2 rfl

/-! ### What becomes of every file -/

/-- The bytes that an upgrade writes into a file, if it writes any, told from the names and the bytes
of this file alone. -/
def upgradedBytes (registry : Registry) (safe : Bool) (target : String) (names : List String)
    (bytes : ByteArray) : Except Pattern.TemplateError (Option ByteArray) :=
  rewritten registry safe (Path.ofNames names)
    ((Text.decode? bytes).elim [] (dueSources registry target names)) bytes

/-- Without sources nothing is written. -/
theorem rewritten_nil (registry : Registry) (safe : Bool) (path : String) (bytes : ByteArray) :
    rewritten registry safe path [] bytes = .ok none := by
  unfold rewritten
  split
  · rfl
  · cases Text.decode? bytes with
    | none => rfl
    | some text => simp [repaired_nil, Except.map]

/-- The bytes do not depend on the sources if they are no text. -/
theorem rewritten_of_undecodable (registry : Registry) (safe : Bool) (path : String)
    (sources : List String) (hdecode : Text.decode? bytes = none) :
    rewritten registry safe path sources bytes = .ok none := by
  simp [rewritten, hdecode]

/-- The files with findings are files of the tree. -/
theorem exists_names_of_mem_findings (ht : t.WellFormed)
    (hplain : ∀ d ∈ registry.detections, Glob.isPlain d.glob = true) {target : Option String}
    {file : String}
    (h : file ∈ (registry.detections.flatMap (findingsOf t root target)).map Finding.file) :
    ∃ names, file = Path.ofNames names ∧ names ≠ [] ∧
      (t.file? (root.place ++ names)).isSome := by
  obtain ⟨finding, hmem, rfl⟩ := List.mem_map.mp h
  obtain ⟨d, hd, hfinding⟩ := List.mem_flatMap.mp hmem
  unfold findingsOf at hfinding
  split at hfinding
  · obtain ⟨path, hpath, rfl⟩ := List.mem_map.mp hfinding
    have hlisted := (List.mem_filter.mp hpath).1
    cases hfiles : Glob.files? t root d.glob with
    | none => simp [hfiles] at hlisted
    | some files =>
      rw [hfiles, Option.getD_some] at hlisted
      obtain ⟨names, hnames, hne, hsome, -⟩ :=
        (Glob.mem_files? ht (hplain d hd) hfiles path).mp hlisted
      exact ⟨names, hnames, hne, hsome⟩
  · cases hfinding

/-- A file at the root itself is covered by no glob. -/
theorem upgradedBytes_root (registry : Registry) (safe : Bool) (target : String)
    (bytes : ByteArray) : upgradedBytes registry safe target [] bytes = .ok none := by
  have hdue : (Text.decode? bytes).elim [] (dueSources registry target []) = [] := by
    cases Text.decode? bytes with
    | none => rfl
    | some text => simp [dueSources, covers_nil, distinct, addNew]
  rw [upgradedBytes, hdue, rewritten_nil]

/-- The sources that a scan found in a file are those that decide about its bytes. -/
theorem upgradedBytes_eq (ht : t.WellFormed)
    (hplain : ∀ d ∈ registry.detections, Glob.isPlain d.glob = true) (safe : Bool)
    (target : String) (hne : names ≠ []) (hfile : t.file? (root.place ++ names) = some bytes) :
    upgradedBytes registry safe target names bytes =
      rewritten registry safe (Path.ofNames names)
        (sourcesAt (registry.detections.flatMap (findingsOf t root (some target)))
          (Path.ofNames names)) bytes := by
  cases hdecode : Text.decode? bytes with
  | none =>
    rw [upgradedBytes, rewritten_of_undecodable _ _ _ _ hdecode,
      rewritten_of_undecodable _ _ _ _ hdecode]
  | some text =>
    rw [upgradedBytes, hdecode, Option.elim_some,
      sourcesAt_eq_dueSources ht hplain _ hne hfile hdecode]

/-- A file without findings has no sources. -/
theorem sourcesAt_eq_nil {file : String} (h : file ∉ findings.map Finding.file) :
    sourcesAt findings file = [] := by
  have hempty : findings.filter (·.file == file) = [] := by
    rw [List.filter_eq_nil_iff]
    intro finding hfinding hfile
    exact h (List.mem_map.mpr ⟨finding, hfinding, by simpa using hfile⟩)
  rw [sourcesAt, hempty]
  rfl

/-- What becomes of every place, and which files are told to have changed. -/
theorem upgrade_files {w w' : Workspace} {outcome : Outcome} (ht : w.tree.WellFormed)
    (hplain : ∀ d ∈ registry.detections, Glob.isPlain d.glob = true) (ho : o.repairsOnly = true)
    (hdry : o.dryRun = false)
    (h : Run.exec (upgrade root registry o) w = (.ok outcome, w')) :
    w'.tree.WellFormed ∧
      (∀ q, (w.tree.file? q = none ∨ ¬ root.place <+: q) →
        w'.tree.file? q = w.tree.file? q) ∧
      (∀ file ∈ outcome.changed, ∃ names, file = Path.ofNames names ∧ names ≠ [] ∧
        (w.tree.file? (root.place ++ names)).isSome) ∧
      ∀ names bytes, w.tree.file? (root.place ++ names) = some bytes →
        ∃ result,
          upgradedBytes registry o.safeMode (targetOf w.tree root o) names bytes = .ok result ∧
          w'.tree.file? (root.place ++ names) = some (result.getD bytes) ∧
          (names ≠ [] → (Path.ofNames names ∈ outcome.changed ↔ result ≠ none)) := by
  obtain ⟨hfindings, w₁, fixes, htree, hchanged, hrun⟩ := upgrade_eq_ok ho hdry h
  have hnames : ∀ file ∈ distinct (outcome.findings.map Finding.file), ∃ names,
      file = Path.ofNames names ∧ names ≠ [] ∧ (w₁.tree.file? (root.place ++ names)).isSome := by
    intro file hfile
    rw [mem_distinct, hfindings] at hfile
    rw [htree]
    exact exists_names_of_mem_findings ht hplain hfile
  obtain ⟨ht', hothers, hturns⟩ :=
    repairFiles_of_files (by rw [htree]; exact ht) (nodup_distinct _) hnames hrun
  rw [htree] at hothers hturns hnames
  rw [hchanged]
  refine ⟨ht', ?_, fun file hfile => hnames file (mem_of_mem_fixes hrun hfile), ?_⟩
  -- Outside of the files that are found nothing is written.
  · intro q hq
    apply hothers
    refine hq.imp_right fun hout names _ _ heq => hout ?_
    rw [heq]
    exact List.prefix_append _ _
  · intro names bytes hbytes
    by_cases hne : names = []
    · subst hne
      refine ⟨none, upgradedBytes_root _ _ _ _, ?_, fun h => absurd rfl h⟩
      rw [hothers, hbytes, Option.getD_none]
      exact .inr fun others hne' _ heq => hne' (by simpa using heq)
    rw [upgradedBytes_eq ht hplain _ _ hne hbytes, ← hfindings]
    -- A file with findings has its turn; any other one has nothing due.
    by_cases hmem : Path.ofNames names ∈ distinct (outcome.findings.map Finding.file)
    · obtain ⟨result, hresult, hfile, hmem'⟩ := hturns names bytes hne hmem hbytes
      exact ⟨result, hresult, hfile, fun _ => hmem'⟩
    · have hnone := sourcesAt_eq_nil fun h => hmem ((mem_distinct _ _).mpr h)
      refine ⟨none, by rw [hnone, rewritten_nil], ?_, ?_⟩
      · rw [hothers, hbytes, Option.getD_none]
        refine .inr fun others hne' hmem' heq => hmem ?_
        rw [List.append_cancel_left heq]
        exact hmem'
      · intro _
        simpa using fun hmem' => hmem (mem_of_mem_fixes hrun hmem')

/-- What becomes of every file. A file that is protected, is no text or has nothing due keeps its
bytes. Every other file gets its own text with the repairs of all sources that are due in it, in the
order in which the detections first name them; which ones are due is told from the text before the
run. -/
theorem upgrade_file {w w' : Workspace} {outcome : Outcome} (ht : w.tree.WellFormed)
    (hplain : ∀ d ∈ registry.detections, Glob.isPlain d.glob = true) (ho : o.repairsOnly = true)
    (hdry : o.dryRun = false)
    (h : Run.exec (upgrade root registry o) w = (.ok outcome, w'))
    (hfile : w.tree.file? (root.place ++ names) = some bytes) :
    ((Path.isProtected (Path.ofNames names) = true ∨ Text.decode? bytes = none ∨
        ∃ text, Text.decode? bytes = some text ∧
          dueSources registry (targetOf w.tree root o) names text = []) →
      w'.tree.file? (root.place ++ names) = some bytes) ∧
    ∀ text, Path.isProtected (Path.ofNames names) = false → Text.decode? bytes = some text →
      ∃ new, (dueSources registry (targetOf w.tree root o) names text).foldlM
          (repairStep registry o.safeMode) text = .ok new ∧
        w'.tree.file? (root.place ++ names) =
          some (if new = text then bytes else Text.encode new) := by
  obtain ⟨-, -, -, hfiles⟩ := upgrade_files ht hplain ho hdry h
  obtain ⟨result, hresult, hnew, -⟩ := hfiles names bytes hfile
  rw [hnew]
  rw [upgradedBytes] at hresult
  constructor
  -- In each of the three cases there is nothing to be written.
  · rintro (hprotected | hdecode | ⟨text, hdecode, hdue⟩)
    · rw [rewritten, if_pos hprotected] at hresult
      cases hresult
      rfl
    · rw [rewritten_of_undecodable _ _ _ _ hdecode] at hresult
      cases hresult
      rfl
    · rw [hdecode, Option.elim_some, hdue, rewritten_nil] at hresult
      cases hresult
      rfl
  · intro text hopen hdecode
    rw [rewritten, if_neg (by simp [hopen]), hdecode, Option.elim_some] at hresult
    simp only at hresult
    cases hrepaired : repaired registry o.safeMode
        (dueSources registry (targetOf w.tree root o) names text) text with
    | error e =>
      rw [hrepaired] at hresult
      cases hresult
    | ok new =>
      rw [hrepaired] at hresult
      cases hresult
      refine ⟨new, hrepaired, ?_⟩
      by_cases hsame : new = text <;> simp [hsame]

/-- Two rules in a chain: the text that the first one puts in is what the second one looks for. -/
def chainRules : Registry where
  detections :=
    [⟨.fixed .byLine "foo", "", "**/*.rb", none⟩, ⟨.fixed .byLine "bar", "", "lib/*.rb", none⟩]
  repairs :=
    [("foo", ⟨.fixed .byLine "foo", .template "bar", true⟩),
     ("bar", ⟨.fixed .byLine "bar", .template "baz", true⟩)]

/-- One file, which only the first rule of the chain finds something in. -/
def chainSpace : Workspace := { tree := { files := [(["lib", "a.rb"], Text.encode ['f', 'o', 'o'])] } }

/-- The second rule of the chain is not due: it is told from the text before the run. -/
theorem upgrade_file_chain :
    ∃ outcome w', Run.exec (upgrade ⟨[], "."⟩ chainRules {}) chainSpace = (.ok outcome, w') ∧
      w'.tree.file? ["lib", "a.rb"] = some (Text.encode ['b', 'a', 'r']) := by
  obtain ⟨outcome, w', h⟩ := Run.exists_of_isOk
    (show (Run.exec (upgrade ⟨[], "."⟩ chainRules {}) chainSpace).1.isOk = true by decide +kernel)
  refine ⟨outcome, w', h, ?_⟩
  have hbefore : chainSpace.tree.file? ([] ++ ["lib", "a.rb"]) =
      some (Text.encode ['f', 'o', 'o']) := rfl
  obtain ⟨-, htext⟩ := upgrade_file (by decide) (by decide +kernel) rfl rfl h hbefore
  obtain ⟨new, hfold, hfile⟩ := htext ['f', 'o', 'o'] (by decide +kernel) (by decide +kernel)
  obtain rfl : ['b', 'a', 'r'] = new := by
    have hbar : (dueSources chainRules (targetOf chainSpace.tree ⟨[], "."⟩ {}) ["lib", "a.rb"]
        ['f', 'o', 'o']).foldlM (repairStep chainRules true) ['f', 'o', 'o'] =
          .ok ['b', 'a', 'r'] := by decide +kernel
    exact Except.ok.inj (hbar.symm.trans hfold)
  exact hfile

end Project

end RailsUpgrade
