import RailsUpgrade.Project.Repair
import RailsUpgrade.Proofs.Ordered
import RailsUpgrade.Proofs.Run
import RailsUpgrade.Proofs.Tree

/-!
# `RailsUpgrade.Proofs.Repair`: what repairs do to a text and to a file

`repaired` says on texts alone what the repairs for sources do: one step for every source, from the
first to the last. A run does the same and leaves notices:

* `exec_repairFindings`: running the repairs for findings is `repaired` on their sources;
* `map_source_firstBySource`: these sources are the sources of all findings, each once;
* `repairFile_eq_ok`: a file is left alone, or it gets the repaired text;
* `exec_repairFile_of_error`: a file that cannot be read or is protected ends no run.
-/

set_option autoImplicit false

namespace RailsUpgrade.Project

/-- What becomes of a text for one source. A source that is gated in safe mode, or has no repair,
leaves the text as it is. -/
def repairStep (registry : Registry) (safe : Bool) (text : List Char) (source : String) :
    Except Pattern.TemplateError (List Char) :=
  if safe && isGated registry source then .ok text
  else (repairText registry source text).map (·.getD text)

/-- What becomes of a text for sources, one after the other. -/
def repaired (registry : Registry) (safe : Bool) (sources : List String) (text : List Char) :
    Except Pattern.TemplateError (List Char) :=
  sources.foldlM (repairStep registry safe) text

/-- The sources whose step changes the text that it gets. -/
def fixedSources (registry : Registry) (safe : Bool) : List String → List Char → List String
  | [], _ => []
  | source :: rest, text => match repairStep registry safe text source with
    | .error _ => []
    | .ok new =>
      if new = text then fixedSources registry safe rest text
      else source :: fixedSources registry safe rest new

variable {registry : Registry} {safe : Bool} {root : Root} {o : Options}

theorem repaired_nil (text : List Char) : repaired registry safe [] text = .ok text := rfl

theorem repaired_cons_of_ok {text new : List Char} {source : String}
    (h : repairStep registry safe text source = .ok new) (rest : List String) :
    repaired registry safe (source :: rest) text = repaired registry safe rest new := by
  rw [repaired, List.foldlM_cons, h]
  rfl

theorem repaired_cons_of_error {text : List Char} {source : String} {e : Pattern.TemplateError}
    (h : repairStep registry safe text source = .error e) (rest : List String) :
    repaired registry safe (source :: rest) text = .error e := by
  rw [repaired, List.foldlM_cons, h]
  rfl

/-- If no source was fixed, the text has not changed. -/
theorem eq_of_fixedSources_eq_nil {sources : List String} {text new : List Char}
    (hnew : repaired registry safe sources text = .ok new)
    (hnone : fixedSources registry safe sources text = []) : new = text := by
  induction sources generalizing text with
  | nil =>
    cases hnew
    rfl
  | cons source rest ih =>
    rw [fixedSources] at hnone
    cases hstep : repairStep registry safe text source with
    | error e =>
      rw [repaired_cons_of_error hstep] at hnew
      cases hnew
    | ok next =>
      rw [repaired_cons_of_ok hstep] at hnew
      rw [hstep] at hnone
      by_cases hsame : next = text
      · subst hsame
        exact ih hnew (by simpa using hnone)
      · simp [hsame] at hnone

/-! ### Findings -/

/-- The outcome of the repairs of a text. -/
def repairResult (registry : Registry) (safe : Bool) (sources : List String) (text : List Char) :
    Except Failure (List Char × List String) :=
  match repaired registry safe sources text with
  | .error e => .error (.template e)
  | .ok new => .ok (new, fixedSources registry safe sources text)

/-- A step that changes nothing does not show in the outcome. -/
theorem repairResult_cons_of_same {text : List Char} {source : String}
    (h : repairStep registry safe text source = .ok text) (rest : List String) :
    repairResult registry safe (source :: rest) text = repairResult registry safe rest text := by
  rw [repairResult, repairResult, repaired_cons_of_ok h, fixedSources, h]
  simp

/-- A step that changes the text adds its source to those that were fixed. -/
theorem repairResult_cons_of_change {text new : List Char} {source : String}
    (h : repairStep registry safe text source = .ok new) (hne : new ≠ text) (rest : List String) :
    repairResult registry safe (source :: rest) text =
      (repairResult registry safe rest new).map fun (final, fixed) => (final, source :: fixed) := by
  rw [repairResult, repairResult, repaired_cons_of_ok h, fixedSources, h]
  cases repaired registry safe rest new with
  | error e => rfl
  | ok final => simp [hne, Except.map]

variable (registry o) in
/-- Running the repairs for findings is `repaired` on their sources, and leaves notices only. -/
theorem exec_repairFindings (file : String) (findings : List Finding) (text : List Char)
    (w : Workspace) :
    ∃ notices, Run.exec (repairFindings registry o file findings text) w =
      (repairResult registry o.safeMode (findings.map Finding.source) text,
        { w with notices := notices }) := by
  induction findings generalizing text w with
  | nil => exact ⟨w.notices, rfl⟩
  | cons f rest ih =>
    rw [repairFindings, List.map_cons]
    by_cases hgated : (o.safeMode && isGated registry f.source) = true
    -- A gated finding only leaves a notice.
    · rw [if_pos hgated, Run.exec_note_bind]
      rw [repairResult_cons_of_same (by rw [repairStep, if_pos hgated])]
      exact ih text _
    · rw [if_neg hgated]
      have hstep : repairStep registry o.safeMode text f.source =
          (repairText registry f.source text).map (·.getD text) := by rw [repairStep, if_neg hgated]
      cases hrepair : repairText registry f.source text with
      | error e =>
        rw [hrepair] at hstep
        rw [repairResult, repaired_cons_of_error hstep]
        exact ⟨w.notices, rfl⟩
      | ok result =>
        rw [hrepair] at hstep
        cases result with
        | none =>
          rw [repairResult_cons_of_same hstep]
          exact ih text w
        | some new =>
          -- A repair that gives the same text counts as no repair.
          by_cases hsame : new = text
          · subst hsame
            rw [repairResult_cons_of_same hstep]
            simpa using ih new w
          · obtain ⟨notices, hrest⟩ := ih new
              { w with notices := w.notices ++ [.fixed o.verbose file f.message] }
            refine ⟨notices, ?_⟩
            have hstep' : repairStep registry o.safeMode text f.source = .ok new := hstep
            rw [repairResult_cons_of_change hstep' hsame]
            simp only [beq_iff_eq, if_neg hsame, Run.exec_note_bind]
            cases hresult : repairResult registry o.safeMode (rest.map Finding.source) new with
            | error failure =>
              rw [hresult] at hrest
              exact Run.exec_bind_of_error hrest
            | ok result =>
              rw [hresult] at hrest
              exact Run.exec_bind_of_ok hrest

/-- The findings that count have the sources of all findings, each once. -/
theorem map_source_firstBySource (findings : List Finding) :
    (firstBySource findings).map Finding.source = distinct (findings.map Finding.source) := by
  have hfold : ∀ kept : List Finding,
      (findings.foldl (fun kept f =>
        if kept.any (·.source == f.source) then kept else kept ++ [f]) kept).map Finding.source =
      addNew (kept.map Finding.source) (findings.map Finding.source) := by
    intro kept
    induction findings generalizing kept with
    | nil => rfl
    | cons f rest ih =>
      have hseen : (kept.map Finding.source).contains f.source =
          kept.any (·.source == f.source) := by
        rw [Bool.eq_iff_iff]
        simp only [List.contains_iff_mem, List.mem_map, List.any_eq_true, beq_iff_eq]
      rw [List.foldl_cons, ih, List.map_cons, addNew_cons, hseen]
      split
      · rfl
      · rw [List.map_append]
        rfl
  exact hfold []

/-! ### One file -/

variable (root registry o) in
/-- What a file that was passed over leaves: it is protected or cannot be read. -/
theorem exec_repairFile_of_error {file : String} (findings : List Finding) {w : Workspace}
    (h : Path.isProtected file = true ∨ ∃ fault, w.tree.read root file = .error fault) :
    ∃ notices, Run.exec (repairFile root registry o file findings) w =
      (.ok [], { w with notices := notices }) := by
  rw [repairFile]
  by_cases hprotected : Path.isProtected file = true
  · rw [if_pos hprotected, Run.exec_note_bind]
    exact ⟨_, rfl⟩
  · rw [if_neg hprotected]
    obtain ⟨fault, hfault⟩ := h.resolve_left hprotected
    rw [Run.exec_tree_bind]
    split
    · rw [Run.exec_note_bind]
      exact ⟨_, rfl⟩
    · rw [Run.exec_tree_bind, hfault]
      exact ⟨_, rfl⟩

/-- The sources whose repairs run on a file. -/
def sourcesAt (findings : List Finding) (file : String) : List String :=
  distinct ((findings.filter (·.file == file)).map Finding.source)

variable (root registry o) in
/-- A file that can be read and is not protected runs through its repairs, and its text is written if
it has changed. -/
theorem exec_repairFile_of_read {file : String} (findings : List Finding) {w : Workspace}
    {text : List Char} (hprotected : Path.isProtected file = false)
    (hread : w.tree.read root file = .ok text) :
    ∃ notices, Run.exec (repairFile root registry o file (findings.filter (·.file == file))) w =
      match repairResult registry o.safeMode (sourcesAt findings file) text with
      | .error failure => (.error failure, { w with notices := notices })
      | .ok (new, fixed) =>
        if new = text then (.ok [], { w with notices := notices })
        else Run.exec (do Run.write root file new; return fixed) { w with notices := notices } := by
  obtain ⟨place, bytes, hlook, -⟩ := Tree.look_of_read hread
  have hfile : w.tree.isFileAt root file = true := by simp [Tree.isFileAt, hlook]
  obtain ⟨notices, hrun⟩ := exec_repairFindings registry o file
    (firstBySource (findings.filter (·.file == file))) text w
  rw [map_source_firstBySource] at hrun
  refine ⟨notices, ?_⟩
  -- The file is open, there and readable, so that only the repairs decide.
  rw [repairFile, if_neg (by simp [hprotected]), Run.exec_tree_bind, if_neg (by simp [hfile]),
    Run.exec_tree_bind, hread]
  simp only [sourcesAt]
  cases hresult : repairResult registry o.safeMode
      (distinct ((findings.filter (·.file == file)).map Finding.source)) text with
  | error failure =>
    rw [hresult] at hrun
    exact Run.exec_bind_of_error hrun
  | ok result =>
    obtain ⟨new, fixed⟩ := result
    rw [hresult] at hrun
    rw [Run.exec_bind_of_ok hrun]
    by_cases hsame : new = text
    · simp [hsame]
    · simp [hsame]

/-- What the turn of a file can do. Either nothing was fixed and the tree is as it was, because the
file is protected, cannot be read, or keeps its text; or the file was written with its repaired
text. -/
theorem repairFile_eq_ok {file : String} {findings : List Finding} {w w' : Workspace}
    {fixed : List String}
    (h : Run.exec (repairFile root registry o file (findings.filter (·.file == file))) w =
      (.ok fixed, w')) :
    (fixed = [] ∧ w'.tree = w.tree ∧ (Path.isProtected file = true ∨
        (∃ fault, w.tree.read root file = .error fault) ∨
        ∃ text, w.tree.read root file = .ok text ∧
          repaired registry o.safeMode (sourcesAt findings file) text = .ok text)) ∨
    (fixed ≠ [] ∧ Path.isProtected file = false ∧ ∃ text new place,
        w.tree.read root file = .ok text ∧
        repaired registry o.safeMode (sourcesAt findings file) text = .ok new ∧ new ≠ text ∧
        w.tree.write root file new = .ok (w'.tree, place)) := by
  -- The cases follow the guards of the repair in their order.
  by_cases hprotected : Path.isProtected file = true
  · obtain ⟨notices, hrun⟩ := exec_repairFile_of_error registry root o
      (findings.filter (·.file == file)) (w := w) (.inl hprotected)
    rw [hrun] at h
    cases h
    exact .inl ⟨rfl, rfl, .inl hprotected⟩
  cases hread : w.tree.read root file with
  | error fault =>
    obtain ⟨notices, hrun⟩ := exec_repairFile_of_error registry root o
      (findings.filter (·.file == file)) (w := w) (.inr ⟨fault, hread⟩)
    rw [hrun] at h
    cases h
    exact .inl ⟨rfl, rfl, .inr (.inl ⟨fault, rfl⟩)⟩
  | ok text =>
    have hopen : Path.isProtected file = false := by simpa using hprotected
    obtain ⟨notices, hrun⟩ := exec_repairFile_of_read registry root o
      findings (w := w) hopen hread
    rw [hrun, repairResult] at h
    cases hrepaired : repaired registry o.safeMode (sourcesAt findings file) text with
    | error e =>
      rw [hrepaired] at h
      cases h
    | ok new =>
      simp only [hrepaired] at h
      by_cases hsame : new = text
      · subst hsame
        rw [if_pos rfl] at h
        cases h
        exact .inl ⟨rfl, rfl, .inr (.inr ⟨new, rfl, hrepaired⟩)⟩
      · rw [if_neg hsame] at h
        obtain ⟨_, w₁, hwrite, hreturn⟩ := Run.exec_bind_eq_ok h
        obtain ⟨place, hplace⟩ := Run.write_eq_ok hwrite
        cases hreturn
        refine .inr ⟨?_, hopen, text, new, place, rfl, hrepaired, hsame, hplace⟩
        exact fun hnone => hsame (eq_of_fixedSources_eq_nil hrepaired hnone)

/-! ### Files one after the other -/

/-- The turns of files are the turn of the first one, then those of the others. -/
theorem repairFiles_cons_eq_ok {file : String} {files : List String} {findings : List Finding}
    {w w' : Workspace} {fixes : List (String × List String)}
    (h : Run.exec (repairFiles root registry o findings (file :: files)) w = (.ok fixes, w')) :
    ∃ fixed w₁ more,
      Run.exec (repairFile root registry o file (findings.filter (·.file == file))) w =
        (.ok fixed, w₁) ∧
      Run.exec (repairFiles root registry o findings files) w₁ = (.ok more, w') ∧
      fixes.map (·.1) = (if fixed = [] then [] else [file]) ++ more.map (·.1) := by
  obtain ⟨fixed, w₁, hturn, h⟩ := Run.exec_bind_eq_ok h
  obtain ⟨more, w₂, hmore, h⟩ := Run.exec_bind_eq_ok h
  cases h
  refine ⟨fixed, w₁, more, hturn, hmore, ?_⟩
  cases fixed <;> rfl

/-- Only files that had a turn are told to be fixed. -/
theorem mem_of_mem_fixes {files : List String} {findings : List Finding} {w w' : Workspace}
    {fixes : List (String × List String)}
    (h : Run.exec (repairFiles root registry o findings files) w = (.ok fixes, w'))
    {file : String} (hmem : file ∈ fixes.map (·.1)) : file ∈ files := by
  induction files generalizing w fixes with
  | nil =>
    cases h
    cases hmem
  | cons first files ih =>
    obtain ⟨fixed, w₁, more, -, hmore, hfixes⟩ := repairFiles_cons_eq_ok h
    rw [hfixes, List.mem_append] at hmem
    obtain hfirst | hlater := hmem
    · split at hfirst
      · cases hfirst
      · simp [List.mem_singleton.mp hfirst]
    · exact List.mem_cons_of_mem _ (ih hmore hlater)

/-- A file is told to be fixed if and only if it is not protected and its repairs change the text
that it has when its turn comes. -/
theorem mem_fixes_iff {files : List String} {findings : List Finding} {w w' : Workspace}
    {fixes : List (String × List String)} (hnodup : files.Nodup) {file : String}
    (hmem : file ∈ files)
    (h : Run.exec (repairFiles root registry o findings files) w = (.ok fixes, w')) :
    ∃ earlier w₁,
      Run.exec (repairFiles root registry o findings (files.takeWhile (· != file))) w =
        (.ok earlier, w₁) ∧
      (file ∈ fixes.map (·.1) ↔ Path.isProtected file = false ∧ ∃ text new,
        w₁.tree.read root file = .ok text ∧
        repaired registry o.safeMode (sourcesAt findings file) text = .ok new ∧ new ≠ text) := by
  induction files generalizing w fixes with
  | nil => cases hmem
  | cons first files ih =>
    obtain ⟨hnew, hrest⟩ := List.nodup_cons.mp hnodup
    obtain ⟨fixed, w₁, more, hturn, hmore, hfixes⟩ := repairFiles_cons_eq_ok h
    rw [hfixes]
    -- Either it is the first file's turn, or the files before it are the first one and those of the rest.
    by_cases hfirst : first = file
    · subst hfirst
      refine ⟨[], w, ?_, ?_⟩
      · simp [repairFiles]
      · have hlater : first ∉ more.map (·.1) := fun hmem' => hnew (mem_of_mem_fixes hmore hmem')
        rw [List.mem_append, or_iff_left hlater]
        obtain ⟨rfl, -, hkept⟩ | ⟨hfixed, hopen, text, new, -, htext, hrepaired, hchange, -⟩ :=
          repairFile_eq_ok hturn
        · simp only [if_true, List.not_mem_nil, false_iff]
          rintro ⟨hopen, text, new, htext, hrepaired, hchange⟩
          obtain hprotected | ⟨fault, hfault⟩ | ⟨text', htext', hsame⟩ := hkept
          · simp [hopen] at hprotected
          · simp [htext] at hfault
          · obtain rfl : text = text' := by simpa [htext] using htext'
            rw [hsame] at hrepaired
            cases hrepaired
            exact hchange rfl
        · simp only [if_neg hfixed, List.mem_singleton, true_iff]
          exact ⟨hopen, text, new, htext, hrepaired, hchange⟩
    · have hmem' : file ∈ files := by simpa [Ne.symm hfirst] using hmem
      obtain ⟨earlier, w₂, hearlier, hiff⟩ := ih hrest hmem' hmore
      refine ⟨if fixed.isEmpty then earlier else (first, fixed) :: earlier, w₂, ?_, ?_⟩
      · rw [List.takeWhile_cons_of_pos (by simpa using hfirst), repairFiles,
          Run.exec_bind_of_ok hturn, Run.exec_bind_of_ok hearlier]
        rfl
      · rw [← hiff, List.mem_append]
        split <;> simp [Ne.symm hfirst]

end RailsUpgrade.Project
