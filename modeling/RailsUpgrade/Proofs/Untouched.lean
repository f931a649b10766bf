import RailsUpgrade.Proofs.SecondRun

/-!
# `RailsUpgrade.Proofs.Untouched`: files that a run leaves alone

`LeftAlone` says that no file at some names is written between two states of a run, so that all of them
keep their bytes. `Untouched` says beside this that the tree stays well formed and has the same jobs, so
that later parts of the run make the same plans. `Run.Avoids` is the property of a run that keeps to it,
however it ends:

* `Run.avoids_write`, `Run.avoids_edit`, `Run.avoids_editAll`: the ways in which files are written. An
  edit may be of one of the files, if its change has nothing to do in the text of this file;
* `Project.avoids_updateGemfile`, `Project.avoids_updateConfigsWith`, `Project.avoids_updateMigrations`,
  `Project.avoids_updateNamespaces`: the updates of whole files.
-/

set_option autoImplicit false

namespace RailsUpgrade

/-- What is written at the path of names is at these names. -/
theorem Tree.place_of_write {t t' : Tree} {root : Root} {names : List String} {text : List Char}
    {place : Place} (ht : t.WellFormed) (hnames : Path.AreNames names)
    (h : t.write root (Path.ofNames names) text = .ok (t', place)) : place = root.place ++ names := by
  obtain ⟨above, name, rfl⟩ := (List.eq_nil_or_concat' names).resolve_left hnames.ne_nil
  rw [write, Path.parse_ofNames hnames.ne_nil hnames.isName, List.reverse_append] at h
  simp only [List.reverse_cons, List.reverse_nil, List.nil_append, List.cons_append] at h
  split at h
  · cases h
  · rename_i t₁ dir hmade
    obtain ⟨rfl, -⟩ := makeDirs_eq_ok ht
      (fun n hn => hnames.isName n (by simp [List.mem_reverse.mp hn])) hmade
    split at h
    · cases h
    · cases h
      rw [List.reverse_reverse, List.append_assoc]
      rfl

/-- The text of a file. -/
def Tree.textAt (t : Tree) (root : Root) (names : List String) : Option (List Char) :=
  (t.file? (root.place ++ names)).bind Text.decode?

theorem Tree.read_eq_ok_iff {t : Tree} {root : Root} {names : List String} {text : List Char}
    (ht : t.WellFormed) (hnames : Path.AreNames names) :
    t.read root (Path.ofNames names) = .ok text ↔ t.textAt root names = some text := by
  rw [textAt]
  cases hfile : t.file? (root.place ++ names) with
  | none =>
    refine iff_of_false (fun hread => ?_) (by simp)
    have hsome := isSome_file?_of_read ht hnames hread
    rw [hfile] at hsome
    cases hsome
  | some bytes =>
    rw [read_of_look (look_of_file? ht hnames.ne_nil hfile), Option.bind_some]
    cases Text.decode? bytes <;> simp

/-- No file at these names is written between two states of a run, so all of them keep their bytes. -/
structure LeftAlone (root : Root) (files : List (List String)) (before after : Workspace) : Prop where
  kept : ∀ names ∈ files,
    after.tree.file? (root.place ++ names) = before.tree.file? (root.place ++ names)
  unwritten : ∃ more, after.writes = before.writes ++ more ∧
    ∀ x ∈ more, ∀ names ∈ files, x.place ≠ root.place ++ names

/-- Files are left alone, in a tree that stays well formed and has the same jobs. -/
structure Untouched (root : Root) (files : List (List String)) (before after : Workspace) : Prop
    extends LeftAlone root files before after where
  wellFormed : after.tree.WellFormed
  jobs : Project.SameJobs root before.tree after.tree

namespace Untouched

variable {root : Root} {files : List (List String)} {start w : Workspace} {names : List String}

theorem refl (ht : w.tree.WellFormed) : Untouched root files w w where
  kept _ _ := rfl
  unwritten := ⟨[], (List.append_nil _).symm, by simp⟩
  wellFormed := ht
  jobs _ _ _ := rfl

theorem trans {w' : Workspace} (h : Untouched root files start w) (h' : Untouched root files w w') :
    Untouched root files start w' where
  kept names hnames := (h'.kept names hnames).trans (h.kept names hnames)
  unwritten := by
    obtain ⟨first, hfirst, hothers⟩ := h.unwritten
    obtain ⟨second, hsecond, hothers'⟩ := h'.unwritten
    refine ⟨first ++ second, by rw [hsecond, hfirst, List.append_assoc], fun x hx => ?_⟩
    exact (List.mem_append.mp hx).elim (hothers x) (hothers' x)
  wellFormed := h'.wellFormed
  jobs := h.jobs.trans h'.jobs

/-- Where there is a file, there was one before, unless it is in the directory that jobs move to. -/
theorem there (h : Untouched root files start w) (hnames : Path.AreNames names)
    (hfile : (w.tree.file? (root.place ++ names)).isSome) :
    names.take 3 = Project.newJobs ∨ (start.tree.file? (root.place ++ names)).isSome := by
  rw [or_iff_not_imp_left]
  intro hplace
  rw [h.jobs names hnames hplace, hfile]

theorem textAt (h : Untouched root files start w) (hmem : names ∈ files) :
    w.tree.textAt root names = start.tree.textAt root names := by
  rw [Tree.textAt, Tree.textAt, h.kept names hmem]

theorem notices (h : Untouched root files start w) (notices : List Notice) :
    Untouched root files start { w with notices } :=
  ⟨⟨h.kept, h.unwritten⟩, h.wellFormed, h.jobs⟩

/-- One more file is written. It is one that there was before, or one of those that jobs move to. -/
theorem written {w' : Workspace} {bytes : ByteArray} (h : Untouched root files start w)
    (hnames : Path.AreNames names) (hother : names ∉ files)
    (hthere : names.take 3 = Project.newJobs ∨ (start.tree.file? (root.place ++ names)).isSome)
    (ht' : w'.tree.WellFormed)
    (hfiles : ∀ q, w'.tree.file? q = if q = root.place ++ names then some bytes else w.tree.file? q)
    (hwrites : w'.writes = w.writes ++ [⟨root.place ++ names, bytes⟩]) :
    Untouched root files start w' := by
  have hplaces : ∀ others ∈ files, root.place ++ others ≠ root.place ++ names := by
    intro others hothers heq
    exact hother (List.append_cancel_left heq ▸ hothers)
  refine ⟨⟨fun others hothers => ?_, ?_⟩, ht', fun others hothers hjobs => ?_⟩
  · rw [hfiles, if_neg (hplaces others hothers), h.kept others hothers]
  · obtain ⟨more, hmore, hunwritten⟩ := h.unwritten
    refine ⟨more ++ [⟨root.place ++ names, bytes⟩], by simp [hwrites, hmore], fun x hx others hothers => ?_⟩
    rcases List.mem_append.mp hx with hx | hx
    · exact hunwritten x hx others hothers
    · rw [List.mem_singleton.mp hx]
      exact (hplaces others hothers).symm
  · rw [h.jobs others hothers hjobs, hfiles]
    split
    · rename_i heq
      obtain rfl := List.append_cancel_left heq
      rw [← h.jobs others hothers hjobs, hthere.resolve_left hjobs]
      rfl
    · rfl

theorem write (h : Untouched root files start w) (hnames : Path.AreNames names) (hother : names ∉ files)
    (hthere : names.take 3 = Project.newJobs ∨ (start.tree.file? (root.place ++ names)).isSome)
    (text : List Char) :
    Untouched root files start (Run.exec (Run.write root (Path.ofNames names) text) w).2 := by
  cases hwrite : w.tree.write root (Path.ofNames names) text with
  | error fault =>
    rw [Run.write, Run.exec_tree_bind, hwrite]
    exact h
  | ok result =>
    obtain ⟨t', place⟩ := result
    obtain ⟨ht', hfiles⟩ := Tree.write_eq_ok h.wellFormed hnames.ne_nil hnames.isName hwrite
    obtain rfl : place = root.place ++ names := Tree.place_of_write h.wellFormed hnames hwrite
    rw [Run.exec_write_ok hwrite]
    exact h.written hnames hother hthere ht' hfiles rfl

/-- A file that there is gets new bytes. -/
theorem after (h : Untouched root files start w) (hnames : Path.AreNames names) (hother : names ∉ files)
    (hfile : (w.tree.file? (root.place ++ names)).isSome) (bytes : ByteArray) (notices : List Notice) :
    Untouched root files start (w.after [⟨root.place ++ names, bytes⟩] notices) :=
  h.written hnames hother (h.there hnames hfile) (h.wellFormed.put hfile bytes)
    (fun _ => Tree.file?_put ..) rfl

end Untouched

/-! ### Runs that avoid files -/

namespace Run

variable {α β : Type} {root : Root} {files : List (List String)} {start : Workspace}
  {names : List String}

/-- A run that leaves files untouched since the start, however it ends. -/
structure Avoids (root : Root) (files : List (List String)) (start : Workspace) (x : Run α) : Prop where
  untouched : ∀ w, Untouched root files start w → Untouched root files start (exec x w).2

theorem Avoids.ends {x : Run α} {w w' : Workspace} {ending : Except Failure α}
    (hx : Avoids root files start x) (hw : Untouched root files start w) (h : exec x w = (ending, w')) :
    Untouched root files start w' := by
  have hleft := hx.untouched w hw
  rwa [h] at hleft

theorem avoids_pure (a : α) : Avoids root files start (pure a) := ⟨fun _ hw => hw⟩

theorem avoids_throw (failure : Failure) : Avoids root files start (throw failure : Run α) :=
  ⟨fun _ hw => hw⟩

theorem Avoids.bind {x : Run α} {f : α → Run β} (hx : Avoids root files start x)
    (hf : ∀ a, Avoids root files start (f a)) : Avoids root files start (x >>= f) where
  untouched w hw := by
    have hfirst := hx.untouched w hw
    rw [exec_bind]
    cases hexec : exec x w with
    | mk result w' =>
      rw [hexec] at hfirst
      cases result with
      | ok a => exact (hf a).untouched w' hfirst
      | error failure => exact hfirst

theorem avoids_note (notice : Notice) : Avoids root files start (note notice) :=
  ⟨fun _ hw => hw.notices _⟩

/-- A run that looks at the tree first finds one that is untouched. -/
theorem avoids_tree_bind {f : Tree → Run α}
    (h : ∀ w, Untouched root files start w → Avoids root files start (f w.tree)) :
    Avoids root files start (tree >>= f) where
  untouched w hw := by
    rw [exec_tree_bind]
    exact (h w hw).untouched w hw

theorem avoids_filesOf_bind {glob : String} (hplain : Glob.isPlain glob = true)
    {f : List String → Run α}
    (h : ∀ paths, (∀ path ∈ paths, ∃ names, Path.AreNames names ∧ path = Path.ofNames names ∧
      Glob.covers glob names = true) → Avoids root files start (f paths)) :
    Avoids root files start (filesOf root glob >>= f) where
  untouched w hw := by
    rw [exec_filesOf_bind]
    exact (h _ fun path => Glob.exists_names_of_mem_files? hw.wellFormed hplain).untouched w hw

theorem avoids_write (hnames : Path.AreNames names) (hother : names ∉ files)
    (hthere : names.take 3 = Project.newJobs ∨ (start.tree.file? (root.place ++ names)).isSome)
    (text : List Char) : Avoids root files start (write root (Path.ofNames names) text) :=
  ⟨fun _ hw => hw.write hnames hother hthere text⟩

/-- A change that has nothing to do in a file, if it is one of those to avoid. -/
def Spared (root : Root) (files : List (List String)) (start : Workspace)
    (change : List Char → Except Failure (List Char)) (names : List String) : Prop :=
  names ∈ files → ∀ text, start.tree.textAt root names = some text → change text = .ok text

/-- An edit avoids files if its change has nothing to do in its own one, should it be one of them. -/
theorem avoids_edit {change : List Char → Except Failure (List Char)} {path : String}
    (hnames : Path.AreNames names) (hpath : path = Path.ofNames names)
    (hspared : Spared root files start change names) : Avoids root files start (edit root change path) := by
  subst hpath
  unfold edit
  refine avoids_tree_bind fun w hw => ?_
  split
  · exact (avoids_note _).bind fun _ => avoids_pure _
  · rename_i text hread
    have hfile := Tree.isSome_file?_of_read hw.wellFormed hnames hread
    split
    · exact avoids_throw _
    · rename_i new hnew
      split
      · exact avoids_pure _
      · rename_i hchange
        have hother : names ∉ files := by
          intro hmem
          rw [Tree.read_eq_ok_iff hw.wellFormed hnames, hw.textAt hmem] at hread
          rw [hspared hmem text hread] at hnew
          cases hnew
          exact hchange (beq_self_eq_true _)
        exact (avoids_write hnames hother (hw.there hnames hfile) _).bind fun _ => avoids_pure _

theorem avoids_editAll {change : List Char → Except Failure (List Char)} {paths : List String}
    (hpaths : ∀ path ∈ paths, ∃ names, Path.AreNames names ∧ path = Path.ofNames names ∧
      Spared root files start change names) :
    Avoids root files start (editAll root change paths) := by
  induction paths with
  | nil => exact avoids_pure _
  | cons path rest ih =>
    obtain ⟨names, hnames, rfl, hspared⟩ := hpaths path (by simp)
    have hrest := ih fun path hpath => hpaths path (by simp [hpath])
    rw [editAll]
    exact (avoids_edit hnames rfl hspared).bind fun _ => hrest.bind fun _ => avoids_pure _

end Run

/-! ### Repairs -/

namespace Project

open Run (Avoids Spared avoids_pure)

variable {root : Root} {files : List (List String)} {start : Workspace} {names : List String}
  {registry : Registry} {o : Options} {findings : List Finding}

/-- What the repairs of a file make of its text. -/
def repairing (registry : Registry) (safe : Bool) (findings : List Finding) (file : String)
    (text : List Char) : Except Failure (List Char) :=
  (repaired registry safe (sourcesAt findings file) text).mapError .template

theorem avoids_repairFile (hnames : Path.AreNames names)
    (hspared : Spared root files start (repairing registry o.safeMode findings (Path.ofNames names)) names) :
    Avoids root files start (repairFile root registry o (Path.ofNames names)
      (findings.filter (·.file == Path.ofNames names))) := by
  refine ⟨fun w hw => ?_⟩
  have hne : (Path.Lexical.parse (Path.ofNames names)).names ≠ [] := by
    rw [Path.parse_ofNames hnames.ne_nil hnames.isName]
    exact hnames.ne_nil
  obtain ⟨notices, fixed, hrun⟩ := exec_repairFile registry root o findings hw.wellFormed hne
  rw [hrun]
  cases hturn : turn registry o.safeMode root findings w.tree (Path.ofNames names) with
  | error fault => simpa using hw.notices notices
  | ok result =>
    cases result with
    | none => simpa using hw.notices notices
    | some x =>
      obtain ⟨bytes, new, hlook, -⟩ := turn_eq_some hturn
      have hplace := Tree.place_of_look hw.wellFormed hnames hlook
      have hfile := Tree.file?_of_look hlook
      -- A file that is to be kept is spared by the repairs, so that its turn would not write.
      have hother : names ∉ files := by
        intro hmem
        obtain hpassed | ⟨hopen, text, place, bytes', hread, hlook', hdecode⟩ :=
          exists_text_or_error w.tree root (Path.ofNames names)
        · rw [turn_of_error hpassed] at hturn
          cases hturn
        · rw [Tree.read_eq_ok_iff hw.wellFormed hnames, hw.textAt hmem] at hread
          have hkept := hspared hmem text hread
          rw [turn_of_text hopen hlook' hdecode] at hturn
          rw [repairing] at hkept
          cases hrepaired : repaired registry o.safeMode (sourcesAt findings (Path.ofNames names)) text with
          | error fault => simp [hrepaired, Except.mapError] at hkept
          | ok new =>
            obtain rfl : new = text := by simpa [hrepaired, Except.mapError] using hkept
            simp [hrepaired, Except.map] at hturn
      have hafter := hw.after hnames hother (by rw [← hplace, hfile, Option.isSome_some]) x.bytes notices
      rw [← hplace] at hafter
      exact hafter

theorem avoids_repairFiles {paths : List String}
    (hpaths : ∀ path ∈ paths, ∃ names, Path.AreNames names ∧ path = Path.ofNames names ∧
      Spared root files start (repairing registry o.safeMode findings path) names) :
    Avoids root files start (repairFiles root registry o findings paths) := by
  induction paths with
  | nil => exact avoids_pure _
  | cons path rest ih =>
    obtain ⟨names, hnames, rfl, hspared⟩ := hpaths path (by simp)
    have hrest := ih fun path hpath => hpaths path (by simp [hpath])
    rw [repairFiles]
    exact (avoids_repairFile hnames hspared).bind fun _ => hrest.bind fun _ => avoids_pure _

end Project

/-! ### Updates of whole files -/

namespace Project

open Run (Avoids Spared avoids_pure avoids_throw avoids_note avoids_tree_bind avoids_filesOf_bind avoids_write
  avoids_edit avoids_editAll)

variable {root : Root} {files : List (List String)} {start : Workspace} {target : String} {o : Options}
  {r : Relocation}

theorem areNames_gemfile : Path.AreNames ["Gemfile"] := ⟨by decide, by decide⟩

theorem avoids_updateGemfile
    (hspared : Spared root files start (fun text => (Gemfile.update target text).mapError .overlong)
      ["Gemfile"]) : Avoids root files start (updateGemfile root target) := by
  unfold updateGemfile
  refine avoids_tree_bind fun _ _ => ?_
  split
  · exact (avoids_note _).bind fun _ => avoids_pure _
  · refine (avoids_edit areNames_gemfile (by decide) hspared).bind fun changed => ?_
    split
    · exact (avoids_note _).bind fun _ => avoids_pure _
    · exact avoids_pure _

/-- What an edit of a configuration file has to leave alone for a target. -/
def SparedConfig (root : Root) (files : List (List String)) (start : Workspace) (target : String)
    (e : FrameworkConfig.Edit) : Prop :=
  ∀ v, Version.parse target = .ok v → Version.atLeast (some target) e.since = true →
    Spared root files start (fun text => .ok (e.apply v text)) (Path.namesOf e.path)

theorem avoids_updateConfigsWith {edits : List FrameworkConfig.Edit}
    (hedits : edits ⊆ FrameworkConfig.edits)
    (hspared : ∀ e ∈ FrameworkConfig.edits, SparedConfig root files start target e) :
    Avoids root files start (updateConfigsWith root target edits) := by
  induction edits with
  | nil => exact avoids_pure _
  | cons e rest ih =>
    obtain ⟨he, hrest⟩ := List.cons_subset.mp hedits
    obtain ⟨hnames, hpath⟩ := areNames_config he
    -- Each way out of an edit either writes nothing or goes through the file that is spared.
    have hedit : Avoids root files start (updateConfig root target e) := by
      unfold updateConfig
      refine avoids_tree_bind fun _ _ => ?_
      split
      · exact avoids_pure _
      · split
        · exact avoids_pure _
        · exact avoids_throw _
        · rename_i v hv
          split
          · exact avoids_pure _
          · rename_i hsince
            rw [Bool.not_eq_true', Bool.not_eq_false] at hsince
            refine (avoids_edit hnames hpath (hspared e he v hv hsince)).bind fun changed => ?_
            split
            · exact (avoids_note _).bind fun _ => avoids_pure _
            · exact avoids_pure _
    rw [updateConfigsWith]
    exact hedit.bind fun _ => (ih hrest).bind fun _ => avoids_pure _

/-- Migrations are updated without a touch of files that are none. -/
theorem avoids_updateMigrations (hother : ∀ names ∈ files, Glob.covers migrations names = false) :
    Avoids root files start (updateMigrations root target) := by
  -- The glob covers none of the files, so that every edit goes to some other one.
  have hwith : ∀ version paths, (∀ path ∈ paths, ∃ names, Path.AreNames names ∧
      path = Path.ofNames names ∧ Glob.covers migrations names = true) →
      Avoids root files start (updateMigrationsWith root version paths) := by
    intro version paths hpaths
    induction paths with
    | nil => exact avoids_pure _
    | cons path rest ih =>
      obtain ⟨names, hnames, rfl, hcovers⟩ := hpaths path (by simp)
      have hrest := ih fun path hpath => hpaths path (by simp [hpath])
      rw [updateMigrationsWith]
      refine (avoids_edit hnames rfl fun hmem => ?_).bind fun changed => ?_
      · rw [hother names hmem] at hcovers
        cases hcovers
      · split
        · exact (avoids_note _).bind fun _ => hrest.bind fun _ => avoids_pure _
        · exact hrest
  have hplain : Glob.isPlain migrations = true := by decide
  unfold updateMigrations
  split
  · exact avoids_pure _
  · exact avoids_throw _
  · split
    · exact avoids_pure _
    · refine avoids_filesOf_bind hplain fun paths hpaths => (hwith _ paths hpaths).bind fun _ => ?_
      split
      · exact (avoids_note _).bind fun _ => avoids_pure _
      · exact avoids_pure _

theorem avoids_renamedApi
    (hother : ∀ names ∈ files, ∀ glob ∈ apiFiles, Glob.covers glob names = false) :
    Avoids root files start (renamedApi root o) := by
  have hwith : ∀ changed globs, globs ⊆ apiFiles →
      Avoids root files start (renameApiWith root changed globs) := by
    intro changed globs hglobs
    induction globs generalizing changed with
    | nil => exact avoids_pure _
    | cons glob rest ih =>
      obtain ⟨hglob, hrest⟩ := List.cons_subset.mp hglobs
      refine avoids_filesOf_bind (isPlain_apiFiles glob hglob) fun paths hpaths =>
        (avoids_editAll fun path hpath => ?_).bind fun _ => ih _ hrest
      obtain ⟨names, hnames, rfl, hcovers⟩ := hpaths path (List.mem_of_mem_filter hpath)
      refine ⟨names, hnames, rfl, fun hmem => ?_⟩
      rw [hother names hmem glob hglob] at hcovers
      cases hcovers
  unfold renamedApi onlyIf
  split
  · unfold renameApi
    refine (hwith [] apiFiles (List.Subset.refl _)).bind fun changed => ?_
    split
    · exact (avoids_note _).bind fun _ => avoids_pure _
    · exact avoids_pure _
  · exact avoids_pure _

/-- A move of a class writes its two files, neither of which is to be avoided, and redirects references. -/
theorem avoids_relocate (hr : Asked o r)
    (hother : ∀ names ∈ files, names.take 2 ≠ ["app", "jobs"])
    (hspared : ∀ names, Glob.covers rubyFiles names = true →
      Spared root files start (redirection r) names) :
    Avoids root files start (relocate root r) := by
  obtain ⟨source, target, hnamed, hplace, htarget⟩ := hr.exists_places
  -- The source lies among the jobs, and so does the target, which is none of the files either.
  have hnames : Path.AreNames source := ⟨hnamed.source_ne, hnamed.source_names⟩
  have hsourceOther : source ∉ files := by
    obtain ⟨rest, hjobs, hsource⟩ := hr.source_jobs
    rw [hnamed.source_eq] at hsource
    rw [Path.ofNames_inj hnames.ne_nil hjobs.ne_nil hnames.isName hjobs.isName hsource]
    exact fun hmem => hother _ hmem rfl
  have htargetOther : target ∉ files := by
    intro hmem
    refine hother target hmem ?_
    have htake := congrArg (List.take 2) htarget
    rwa [List.take_take] at htake
  unfold relocate
  refine avoids_tree_bind fun w hw => ?_
  split
  · exact (avoids_note _).bind fun _ => avoids_pure _
  · rename_i text hread
    rw [hnamed.source_eq] at hread
    have hthere := hw.there hnames (Tree.isSome_file?_of_read hw.wellFormed hnames hread)
    split
    · exact (avoids_note _).bind fun _ => avoids_pure _
    · split
      · exact (avoids_note _).bind fun _ => avoids_pure _
      · rename_i c _
        have hwrite : Avoids root files start (writeTarget root r c) := by
          unfold writeTarget
          refine avoids_tree_bind fun _ _ => ?_
          split
          · exact (avoids_note _).bind fun _ => avoids_pure _
          · rw [hnamed.target_eq]
            exact (avoids_write ⟨hnamed.target_ne, hnamed.target_names⟩ htargetOther (.inl htarget)
              _).bind fun _ => avoids_pure _
        have hredirect : Avoids root files start (updateReferences root r) := by
          unfold updateReferences
          refine avoids_filesOf_bind isPlain_rubyFiles fun paths hpaths => avoids_editAll fun path hpath => ?_
          obtain ⟨names, hnames, rfl, hcovers⟩ := hpaths path (List.mem_of_mem_filter hpath)
          exact ⟨names, hnames, rfl, hspared names hcovers⟩
        refine hwrite.bind fun _ => hredirect.bind fun _ => ?_
        rw [hnamed.source_eq]
        exact (avoids_write hnames hsourceOther hthere _).bind fun _ =>
          (avoids_note _).bind fun _ => avoids_pure _

theorem avoids_relocateAll {plan : List Relocation} (hplan : ∀ r ∈ plan, Asked o r)
    (hother : ∀ names ∈ files, names.take 2 ≠ ["app", "jobs"])
    (hspared : ∀ r ∈ plan, ∀ names, Glob.covers rubyFiles names = true →
      Spared root files start (redirection r) names) :
    Avoids root files start (relocateAll root plan) := by
  induction plan with
  | nil => exact avoids_pure _
  | cons r rest ih =>
    have hmove := avoids_relocate (hplan r (by simp)) hother (hspared r (by simp))
    have hrest := ih (fun r hr => hplan r (by simp [hr])) fun r hr => hspared r (by simp [hr])
    rw [relocateAll]
    exact hmove.bind fun _ => hrest.bind fun _ => avoids_pure _

/-- An update of namespaces avoids files that are neither jobs nor of the API, and that refer to no
class that is planned to move. -/
theorem avoids_updateNamespaces (ht : start.tree.WellFormed)
    (hapi : ∀ names ∈ files, ∀ glob ∈ apiFiles, Glob.covers glob names = false)
    (hother : ∀ names ∈ files, names.take 2 ≠ ["app", "jobs"])
    (hspared : ∀ r ∈ askedPlan o start.tree root, ∀ names, Glob.covers rubyFiles names = true →
      Spared root files start (redirection r) names) :
    Avoids root files start (updateNamespaces root o) := by
  refine ⟨fun w hw => ?_⟩
  rw [exec_updateNamespaces hw.wellFormed, ← askedPlan_congr o ht hw.wellFormed hw.jobs]
  refine Avoids.untouched ?_ w hw
  refine (avoids_renamedApi hapi).bind fun _ => ?_
  exact (avoids_relocateAll (fun r => asked_of_mem_askedPlan ht) hother hspared).bind fun _ => avoids_pure _

/-! ### The whole run -/

/-- What an upgrade does once the Gemfile and the configuration files have been updated. -/
def afterConfigs (root : Root) (o : Options) (target : String) (changed : List String) :
    Run (List String) := do
  let migrations ← onlyIf o.updateMigrations (updateMigrations root target)
  let named ← updateNamespaces root o
  return distinct (changed ++ migrations ++ named)

/-- What an upgrade does once the Gemfile has been updated. -/
def afterGemfile (root : Root) (o : Options) (target : String) (gems : List String) : Run (List String) := do
  let configs ← onlyIf o.updateConfigs (updateConfigs root target)
  afterConfigs root o target (gems ++ configs)

theorem updateFiles_eq_afterGemfile (htarget : o.target = some target) : updateFiles root o = (do
    let gems ← onlyIf o.updateGems (updateGemfile root target)
    afterGemfile root o target gems) := by
  simp only [updateFiles_eq, released, htarget, afterGemfile, afterConfigs, bind_assoc, pure_bind]

theorem avoids_onlyIf {wanted : Bool} {x : Run (List String)} (h : Avoids root files start x) :
    Avoids root files start (onlyIf wanted x) := by
  unfold onlyIf
  split
  · exact h
  · exact avoids_pure _

/-- The files that are brought up to a release: the Gemfile and the configuration files. -/
def releaseFiles : List (List String) := ["Gemfile"] :: FrameworkConfig.edits.map fun e => Path.namesOf e.path

/-- None of them is a migration, a file of the API or a job. -/
theorem apart_releaseFiles : ∀ names ∈ releaseFiles, Glob.covers migrations names = false ∧
    (∀ glob ∈ apiFiles, Glob.covers glob names = false) ∧ names.take 2 ≠ ["app", "jobs"] := by
  decide +kernel

section
variable (ht : start.tree.WellFormed) (hfiles : files ⊆ releaseFiles)
  (hmoves : ∀ r ∈ askedPlan o start.tree root, ∀ names, Glob.covers rubyFiles names = true →
    Spared root files start (redirection r) names)
include ht hfiles hmoves

/-- So the last updates avoid such files if they refer to no class that is planned to move. -/
theorem avoids_afterConfigs (changed : List String) :
    Avoids root files start (afterConfigs root o target changed) := by
  have hapart := fun names hnames => apart_releaseFiles names (hfiles hnames)
  unfold afterConfigs
  refine (avoids_onlyIf ?_).bind fun _ => ?_
  · exact avoids_updateMigrations fun names hnames => (hapart names hnames).1
  · exact (avoids_updateNamespaces ht (fun names hnames => (hapart names hnames).2.1)
      (fun names hnames => (hapart names hnames).2.2) hmoves).bind fun _ => avoids_pure _

/-- The updates behind that of the Gemfile avoid them if they have nothing to do in them. -/
theorem avoids_afterGemfile
    (hconfigs : ∀ e ∈ FrameworkConfig.edits, SparedConfig root files start target e)
    (gems : List String) : Avoids root files start (afterGemfile root o target gems) := by
  unfold afterGemfile
  refine (avoids_onlyIf ?_).bind fun _ => avoids_afterConfigs ht hfiles hmoves _
  exact avoids_updateConfigsWith (List.Subset.refl _) hconfigs

end

end Project

end RailsUpgrade
