import RailsUpgrade.Proofs.Built
import RailsUpgrade.Proofs.Relocate
import RailsUpgrade.Proofs.Turns

/-!
# `RailsUpgrade.Proofs.Footprint`: the files that a run touches, however it ends

`Run.Triple` is a small logic of runs: what holds before a run, what holds with its result, and what
holds if it fails. `Told` is the assertion that all the proofs here are about. It compares a tree with
the one at the start of a run: every file that differs is at names that the run may reach, and its
path is among those that were told.

* `Run.Triple.bind`: one run after the other;
* `Run.tells_write`, `Run.tells_edit`, `Run.tells_editAll`: the ways in which files are written;
* `Project.tells_repairFiles`, `Project.tells_relocate`, `Project.tells_updateFiles` and so on: the
  parts of an upgrade;
* `Project.Touches` lists the names that an upgrade may reach, one case for every place in it that
  writes files;
* `Project.told_upgrade`: no other file changes, and if the upgrade ends with an outcome, this
  outcome names every file that has changed.
-/

set_option autoImplicit false

namespace RailsUpgrade

/-! ### A logic of runs -/

namespace Run

variable {α β : Type} {pre : Workspace → Prop} {post : α → Workspace → Prop}
  {fail : Failure → Workspace → Prop}

/-- Where `pre` holds, a run that gives a result leaves `post`, and a run that fails leaves `fail`. -/
def Triple (pre : Workspace → Prop) (x : Run α) (post : α → Workspace → Prop)
    (fail : Failure → Workspace → Prop) : Prop :=
  ∀ w, pre w → match exec x w with
    | (.ok a, w') => post a w'
    | (.error failure, w') => fail failure w'

namespace Triple

theorem pure {a : α} (h : ∀ w, pre w → post a w) : Triple pre (pure a) post fail := h

theorem throw {failure : Failure} (h : ∀ w, pre w → fail failure w) :
    Triple pre (throw failure : Run α) post fail :=
  h

/-- One run after the other. What the first one leaves is what the second one starts from. -/
theorem bind {x : Run α} {f : α → Run β} {post' : β → Workspace → Prop}
    (hx : Triple pre x post fail) (hf : ∀ a, Triple (post a) (f a) post' fail) :
    Triple pre (x >>= f) post' fail := by
  intro w hw
  have hfirst := hx w hw
  rw [exec_bind]
  cases hexec : exec x w with
  | mk result w₁ =>
    rw [hexec] at hfirst
    cases result with
    | ok a => exact hf a w₁ hfirst
    | error failure => exact hfirst

end Triple

end Run

/-! ### Told changes -/

/-- How a tree differs from the one at the start of a run: it is well formed, no file has gone
missing, and every file that differs is at names that the run may reach, with a path that was told.
A run may reach other names where there was a file at the start than where there was none. -/
structure Told (root : Root) (reach : Bool → List String → Prop) (start : Tree)
    (told : List String) (t : Tree) : Prop where
  wellFormed : t.WellFormed
  kept : ∀ q, (start.file? q).isSome → (t.file? q).isSome
  files : ∀ q, t.file? q ≠ start.file? q → ∃ names, Path.AreNames names ∧
    q = root.place ++ names ∧ reach (start.file? q).isSome names ∧ Path.ofNames names ∈ told

namespace Told

variable {root : Root} {reach : Bool → List String → Prop} {start t t' : Tree}
  {told told' names : List String}

theorem refl (ht : t.WellFormed) : Told root reach t [] t := ⟨ht, fun _ h => h, fun _ h => absurd rfl h⟩

theorem mono (h : Told root reach start told t) (hsub : told ⊆ told') :
    Told root reach start told' t := by
  refine ⟨h.wellFormed, h.kept, fun q hq => ?_⟩
  obtain ⟨names, hnames, rfl, hreach, hmem⟩ := h.files q hq
  exact ⟨names, hnames, rfl, hreach, hsub hmem⟩

theorem imp {reach' : Bool → List String → Prop} (h : Told root reach start told t)
    (himp : ∀ there names, reach there names → reach' there names) :
    Told root reach' start told t := by
  refine ⟨h.wellFormed, h.kept, fun q hq => ?_⟩
  obtain ⟨names, hnames, rfl, hreach, hmem⟩ := h.files q hq
  exact ⟨names, hnames, rfl, himp _ names hreach, hmem⟩

/-- Where there is a file, it was there at the start, or the run may reach names where there was
none. -/
theorem reach_of_file (h : Told root reach start told t)
    (hfile : (t.file? (root.place ++ names)).isSome) (hreach : reach true names) :
    reach (start.file? (root.place ++ names)).isSome names := by
  cases hstart : start.file? (root.place ++ names) with
  | some bytes => exact hreach
  | none =>
    have hnew : t.file? (root.place ++ names) ≠ start.file? (root.place ++ names) := by
      rw [hstart]
      exact Option.isSome_iff_ne_none.mp hfile
    obtain ⟨others, -, hplace, hothers, -⟩ := h.files _ hnew
    rwa [← List.append_cancel_left hplace, hstart] at hothers

/-- A write at names that may be reached, and are told. -/
theorem write (h : Told root reach start told t) {text : List Char} {place : Place}
    (hnames : Path.AreNames names) (hreach : reach (start.file? (root.place ++ names)).isSome names)
    (hwrite : t.write root (Path.ofNames names) text = .ok (t', place)) :
    Told root reach start (told ++ [Path.ofNames names]) t' := by
  obtain ⟨ht', hfiles⟩ := Tree.write_eq_ok h.wellFormed hnames.ne_nil hnames.isName hwrite
  refine ⟨ht', fun q hq => ?_, fun q hq => ?_⟩
  · rw [hfiles]
    split
    · rfl
    · exact h.kept q hq
  · rw [hfiles] at hq
    split at hq
    · rename_i hplace
      exact ⟨names, hnames, hplace, hplace ▸ hreach, by simp⟩
    · exact (h.mono (List.subset_append_left _ _)).files q hq

end Told

namespace Run

variable {α : Type} {root : Root} {reach : Bool → List String → Prop} {start : Tree}
  {told names : List String}

/-- A run that fails leaves changes that are told as far as they go. -/
def Broken (root : Root) (reach : Bool → List String → Prop) (start : Tree) (_ : Failure)
    (w : Workspace) : Prop :=
  ∃ told, Told root reach start told w.tree

/-- What a run adds to the paths that are told. -/
def Tells (root : Root) (reach : Bool → List String → Prop) (start : Tree) (x : Run α)
    (paths : α → List String) : Prop :=
  ∀ told, Triple (fun w => Told root reach start told w.tree) x
    (fun a w => Told root reach start (told ++ paths a) w.tree) (Broken root reach start)

variable {paths : α → List String}

theorem tells_nil {a : α} (h : paths a = []) : Tells root reach start (pure a) paths := by
  intro told
  apply Triple.pure
  intro w hw
  rwa [h, List.append_nil]

theorem tells_throw (failure : Failure) : Tells root reach start (throw failure : Run α) paths :=
  fun told => Triple.throw fun _ hw => ⟨told, hw⟩

/-- A run that looks at the tree first finds one whose changes are told. -/
theorem tells_tree_bind {f : Tree → Run α}
    (h : ∀ told t, Told root reach start told t → Tells root reach start (f t) paths) :
    Tells root reach start (tree >>= f) paths := by
  intro told w hw
  rw [exec_tree_bind]
  exact h told w.tree hw told w hw

/-- A notice changes no file. -/
theorem told_note_bind {notice : Notice} {f : Unit → Run α} {post : α → Workspace → Prop}
    {fail : Failure → Workspace → Prop}
    (h : Triple (fun w => Told root reach start told w.tree) (f ()) post fail) :
    Triple (fun w => Told root reach start told w.tree) (note notice >>= f) post fail := by
  intro w hw
  rw [exec_note_bind]
  exact h _ hw

theorem tells_note_bind {notice : Notice} {f : Unit → Run α}
    (h : Tells root reach start (f ()) paths) :
    Tells root reach start (note notice >>= f) paths :=
  fun told => told_note_bind (h told)

/-- A run that lists the files of a glob first finds names that the glob covers. -/
theorem tells_filesOf_bind {glob : String} (hplain : Glob.isPlain glob = true)
    {f : List String → Run α}
    (h : ∀ files, (∀ path ∈ files, ∃ names, Path.AreNames names ∧ path = Path.ofNames names ∧
      Glob.covers glob names = true) → Tells root reach start (f files) paths) :
    Tells root reach start (filesOf root glob >>= f) paths := by
  have hlisted : filesOf root glob >>= f =
      tree >>= fun t => f ((Glob.files? t root glob).getD []) := rfl
  rw [hlisted]
  exact tells_tree_bind fun _ t ht =>
    h _ fun path => Glob.exists_names_of_mem_files? ht.wellFormed hplain

theorem tells_write (hnames : Path.AreNames names)
    (hreach : reach (start.file? (root.place ++ names)).isSome names) (text : List Char) :
    Tells root reach start (write root (Path.ofNames names) text)
      fun _ => [Path.ofNames names] := by
  intro told w hw
  cases hwrite : w.tree.write root (Path.ofNames names) text with
  | error fault =>
    rw [write, exec_tree_bind, hwrite]
    exact ⟨told, hw⟩
  | ok result =>
    rw [exec_write_ok hwrite]
    exact hw.write hnames hreach hwrite

/-- An edit tells the file if it has changed it. It makes no file, so it is enough that it may reach
files that were there at the start. -/
theorem tells_edit {path : String} (hnames : Path.AreNames names)
    (hpath : path = Path.ofNames names) (hreach : reach true names)
    (change : List Char → Except Failure (List Char)) :
    Tells root reach start (edit root change path) fun changed => if changed then [path] else [] := by
  subst hpath
  unfold edit
  refine tells_tree_bind fun told t ht => ?_
  split
  · exact tells_note_bind (tells_nil rfl)
  · rename_i text hread
    have hfile := Tree.isSome_file?_of_read ht.wellFormed hnames hread
    split
    · exact tells_throw _
    · split
      · exact tells_nil rfl
      · intro told'
        refine Triple.bind (tells_write hnames (ht.reach_of_file hfile hreach) _ told') fun _ => ?_
        exact Triple.pure fun _ hw => hw

/-- Edits tell the files that they have changed. -/
theorem tells_editAll (change : List Char → Except Failure (List Char)) {paths : List String}
    (hpaths : ∀ path ∈ paths, ∃ names, Path.AreNames names ∧ path = Path.ofNames names ∧
      reach true names) :
    Tells root reach start (editAll root change paths) id := by
  induction paths with
  | nil => exact tells_nil rfl
  | cons path rest ih =>
    -- What is told so far goes on to the rest, with the file in front if it was edited.
    intro told
    obtain ⟨names, hnames, rfl, hreach⟩ := hpaths path (by simp)
    have hrest := ih fun path hpath => hpaths path (by simp [hpath])
    rw [editAll]
    refine Triple.bind (tells_edit hnames rfl hreach change told) fun changed => ?_
    refine Triple.bind (hrest _) fun more => Triple.pure fun w hw => ?_
    cases changed with
    | false => simpa using hw
    | true => simpa using hw

end Run

/-! ### The parts of an upgrade -/

namespace Project

open Run (Triple Tells told_note_bind tells_nil tells_throw tells_tree_bind tells_note_bind tells_filesOf_bind
  tells_write tells_edit tells_editAll)

variable {root : Root} {reach : Bool → List String → Prop} {start : Tree} {registry : Registry}
  {o : Options} {findings : List Finding}

/-- The turn of a file tells the file if something was fixed in it. -/
theorem tells_repairFile {names : List String} (hnames : Path.AreNames names)
    (hreach : Path.isProtected (Path.ofNames names) = false → reach true names) :
    Tells root reach start (repairFile root registry o (Path.ofNames names)
      (findings.filter (·.file == Path.ofNames names)))
      fun fixed => if fixed.isEmpty then [] else [Path.ofNames names] := by
  intro told w hw
  have hpassed : (Path.isProtected (Path.ofNames names) = true ∨
      ∃ fault, w.tree.read root (Path.ofNames names) = .error fault) →
      ∃ notices, Run.exec (repairFile root registry o (Path.ofNames names)
        (findings.filter (·.file == Path.ofNames names))) w = (.ok [], { w with notices }) :=
    exec_repairFile_of_error registry root o _
  cases hprotected : Path.isProtected (Path.ofNames names) with
  | true =>
    obtain ⟨notices, hrun⟩ := hpassed (.inl hprotected)
    rw [hrun]
    simpa using hw
  | false =>
    cases hread : w.tree.read root (Path.ofNames names) with
    | error fault =>
      obtain ⟨notices, hrun⟩ := hpassed (.inr ⟨fault, hread⟩)
      rw [hrun]
      simpa using hw
    | ok text =>
      obtain ⟨notices, hrun⟩ := exec_repairFile_of_read registry root o findings hprotected hread
      rw [hrun, repairResult]
      cases hrepaired : repaired registry o.safeMode
          (sourcesAt findings (Path.ofNames names)) text with
      | error e => exact ⟨told, hw⟩
      | ok new =>
        by_cases hsame : new = text
        · simpa [hsame] using hw
        · simp only [if_neg hsame]
          -- A text that has changed was changed by some source.
          have hfixed : (fixedSources registry o.safeMode (sourcesAt findings (Path.ofNames names))
              text).isEmpty = false := by
            rw [List.isEmpty_eq_false_iff]
            exact fun hnone => hsame (eq_of_fixedSources_eq_nil hrepaired hnone)
          have hfile := Tree.isSome_file?_of_read hw.wellFormed hnames hread
          refine Triple.bind (tells_write hnames (hw.reach_of_file hfile (hreach hprotected)) new told)
            (fun _ => Triple.pure fun w' hw' => ?_) { w with notices } hw
          rwa [hfixed]

/-- The turns of files tell those that something was fixed in. -/
theorem tells_repairFiles {files : List String}
    (hfiles : ∀ file ∈ files, ∃ names, Path.AreNames names ∧ file = Path.ofNames names ∧
      (Path.isProtected file = false → reach true names)) :
    Tells root reach start (repairFiles root registry o findings files) fun fixes => fixes.map (·.1) := by
  induction files with
  | nil => exact tells_nil rfl
  | cons file files ih =>
    intro told
    obtain ⟨names, hnames, rfl, hreach⟩ := hfiles file (by simp)
    have hrest := ih fun file hfile => hfiles file (by simp [hfile])
    rw [repairFiles]
    refine Triple.bind (tells_repairFile hnames hreach told) fun fixed => ?_
    refine Triple.bind (hrest _) fun more => Triple.pure fun w hw => ?_
    cases fixed with
    | nil => simpa using hw
    | cons source sources => simpa using hw

theorem tells_updateGemfile (target : String) (hreach : reach true ["Gemfile"]) :
    Tells root reach start (updateGemfile root target) id := by
  have hnames : Path.AreNames ["Gemfile"] := ⟨by decide, by decide⟩
  unfold updateGemfile
  refine tells_tree_bind fun _ _ _ => ?_
  split
  · exact tells_note_bind (tells_nil rfl)
  · intro told
    refine Triple.bind (tells_edit hnames (by decide) hreach _ told) fun changed => ?_
    cases changed with
    | true => exact told_note_bind (Triple.pure fun _ hw => hw)
    | false => exact Triple.pure fun _ hw => hw

/-- The names of a configuration file that an edit is for. -/
theorem areNames_config {e : FrameworkConfig.Edit} (he : e ∈ FrameworkConfig.edits) :
    Path.AreNames (Path.namesOf e.path) ∧ e.path = Path.ofNames (Path.namesOf e.path) := by
  simp only [FrameworkConfig.edits, List.mem_cons, List.not_mem_nil, or_false] at he
  obtain rfl | rfl | rfl | rfl := he
  · exact ⟨⟨by decide, by decide⟩, by decide⟩
  · exact ⟨⟨by decide, by decide⟩, by decide⟩
  · exact ⟨⟨by decide, by decide⟩, by decide⟩
  · exact ⟨⟨by decide, by decide⟩, by decide⟩

theorem tells_updateConfig (target : String) {e : FrameworkConfig.Edit}
    (he : e ∈ FrameworkConfig.edits) (hreach : reach true (Path.namesOf e.path)) :
    Tells root reach start (updateConfig root target e) fun changed =>
      if changed then [e.path] else [] := by
  obtain ⟨hnames, hpath⟩ := areNames_config he
  unfold updateConfig
  refine tells_tree_bind fun _ _ _ => ?_
  split
  · exact tells_nil rfl
  · split
    · exact tells_nil rfl
    · exact tells_throw _
    · split
      · exact tells_nil rfl
      · intro told
        refine Triple.bind (tells_edit hnames hpath hreach _ told) fun changed => ?_
        cases changed with
        | true => exact told_note_bind (Triple.pure fun _ hw => hw)
        | false => exact Triple.pure fun _ hw => hw

theorem tells_updateConfigsWith (target : String) {edits : List FrameworkConfig.Edit}
    (hedits : edits ⊆ FrameworkConfig.edits)
    (hreach : ∀ e ∈ FrameworkConfig.edits, reach true (Path.namesOf e.path)) :
    Tells root reach start (updateConfigsWith root target edits) id := by
  induction edits with
  | nil => exact tells_nil rfl
  | cons e rest ih =>
    intro told
    obtain ⟨he, hrest⟩ := List.cons_subset.mp hedits
    rw [updateConfigsWith]
    refine Triple.bind (tells_updateConfig target he (hreach e he) told) fun changed => ?_
    refine Triple.bind (ih hrest _) fun more => Triple.pure fun w hw => ?_
    cases changed with
    | false => simpa using hw
    | true => simpa using hw

theorem tells_updateMigrationsWith (version : Version) {paths : List String}
    (hpaths : ∀ path ∈ paths, ∃ names, Path.AreNames names ∧ path = Path.ofNames names ∧
      reach true names) :
    Tells root reach start (updateMigrationsWith root version paths) id := by
  induction paths with
  | nil => exact tells_nil rfl
  | cons path rest ih =>
    intro told
    obtain ⟨names, hnames, rfl, hreach⟩ := hpaths path (by simp)
    have hrest := ih fun path hpath => hpaths path (by simp [hpath])
    rw [updateMigrationsWith]
    refine Triple.bind (tells_edit hnames rfl hreach _ told) fun changed => ?_
    cases changed with
    | true =>
      refine told_note_bind (Triple.bind (hrest _) fun more => Triple.pure fun w hw => ?_)
      simpa using hw
    | false => simpa using hrest told

theorem tells_updateMigrations (target : String)
    (hreach : ∀ names, Path.AreNames names → Glob.covers migrations names = true → reach true names) :
    Tells root reach start (updateMigrations root target) id := by
  have hplain : Glob.isPlain migrations = true := by decide
  unfold updateMigrations
  split
  · exact tells_nil rfl
  · exact tells_throw _
  · split
    · exact tells_nil rfl
    · refine tells_filesOf_bind hplain fun files hfiles told => ?_
      refine Triple.bind (tells_updateMigrationsWith _ ?_ told) fun changed => ?_
      · intro path hpath
        obtain ⟨names, hnames, rfl, hcovers⟩ := hfiles path hpath
        exact ⟨names, hnames, rfl, hreach names hnames hcovers⟩
      · split
        · exact told_note_bind (Triple.pure fun _ hw => hw)
        · exact Triple.pure fun _ hw => hw

variable (root start) in
/-- The new name of the module, glob after glob. The paths that a glob has changed are told together
with those of the globs before it. -/
theorem told_renameApiWith (told changed : List String) {globs : List String}
    (hglobs : globs ⊆ apiFiles)
    (hreach : ∀ glob ∈ apiFiles, ∀ names, Path.AreNames names →
      Glob.covers glob names = true → reach true names) :
    Triple (fun w => Told root reach start (told ++ changed) w.tree)
      (renameApiWith root changed globs)
      (fun all w => Told root reach start (told ++ all) w.tree)
      (Run.Broken root reach start) := by
  induction globs generalizing changed with
  | nil => exact Triple.pure fun _ hw => hw
  | cons glob rest ih =>
    obtain ⟨hglob, hrest⟩ := List.cons_subset.mp hglobs
    -- One glob: its files are listed, and those that were not changed before are edited.
    have hstep : Tells root reach start (do
        let files ← Run.filesOf root glob
        Run.editAll root (fun text => .ok (renameApiIn text))
          (files.filter fun path => !changed.contains path)) id := by
      refine tells_filesOf_bind (isPlain_apiFiles glob hglob) fun files hfiles => tells_editAll _ ?_
      intro path hpath
      obtain ⟨names, hnames, rfl, hcovers⟩ := hfiles path (List.mem_of_mem_filter hpath)
      exact ⟨names, hnames, rfl, hreach glob hglob names hnames hcovers⟩
    have hbind : renameApiWith root changed (glob :: rest) = (do
        let files ← Run.filesOf root glob
        Run.editAll root (fun text => .ok (renameApiIn text))
          (files.filter fun path => !changed.contains path)) >>= fun more =>
            renameApiWith root (changed ++ more) rest := by
      rw [renameApiWith]
      simp only [bind_assoc]
    rw [hbind]
    refine Triple.bind (hstep (told ++ changed)) fun more => ?_
    rw [List.append_assoc]
    exact ih (changed ++ more) hrest

theorem tells_renameApi
    (hreach : ∀ glob ∈ apiFiles, ∀ names, Path.AreNames names →
      Glob.covers glob names = true → reach true names) :
    Tells root reach start (renameApi root) id := by
  intro told
  have hall := told_renameApiWith root start told [] (List.Subset.refl _) hreach
  rw [List.append_nil] at hall
  unfold renameApi
  refine Triple.bind hall fun changed => ?_
  split
  · exact told_note_bind (Triple.pure fun _ hw => hw)
  · exact Triple.pure fun _ hw => hw

theorem tells_updateReferences (r : Relocation)
    (hreach : ∀ names, Path.AreNames names → Glob.covers rubyFiles names = true →
      Path.isProtected (Path.ofNames names) = false → reach true names) :
    Tells root reach start (updateReferences root r) id := by
  unfold updateReferences
  refine tells_filesOf_bind isPlain_rubyFiles fun files hfiles => tells_editAll _ ?_
  intro path hpath
  obtain ⟨hlisted, hother⟩ := List.mem_filter.mp hpath
  obtain ⟨names, hnames, rfl, hcovers⟩ := hfiles path hlisted
  simp only [Bool.and_eq_true, Bool.not_eq_true'] at hother
  exact ⟨names, hnames, rfl, hreach names hnames hcovers hother.2⟩

variable {r : Relocation} {source target : List String}

/-- A class gets a new file only if there was none at the start: no file goes missing on the way. -/
theorem tells_writeTarget (hnamed : r.Named source target) (hreach : reach false target)
    (c : ClassText) : Tells root reach start (writeTarget root r c) id := by
  unfold writeTarget
  refine tells_tree_bind fun _ t ht => ?_
  split
  · exact tells_note_bind (tells_nil rfl)
  · rename_i hfree
    have hnew : start.file? (root.place ++ target) = none := by
      rw [← Option.not_isSome_iff_eq_none]
      intro hold
      obtain ⟨bytes, hbytes⟩ := Option.isSome_iff_exists.mp (ht.kept _ hold)
      rw [hnamed.target_eq, Tree.existsAt, Tree.look_of_file? ht.wellFormed hnamed.target_ne hbytes]
        at hfree
      exact hfree rfl
    intro told
    rw [hnamed.target_eq]
    refine Triple.bind (tells_write ⟨hnamed.target_ne, hnamed.target_names⟩ ?_ _ told)
      fun _ => Triple.pure fun _ hw => hw
    rwa [hnew]

/-- A move tells its new file, the files that refer to the class, and its old file. -/
theorem tells_relocate (hnamed : r.Named source target) (hsource : reach true source)
    (htarget : reach (start.file? (root.place ++ source)).isSome source → reach false target)
    (hreferences : ∀ names, Path.AreNames names → Glob.covers rubyFiles names = true →
      Path.isProtected (Path.ofNames names) = false → reach true names) :
    Tells root reach start (relocate root r) id := by
  have hnames : Path.AreNames source := ⟨hnamed.source_ne, hnamed.source_names⟩
  unfold relocate
  refine tells_tree_bind fun _ t ht => ?_
  split
  · exact tells_note_bind (tells_nil rfl)
  · rename_i text hread
    rw [hnamed.source_eq] at hread
    have hheld := ht.reach_of_file (Tree.isSome_file?_of_read ht.wellFormed hnames hread) hsource
    split
    · exact tells_note_bind (tells_nil rfl)
    · split
      · exact tells_note_bind (tells_nil rfl)
      · rename_i c _
        intro told
        refine Triple.bind (tells_writeTarget hnamed (htarget hheld) c told) fun written => ?_
        refine Triple.bind (tells_updateReferences r hreferences _) fun redirected => ?_
        rw [hnamed.source_eq]
        refine Triple.bind (tells_write hnames hheld _ _)
          fun _ => told_note_bind (Triple.pure fun w hw => ?_)
        simpa using hw

/-! ### All that an upgrade may reach -/

/-- The moves that options ask for, of files that the plans can find. -/
inductive Asked (o : Options) : Relocation → Prop
  | stock (names : List String) (wanted : (o.updateJobNamespaces || o.updateStockJobs) = true)
      (isNames : Path.AreNames names) (covers : Glob.covers stockJobs names = true) :
      Asked o (stockRelocation (Path.ofNames names))
  | order (kind : String) (names : List String)
      (wanted : (o.updateJobNamespaces || o.updateOrderJobs) = true) (isKind : kind ∈ orderKinds)
      (isNames : Path.AreNames names)
      (covers : Glob.covers ("app/jobs/sidekiq_jobs/orders/" ++ kind ++ "/*.rb") names = true) :
      Asked o (orderRelocation kind (Path.ofNames names))
  | pos (wanted : (o.updateJobNamespaces || o.updatePosStatusJobs) = true) : Asked o posRelocation

/-- The names that an upgrade may reach, given the files with findings: one case for every place in
it that writes files. Only a class that moves, out of a file that was there at the start, gets a file
where there was none. -/
inductive Touches (root : Root) (start : Tree) (o : Options) (files : List String) :
    Bool → List String → Prop
  | repair (names : List String) (found : Path.ofNames names ∈ files)
      (isOpen : Path.isProtected (Path.ofNames names) = false) : Touches root start o files true names
  | gemfile (wanted : o.updateGems = true) : Touches root start o files true ["Gemfile"]
  | config (e : FrameworkConfig.Edit) (wanted : o.updateConfigs = true)
      (isEdit : e ∈ FrameworkConfig.edits) : Touches root start o files true (Path.namesOf e.path)
  | migration (names : List String) (wanted : o.updateMigrations = true)
      (covers : Glob.covers migrations names = true) : Touches root start o files true names
  | api (glob : String) (names : List String)
      (wanted : (o.updateJobNamespaces || o.updateApiModule) = true) (isApi : glob ∈ apiFiles)
      (covers : Glob.covers glob names = true) : Touches root start o files true names
  | source (r : Relocation) (source target : List String) (asked : Asked o r)
      (named : r.Named source target) : Touches root start o files true source
  | target (r : Relocation) (source target : List String) (asked : Asked o r)
      (named : r.Named source target) (isSource : (start.file? (root.place ++ source)).isSome) :
      Touches root start o files false target
  | reference (r : Relocation) (names : List String) (asked : Asked o r)
      (covers : Glob.covers rubyFiles names = true)
      (isOpen : Path.isProtected (Path.ofNames names) = false) : Touches root start o files true names

variable {files : List String}

variable {names : List String}

theorem covers_stockJobs (h : Glob.covers stockJobs names = true) :
    ∃ name, names = ["app", "jobs", "inventory"] ++ [name] ∧
      Glob.nameFits "*_stock_job.rb".toList name = true :=
  Glob.exists_of_covers (by decide) (by decide) (by decide) (by decide) h

theorem covers_orderJobs {kind : String} (hkind : kind ∈ orderKinds)
    (h : Glob.covers ("app/jobs/sidekiq_jobs/orders/" ++ kind ++ "/*.rb") names = true) :
    ∃ name, names = ["app", "jobs", "sidekiq_jobs", "orders", kind] ++ [name] ∧
      Glob.nameFits "*.rb".toList name = true := by
  simp only [orderKinds, List.mem_cons, List.not_mem_nil, or_false] at hkind
  obtain rfl | rfl := hkind
  · exact Glob.exists_of_covers (by decide) (by decide) (by decide) (by decide) h
  · exact Glob.exists_of_covers (by decide) (by decide) (by decide) (by decide) h

/-- The directory that jobs move to. -/
def newJobs : List String := ["app", "jobs", "sidekiq"]

/-- A move that is asked for goes from outside of this directory into it. -/
theorem Asked.exists_places (h : Asked o r) : ∃ source target, r.Named source target ∧
    source.take 3 ≠ newJobs ∧ target.take 3 = newJobs := by
  cases h with
  | stock names _ hnames hcovers =>
    obtain ⟨job, hnamed⟩ := exists_named_stockRelocation hnames
    obtain ⟨name, rfl, -⟩ := covers_stockJobs hcovers
    exact ⟨_, _, hnamed, by simp [newJobs], rfl⟩
  | order kind names _ hkind hnames hcovers =>
    obtain ⟨job, hnamed⟩ := exists_named_orderRelocation hkind hnames
    obtain ⟨name, rfl, -⟩ := covers_orderJobs hkind hcovers
    exact ⟨_, _, hnamed, by simp [newJobs], rfl⟩
  | pos _ =>
    exact ⟨["app", "jobs", "check_job.rb"], ["app", "jobs", "sidekiq", "pos_status", "check.rb"],
      ⟨by decide, by decide, by decide, by decide, by decide, by decide⟩, by decide, by decide⟩

/-- A move that is asked for goes from names to names. -/
theorem Asked.exists_named (h : Asked o r) : ∃ source target, r.Named source target := by
  obtain ⟨source, target, hnamed, -⟩ := h.exists_places
  exact ⟨source, target, hnamed⟩

/-- Outside of the directory that jobs move to, an upgrade makes no file. -/
theorem Touches.eq_true {there : Bool} (h : Touches root start o files there names)
    (hplace : names.take 3 ≠ newJobs) : there = true := by
  cases h with
  | target r source _ hasked hnamed _ =>
    obtain ⟨source', target', hnamed', -, htarget⟩ := hasked.exists_places
    obtain ⟨-, rfl⟩ := hnamed.unique hnamed'
    exact absurd htarget hplace
  | _ => rfl

/-- Moves one after the other tell the files of all of them. -/
theorem tells_relocateAll {plan : List Relocation} (hplan : ∀ r ∈ plan, Asked o r) :
    Tells root (Touches root start o files) start (relocateAll root plan) id := by
  induction plan with
  | nil => exact tells_nil rfl
  | cons r rest ih =>
    intro told
    have hasked := hplan r (by simp)
    have hrest := ih fun r hr => hplan r (by simp [hr])
    obtain ⟨source, target, hnamed, hplace, -⟩ := hasked.exists_places
    have hmove : Tells root (Touches root start o files) start (relocate root r) id :=
      tells_relocate hnamed (.source r source target hasked hnamed)
        (fun hheld => .target r source target hasked hnamed (hheld.eq_true hplace))
        fun names _ => .reference r names hasked
    rw [relocateAll]
    refine Triple.bind (hmove told) fun written => ?_
    refine Triple.bind (hrest _) fun more => Triple.pure fun w hw => ?_
    simpa using hw

theorem tells_runPlan {plan : Tree → Root → List Relocation} {wanted : Bool}
    (hplan : wanted = true → ∀ t, t.WellFormed → ∀ r ∈ plan t root, Asked o r) :
    Tells root (Touches root start o files) start (runPlan root plan wanted) id := by
  unfold runPlan
  cases wanted with
  | false => exact tells_nil rfl
  | true => exact tells_tree_bind fun _ t ht =>
      tells_relocateAll (hplan rfl t ht.wellFormed)

variable {t : Tree}

theorem asked_of_mem_stockPlan (hwanted : (o.updateJobNamespaces || o.updateStockJobs) = true)
    (ht : t.WellFormed) (hr : r ∈ stockPlan t root) : Asked o r := by
  obtain ⟨path, hpath, rfl⟩ := List.mem_map.mp hr
  obtain ⟨names, hnames, rfl, hcovers⟩ := Glob.exists_names_of_mem_files? ht isPlain_stockJobs hpath
  exact .stock names hwanted hnames hcovers

theorem asked_of_mem_orderPlan (hwanted : (o.updateJobNamespaces || o.updateOrderJobs) = true)
    (ht : t.WellFormed) (hr : r ∈ orderPlan t root) : Asked o r := by
  obtain ⟨kind, hkind, hmem⟩ := List.mem_flatMap.mp hr
  obtain ⟨path, hpath, rfl⟩ := List.mem_map.mp hmem
  obtain ⟨names, hnames, rfl, hcovers⟩ :=
    Glob.exists_names_of_mem_files? ht (isPlain_orderJobs kind hkind) hpath
  exact .order kind names hwanted hkind hnames hcovers

theorem asked_of_mem_posPlan (hwanted : (o.updateJobNamespaces || o.updatePosStatusJobs) = true)
    (hr : r ∈ posPlan t root) : Asked o r := by
  rw [posPlan] at hr
  split at hr
  · rw [List.mem_singleton.mp hr]
    exact .pos hwanted
  · cases hr

theorem tells_onlyIf {wanted : Bool} {x : Run (List String)}
    (h : wanted = true → Tells root reach start x id) :
    Tells root reach start (onlyIf wanted x) id := by
  cases wanted with
  | false => exact tells_nil rfl
  | true => exact h rfl

theorem tells_updateNamespaces :
    Tells root (Touches root start o files) start (updateNamespaces root o) id := by
  intro told
  have hapi (hwanted : (o.updateJobNamespaces || o.updateApiModule) = true) :
      Tells root (Touches root start o files) start (renameApi root) id :=
    tells_renameApi fun glob hglob names _ => .api glob names hwanted hglob
  rw [updateNamespaces_eq]
  refine Triple.bind (tells_onlyIf hapi told) fun api => ?_
  refine Triple.bind (tells_runPlan (fun hwanted t ht r => asked_of_mem_stockPlan hwanted ht) _)
    fun stock => ?_
  refine Triple.bind (tells_runPlan (fun hwanted t ht r => asked_of_mem_orderPlan hwanted ht) _)
    fun order => ?_
  refine Triple.bind (tells_runPlan (fun hwanted t _ r => asked_of_mem_posPlan hwanted) _)
    fun pos => Triple.pure fun w hw => ?_
  simpa using hw

theorem tells_released : Tells root (Touches root start o files) start (released root o) id := by
  unfold released
  split
  · split
    · exact tells_note_bind (tells_nil rfl)
    · exact tells_nil rfl
  · rename_i target _
    intro told
    refine Triple.bind (tells_onlyIf (fun hwanted =>
      tells_updateGemfile target (.gemfile hwanted)) told) fun gems => ?_
    refine Triple.bind (tells_onlyIf (fun hwanted =>
      tells_updateConfigsWith target (List.Subset.refl _) fun e he => .config e hwanted he) _)
      fun configs => ?_
    refine Triple.bind (tells_onlyIf (fun hwanted =>
      tells_updateMigrations target fun names _ => .migration names hwanted) _)
      fun migrations => Triple.pure fun w hw => ?_
    simpa using hw

/-- The updates of whole files tell what they have changed, each file once. -/
theorem tells_updateFiles : Tells root (Touches root start o files) start (updateFiles root o) id := by
  intro told
  rw [updateFiles_eq]
  refine Triple.bind (tells_released told) fun released => ?_
  refine Triple.bind (tells_updateNamespaces _) fun named => Triple.pure fun w hw => ?_
  refine hw.mono fun path hpath => ?_
  simpa [mem_distinct] using hpath

/-! ### The whole run -/

variable (root registry) in
/-- Repairs and updates tell the files that the outcome names. -/
theorem tells_repair (hfindings : ∀ f ∈ findings, ∃ names, Path.AreNames names ∧
      f.file = Path.ofNames names) :
    Tells root (Touches root start o (findings.map Finding.file)) start (repair root registry o findings)
      Outcome.changed := by
  unfold repair
  split
  · exact tells_nil rfl
  · intro told
    refine Triple.bind (tells_repairFiles ?_ told) fun fixes => ?_
    · intro file hfile
      rw [mem_distinct] at hfile
      obtain ⟨f, hf, rfl⟩ := List.mem_map.mp hfile
      obtain ⟨names, hnames, hpath⟩ := hfindings f hf
      refine ⟨names, hnames, hpath, fun hopen => ?_⟩
      rw [hpath] at hfile hopen
      exact .repair names hfile hopen
    · refine Triple.bind (tells_updateFiles _) fun updated => Triple.pure fun w hw => ?_
      refine hw.mono fun path hpath => ?_
      simpa [mem_addNew, or_assoc] using hpath

/-- The release that is upgraded to makes no difference to what is asked for. -/
theorem Asked.of_target {target : Option String} (h : Asked { o with target } r) : Asked o r := by
  cases h with
  | stock names hwanted hnames hcovers => exact .stock names hwanted hnames hcovers
  | order kind names hwanted hkind hnames hcovers =>
    exact .order kind names hwanted hkind hnames hcovers
  | pos hwanted => exact .pos hwanted

/-- The release that is upgraded to makes no difference to what may be reached. -/
theorem Touches.of_target {target : Option String} {there : Bool}
    (h : Touches root start { o with target } files there names) :
    Touches root start o files there names := by
  cases h with
  | repair _ hfound hopen => exact .repair names hfound hopen
  | gemfile hwanted => exact .gemfile hwanted
  | config e hwanted he => exact .config e hwanted he
  | migration _ hwanted hcovers => exact .migration names hwanted hcovers
  | api glob _ hwanted hglob hcovers => exact .api glob names hwanted hglob hcovers
  | source r _ target hasked hnamed => exact .source r names target hasked.of_target hnamed
  | target r source _ hasked hnamed hsource =>
    exact .target r source names hasked.of_target hnamed hsource
  | reference r _ hasked hcovers hopen => exact .reference r names hasked.of_target hcovers hopen

variable (root) in
/-- No file changes that an upgrade does not reach, however it ends; and if it ends with an outcome,
this outcome names every file that has changed. -/
theorem told_upgrade (registry : Registry) (o : Options) {w : Workspace} (ht : w.tree.WellFormed)
    (hplain : ∀ d ∈ registry.detections, Glob.isPlain d.glob = true) :
    ∃ told, Told root (Touches root w.tree o ((foundIn w.tree root registry o).map Finding.file))
        w.tree told (Run.exec (upgrade root registry o) w).2.tree ∧
      ∀ outcome, (Run.exec (upgrade root registry o) w).1 = .ok outcome → told = outcome.changed := by
  obtain ⟨notices, hrun⟩ := exec_upgrade registry root o w
  rw [hrun]
  cases registry.detections.findSome? (overlong? (some (targetOf w.tree root o))) with
  | some number => exact ⟨[], Told.refl ht, fun _ h => by cases h⟩
  | none =>
    -- Every file with findings is in the project.
    have hfindings : ∀ f ∈ foundIn w.tree root registry o, ∃ names, Path.AreNames names ∧
        f.file = Path.ofNames names := by
      intro f hf
      obtain ⟨names, hpath, hne, hfile⟩ :=
        exists_names_of_mem_findings ht hplain (List.mem_map_of_mem hf)
      obtain ⟨bytes, hbytes⟩ := Option.isSome_iff_exists.mp hfile
      exact ⟨names, ⟨hne, ht.names_of_file? hbytes⟩, hpath⟩
    have htells := tells_repair root registry
      (o := { o with target := some (targetOf w.tree root o) }) hfindings []
      { w with notices } (Told.refl ht)
    simp only
    cases hrepair : Run.exec (repair root registry
        { o with target := some (targetOf w.tree root o) } (foundIn w.tree root registry o))
        { w with notices } with
    | mk result w' =>
      rw [hrepair] at htells
      cases result with
      | ok outcome =>
        refine ⟨outcome.changed, htells.imp fun _ _ => Touches.of_target, fun other hother => ?_⟩
        rw [Except.ok.inj hother]
      | error failure =>
        obtain ⟨told, htold⟩ := htells
        exact ⟨told, htold.imp fun _ _ => Touches.of_target, fun _ h => by cases h⟩

end Project

end RailsUpgrade
