import Mathlib.Data.List.Nodup
import RailsUpgrade.Proofs.Moves

/-!
# `RailsUpgrade.Proofs.Namespaces`: a whole update of namespaces

A plan looks at the tree when its turn comes. Neither the new name of the module nor a move adds or
removes a job, so every plan finds what was there at the start, and an update is the new name of the
module and then one list of moves:

* `exec_renameApi`: what the new name of the module makes of every file;
* `askedPlan`: the moves that options ask for, and `nodup_sources_askedPlan`;
* `exec_updateNamespaces`: an update runs this list;
* `movesOf`: the moves of the list that happen;
* `file?_updateNamespaces`: what an update makes of every file that is not the new one of a move.
-/

set_option autoImplicit false

namespace RailsUpgrade

theorem Run.exec_bind_congr {α β : Type} {x y : Run α} {f g : α → Run β} {w : Workspace}
    (hx : exec x w = exec y w)
    (h : ∀ a w', exec y w = (.ok a, w') → exec (f a) w' = exec (g a) w') :
    exec (x >>= f) w = exec (y >>= g) w := by
  rw [exec_bind, exec_bind, hx]
  split
  · rename_i a w' hy
    exact h a w' hy
  · rfl

namespace Project

open Run (edited? editsOf)

variable {root : Root} {r : Relocation} {o : Options} {t t' : Tree} {w w' : Workspace}
  {names : List String} {written : List String}

/-! ### The new name of the module -/

/-- The change of a text that gives the module its new name. -/
def apiRenaming (text : List Char) : Except Failure (List Char) := .ok (renameApiIn text)

/-- What the new name of the module makes of the bytes of a file that one of the globs covers, if it
changes the file. -/
def renamed? (globs names : List String) (bytes : ByteArray) : Option ByteArray :=
  if globs.any (Glob.covers · names) then edited? apiRenaming bytes else none

theorem renamed?_cons (glob : String) (globs : List String) (bytes : ByteArray) :
    renamed? (glob :: globs) names bytes =
      if Glob.covers glob names then edited? apiRenaming bytes else renamed? globs names bytes := by
  rw [renamed?, List.any_cons, renamed?]
  cases Glob.covers glob names with
  | true => rfl
  | false => rfl

theorem renamed?_eq_none (globs : List String) {bytes : ByteArray}
    (h : edited? apiRenaming bytes = none) : renamed? globs names bytes = none := by
  rw [renamed?, h, ite_self]

/-- The files of a glob that get the new name of the module: those that were not changed before. -/
def apiPaths (root : Root) (changed : List String) (glob : String) (t : Tree) : List String :=
  ((Glob.files? t root glob).getD []).filter fun path => !changed.contains path

theorem mem_apiPaths (changed : List String) (ht : t.WellFormed) {glob : String}
    (hplain : Glob.isPlain glob = true) (hnames : Path.AreNames names)
    (hfile : (t.file? (root.place ++ names)).isSome) :
    Path.ofNames names ∈ apiPaths root changed glob t ↔
      Glob.covers glob names = true ∧ Path.ofNames names ∉ changed := by
  rw [apiPaths, List.mem_filter, Glob.mem_files?_iff_covers ht hplain hnames.ne_nil hfile]
  simp

variable (root) in
/-- What one glob does: its files get the new name of the module unless they were changed before, and
those are told whose bytes change. -/
theorem exec_apiPaths (changed : List String) {glob : String} (ht : w.tree.WellFormed)
    (hplain : Glob.isPlain glob = true) :
    ∃ told w', Run.exec (Run.editAll root apiRenaming (apiPaths root changed glob w.tree)) w =
        (.ok told, w') ∧ w'.tree.WellFormed ∧ (told = [] → w'.tree = w.tree) ∧
      (∀ names, Path.AreNames names → w'.tree.file? (root.place ++ names) =
        (w.tree.file? (root.place ++ names)).map fun bytes =>
          if Glob.covers glob names = true ∧ Path.ofNames names ∉ changed
          then (edited? apiRenaming bytes).getD bytes else bytes) ∧
      ∀ path, path ∈ told ↔ ∃ names bytes, Path.AreNames names ∧ path = Path.ofNames names ∧
        w.tree.file? (root.place ++ names) = some bytes ∧ Glob.covers glob names = true ∧
        path ∉ changed ∧ (edited? apiRenaming bytes).isSome := by
  have hpaths : Run.ArePaths (apiPaths root changed glob w.tree) :=
    (arePaths_files? ht hplain).of_sublist List.filter_sublist
  rcases Run.exec_editAll root apiRenaming ht hpaths with
    ⟨text, failure, w', hfails, -⟩ | ⟨notices, hdone⟩
  · cases hfails
  refine ⟨_, _, hdone, ht.putAll fun x => Run.file?_isSome_of_mem_editsOf, fun hnone => ?_,
    fun names hnames => ?_, fun path => ?_⟩
  · have hidle : editsOf root apiRenaming w.tree (apiPaths root changed glob w.tree) = [] := by
      rw [editsOf, List.filterMap_eq_nil_iff]
      intro path hpath
      simpa using List.filter_eq_nil_iff.mp hnone path hpath
    rw [hidle]
    rfl
  -- A file is listed once if the glob covers it and it was not changed before.
  · show (w.tree.putAll _).file? _ = _
    rw [Run.file?_putAll_editsOf ht hpaths hnames]
    cases hfile : w.tree.file? (root.place ++ names) with
    | none => simp
    | some bytes =>
      have hlisted := mem_apiPaths changed ht hplain hnames (by rw [hfile, Option.isSome_some])
      by_cases hpath : Path.ofNames names ∈ apiPaths root changed glob w.tree
      · rw [if_pos hpath, Option.map_some, Option.map_some, if_pos (hlisted.mp hpath)]
      · rw [if_neg hpath, Option.map_some, if_neg fun h => hpath (hlisted.mpr h)]
  · rw [List.mem_filter]
    constructor
    · rintro ⟨hpath, hedit⟩
      obtain ⟨names, hnames, rfl⟩ := hpaths.isNames path hpath
      rw [Run.editOf_ofNames ht hnames] at hedit
      cases hfile : w.tree.file? (root.place ++ names) with
      | none => simp [hfile] at hedit
      | some bytes =>
        obtain ⟨hcovers, hnew⟩ :=
          (mem_apiPaths changed ht hplain hnames (by rw [hfile, Option.isSome_some])).mp hpath
        exact ⟨names, bytes, hnames, rfl, hfile, hcovers, hnew, by simpa [hfile] using hedit⟩
    · rintro ⟨names, bytes, hnames, rfl, hfile, hcovers, hnew, hedit⟩
      refine ⟨(mem_apiPaths changed ht hplain hnames (by rw [hfile, Option.isSome_some])).mpr
        ⟨hcovers, hnew⟩, ?_⟩
      rw [Run.editOf_ofNames ht hnames, hfile]
      simpa using hedit

variable (root) in
/-- The new name of the module, glob after glob. A file is changed once, and what is told beyond what
was changed before are the files that change. -/
theorem exec_renameApiWith (changed : List String) {globs : List String} (ht : w.tree.WellFormed)
    (hglobs : globs ⊆ apiFiles) :
    ∃ more w', Run.exec (renameApiWith root changed globs) w = (.ok (changed ++ more), w') ∧
      w'.tree.WellFormed ∧ (more = [] → w'.tree = w.tree) ∧
      (∀ names, Path.AreNames names → w'.tree.file? (root.place ++ names) =
        (w.tree.file? (root.place ++ names)).map fun bytes =>
          if Path.ofNames names ∈ changed then bytes else (renamed? globs names bytes).getD bytes) ∧
      (more = [] ↔ ∀ names bytes, Path.AreNames names → Path.ofNames names ∉ changed →
        w.tree.file? (root.place ++ names) = some bytes → renamed? globs names bytes = none) := by
  induction globs generalizing changed w with
  | nil =>
    refine ⟨[], w, by simp [renameApiWith], ht, fun _ => rfl, fun names _ => ?_, ?_⟩
    · simp [renamed?]
    · simp [renamed?]
  | cons glob globs ih =>
    obtain ⟨hglob, hrest⟩ := List.cons_subset.mp hglobs
    obtain ⟨told, w₁, hstep, ht₁, hidle₁, hfiles₁, htold⟩ :=
      exec_apiPaths root changed ht (isPlain_apiFiles glob hglob)
    obtain ⟨more, w', hmore, ht', hidle', hfiles', hmore'⟩ := ih (changed ++ told) ht₁ hrest
    have hrun : Run.exec (renameApiWith root changed (glob :: globs)) w =
        Run.exec (Run.editAll root apiRenaming (apiPaths root changed glob w.tree) >>= fun told =>
          renameApiWith root (changed ++ told) globs) w := by
      rw [renameApiWith, Run.exec_filesOf_bind]
      rfl
    refine ⟨told ++ more, w', ?_, ht', fun hnil => ?_, fun names hnames => ?_, ?_⟩
    · rw [hrun, Run.exec_bind_of_ok hstep, hmore, List.append_assoc]
    · obtain ⟨htold, hmore⟩ := List.append_eq_nil_iff.mp hnil
      rw [hidle' hmore, hidle₁ htold]
    -- The first glob that covers a file decides about it, as it counts as changed for the others.
    · rw [hfiles' names hnames, hfiles₁ names hnames, Option.map_map]
      cases hfile : w.tree.file? (root.place ++ names) with
      | none => rfl
      | some bytes =>
        have hmem : Path.ofNames names ∈ told ↔ Glob.covers glob names = true ∧
            Path.ofNames names ∉ changed ∧ (edited? apiRenaming bytes).isSome := by
          rw [htold]
          constructor
          · rintro ⟨others, bytes', hothers, hpath, hfile', hcovers, hnew, hedit⟩
            obtain rfl : names = others :=
              Path.ofNames_inj hnames.ne_nil hothers.ne_nil hnames.isName hothers.isName hpath
            rw [hfile] at hfile'
            cases hfile'
            exact ⟨hcovers, hnew, hedit⟩
          · rintro ⟨hcovers, hnew, hedit⟩
            exact ⟨names, bytes, hnames, rfl, hfile, hcovers, hnew, hedit⟩
        rw [Option.map_some, Option.map_some, Function.comp_apply, renamed?_cons]
        by_cases hold : Path.ofNames names ∈ changed
        · simp [hold]
        · cases hcovers : Glob.covers glob names with
          | false => simp [hold, hmem, hcovers]
          | true =>
            cases hedit : edited? apiRenaming bytes with
            | none => simp [hold, hmem, hcovers, hedit, renamed?_eq_none globs hedit]
            | some new => simp [hold, hmem, hcovers, hedit]
    -- Nothing is told exactly if no file is changed by the first glob, nor by those behind it.
    · rw [List.append_eq_nil_iff]
      constructor
      · rintro ⟨rfl, rfl⟩ names bytes hnames hold hfile
        rw [renamed?_cons]
        split
        · rename_i hcovers
          rw [← Option.not_isSome_iff_eq_none]
          intro hedit
          have hmem := (htold _).mpr ⟨names, bytes, hnames, rfl, hfile, hcovers, hold, hedit⟩
          cases hmem
        · refine hmore'.mp rfl names bytes hnames (by simpa using hold) ?_
          rw [hidle₁ rfl, hfile]
      · intro hnone
        obtain rfl : told = [] := by
          rw [List.eq_nil_iff_forall_not_mem]
          intro path hpath
          obtain ⟨names, bytes, hnames, rfl, hfile, hcovers, hold, hedit⟩ := (htold path).mp hpath
          have hidle := hnone names bytes hnames hold hfile
          rw [renamed?_cons, if_pos hcovers] at hidle
          rw [hidle] at hedit
          cases hedit
        refine ⟨rfl, hmore'.mpr fun names bytes hnames hold hfile => ?_⟩
        rw [hidle₁ rfl] at hfile
        have hidle := hnone names bytes hnames (by simpa using hold) hfile
        rw [renamed?_cons] at hidle
        split at hidle
        · exact renamed?_eq_none globs hidle
        · exact hidle

/-- The globs whose files get the new name of the module. -/
def apiGlobs (o : Options) : List String :=
  if o.updateJobNamespaces || o.updateApiModule then apiFiles else []

/-- Gives the module its new name, if options ask for it. -/
def renamedApi (root : Root) (o : Options) : Run (List String) :=
  onlyIf (o.updateJobNamespaces || o.updateApiModule) (renameApi root)

variable (root o) in
/-- The new name of the module never fails, and it changes the files whose text it changes. -/
theorem exec_renamedApi (ht : w.tree.WellFormed) :
    ∃ api w', Run.exec (renamedApi root o) w = (.ok api, w') ∧ w'.tree.WellFormed ∧
      (api = [] → w'.tree = w.tree) ∧
      (∀ names, Path.AreNames names → w'.tree.file? (root.place ++ names) =
        (w.tree.file? (root.place ++ names)).map fun bytes =>
          (renamed? (apiGlobs o) names bytes).getD bytes) ∧
      (api = [] ↔ ∀ names bytes, Path.AreNames names →
        w.tree.file? (root.place ++ names) = some bytes →
        renamed? (apiGlobs o) names bytes = none) := by
  unfold renamedApi apiGlobs onlyIf
  split
  · obtain ⟨api, w', hrun, ht', hidle, hfiles, hnil⟩ :=
      exec_renameApiWith root [] ht (List.Subset.refl apiFiles)
    rw [List.nil_append] at hrun
    have hdone : ∃ notices, Run.exec (renameApi root) w = (.ok api, { w' with notices }) := by
      rw [renameApi, Run.exec_bind_of_ok hrun]
      split
      · exact ⟨_, rfl⟩
      · exact ⟨_, rfl⟩
    obtain ⟨notices, hdone⟩ := hdone
    exact ⟨api, _, hdone, ht', hidle, by simpa using hfiles, by simpa using hnil⟩
  · exact ⟨[], w, rfl, ht, fun _ => rfl, by simp [renamed?], by simp [renamed?]⟩

/-! ### Where jobs are and where they move to -/

/-- No file outside of the directory is the new one of a move. -/
theorem Asked.target_ne (h : Asked o r) (hnames : Path.AreNames names)
    (hplace : names.take 3 ≠ newJobs) : r.target ≠ Path.ofNames names := by
  obtain ⟨source, target, hnamed, -, htarget⟩ := h.exists_places
  intro heq
  rw [hnamed.target_eq] at heq
  rw [← Path.ofNames_inj hnamed.target_ne hnames.ne_nil hnamed.target_names hnames.isName heq]
    at hplace
  exact hplace htarget

/-- Two trees have the same files outside of the directory that jobs move to. -/
def SameJobs (root : Root) (t t' : Tree) : Prop :=
  ∀ names, Path.AreNames names → names.take 3 ≠ newJobs →
    (t.file? (root.place ++ names)).isSome = (t'.file? (root.place ++ names)).isSome

theorem SameJobs.trans {t'' : Tree} (h : SameJobs root t t') (h' : SameJobs root t' t'') :
    SameJobs root t t'' :=
  fun names hnames hplace => (h names hnames hplace).trans (h' names hnames hplace)

theorem isFileAt_ofNames (ht : t.WellFormed) (hnames : Path.AreNames names) :
    t.isFileAt root (Path.ofNames names) = (t.file? (root.place ++ names)).isSome := by
  cases hfile : t.file? (root.place ++ names) with
  | some bytes => rw [Tree.isFileAt, Tree.look_of_file? ht hnames.ne_nil hfile, Option.isSome_some]
  | none =>
    unfold Tree.isFileAt
    split
    · rename_i place bytes hlook
      have hfound := Tree.file?_of_look hlook
      rw [Tree.place_of_look ht hnames hlook, hfile] at hfound
      cases hfound
    · rfl

/-! ### The plans -/

/-- The moves that options ask for, as they are planned for a tree. -/
def askedPlan (o : Options) (t : Tree) (root : Root) : List Relocation :=
  (if o.updateJobNamespaces || o.updateStockJobs then stockPlan t root else []) ++
    ((if o.updateJobNamespaces || o.updateOrderJobs then orderPlan t root else []) ++
      if o.updateJobNamespaces || o.updatePosStatusJobs then posPlan t root else [])

theorem asked_of_mem_askedPlan (ht : t.WellFormed) (h : r ∈ askedPlan o t root) : Asked o r := by
  rw [askedPlan, List.mem_append, List.mem_append] at h
  rcases h with hstock | horder | hpos
  · split at hstock
    · rename_i hwanted
      exact asked_of_mem_stockPlan hwanted ht hstock
    · cases hstock
  · split at horder
    · rename_i hwanted
      exact asked_of_mem_orderPlan hwanted ht horder
    · cases horder
  · split at hpos
    · rename_i hwanted
      exact asked_of_mem_posPlan hwanted hpos
    · cases hpos

/-- The directory of a file that a glob of jobs lists. -/
theorem dropLast_of_mem_files? (ht : t.WellFormed) {glob path : String}
    (hplain : Glob.isPlain glob = true) {dirs : List String}
    (hdirs : ∀ names, Glob.covers glob names = true → ∃ name, names = dirs ++ [name])
    (h : path ∈ (Glob.files? t root glob).getD []) : (Path.namesOf path).dropLast = dirs := by
  obtain ⟨names, hnames, rfl, hcovers⟩ := Glob.exists_names_of_mem_files? ht hplain h
  obtain ⟨name, rfl⟩ := hdirs names hcovers
  rw [Path.namesOf_ofNames hnames.ne_nil hnames.isName, List.dropLast_concat]

theorem sources_stockPlan :
    (stockPlan t root).map Relocation.source = (Glob.files? t root stockJobs).getD [] := by
  rw [stockPlan, List.map_map]
  exact List.map_id _

theorem sources_orderPlan : (orderPlan t root).map Relocation.source = orderKinds.flatMap fun kind =>
    (Glob.files? t root ("app/jobs/sidekiq_jobs/orders/" ++ kind ++ "/*.rb")).getD [] := by
  have hkind : ∀ kind (paths : List String),
      (paths.map (orderRelocation kind)).map Relocation.source = paths := fun kind paths => by
    rw [List.map_map]
    exact List.map_id _
  simp only [orderPlan, List.map_flatMap, hkind]

theorem dropLast_of_mem_stockPlan (ht : t.WellFormed) {path : String}
    (h : path ∈ (stockPlan t root).map Relocation.source) :
    (Path.namesOf path).dropLast = ["app", "jobs", "inventory"] := by
  rw [sources_stockPlan] at h
  refine dropLast_of_mem_files? ht (by decide) (fun names hcovers => ?_) h
  obtain ⟨name, rfl, -⟩ := covers_stockJobs hcovers
  exact ⟨name, rfl⟩

theorem dropLast_of_mem_orderJobs (ht : t.WellFormed) {kind path : String} (hkind : kind ∈ orderKinds)
    (h : path ∈ (Glob.files? t root
      ("app/jobs/sidekiq_jobs/orders/" ++ kind ++ "/*.rb")).getD []) :
    (Path.namesOf path).dropLast = ["app", "jobs", "sidekiq_jobs", "orders", kind] := by
  refine dropLast_of_mem_files? ht (isPlain_orderJobs kind hkind) (fun names hcovers => ?_) h
  obtain ⟨name, rfl, -⟩ := covers_orderJobs hkind hcovers
  exact ⟨name, rfl⟩

theorem nodup_sources_orderPlan (ht : t.WellFormed) :
    ((orderPlan t root).map Relocation.source).Nodup := by
  rw [sources_orderPlan, List.nodup_flatMap]
  refine ⟨fun kind hkind => (arePaths_files? ht (isPlain_orderJobs kind hkind)).nodup, ?_⟩
  have hkinds : orderKinds.Pairwise (· ≠ ·) := by decide
  refine hkinds.imp_of_mem fun {kind other} hkind hother hne path hpath hpath' => hne ?_
  have hdir := dropLast_of_mem_orderJobs ht hkind hpath
  rw [dropLast_of_mem_orderJobs ht hother hpath'] at hdir
  simpa using hdir.symm

/-- No file is planned to move twice: the three kinds of jobs are in different directories. -/
theorem nodup_sources_askedPlan (ht : t.WellFormed) :
    ((askedPlan o t root).map Relocation.source).Nodup := by
  have hpart : ∀ (wanted : Bool) (plan : List Relocation), (plan.map Relocation.source).Nodup →
      ((if wanted then plan else []).map Relocation.source).Nodup := by
    intro wanted plan hplan
    cases wanted with
    | true => exact hplan
    | false => exact List.nodup_nil
  have hmem : ∀ {wanted : Bool} {plan : List Relocation} {path : String},
      path ∈ (if wanted then plan else []).map Relocation.source →
        path ∈ plan.map Relocation.source := by
    intro wanted plan path hpath
    cases wanted with
    | true => exact hpath
    | false => cases hpath
  have hpos : ∀ path ∈ (posPlan t root).map Relocation.source,
      (Path.namesOf path).dropLast = ["app", "jobs"] := by
    intro path hpath
    rw [posPlan] at hpath
    split at hpath
    · rw [List.map_singleton, List.mem_singleton] at hpath
      rw [hpath]
      decide
    · cases hpath
  have horder : ∀ path ∈ (orderPlan t root).map Relocation.source, ∃ kind,
      (Path.namesOf path).dropLast = ["app", "jobs", "sidekiq_jobs", "orders", kind] := by
    intro path hpath
    rw [sources_orderPlan] at hpath
    obtain ⟨kind, hkind, hlisted⟩ := List.mem_flatMap.mp hpath
    exact ⟨kind, dropLast_of_mem_orderJobs ht hkind hlisted⟩
  -- The three plans take from different directories, so that no file is in two of them.
  rw [askedPlan, List.map_append, List.map_append]
  refine (hpart _ _ ?_).append ((hpart _ _ (nodup_sources_orderPlan ht)).append (hpart _ _ ?_) ?_) ?_
  · rw [sources_stockPlan]
    exact (arePaths_files? ht (by decide)).nodup
  · rw [posPlan]
    split
    · exact List.nodup_singleton _
    · exact List.nodup_nil
  · intro path hpath hpath'
    obtain ⟨kind, hdir⟩ := horder path (hmem hpath)
    rw [hpos path (hmem hpath')] at hdir
    simp at hdir
  · intro path hpath hpath'
    have hdir := dropLast_of_mem_stockPlan ht (hmem hpath)
    rcases List.mem_append.mp hpath' with hpath' | hpath'
    · obtain ⟨kind, hdir'⟩ := horder path (hmem hpath')
      rw [hdir'] at hdir
      simp at hdir
    · rw [hpos path (hmem hpath')] at hdir
      simp at hdir

section

variable (ht : t.WellFormed) (ht' : t'.WellFormed) (h : SameJobs root t t')

include ht ht' h

theorem stockPlan_congr : stockPlan t root = stockPlan t' root := by
  have hfiles : Glob.files? t root stockJobs = Glob.files? t' root stockJobs := by
    refine Glob.files?_congr ht ht' isPlain_stockJobs fun names hnames hcovers =>
      h names hnames ?_
    obtain ⟨name, rfl, -⟩ := covers_stockJobs hcovers
    simp [newJobs]
  rw [stockPlan, hfiles, stockPlan]

theorem orderPlan_congr : orderPlan t root = orderPlan t' root := by
  refine List.flatMap_congr fun kind hkind => ?_
  rw [Glob.files?_congr ht ht' (isPlain_orderJobs kind hkind) fun names hnames hcovers => h names hnames ?_]
  obtain ⟨name, rfl, -⟩ := covers_orderJobs hkind hcovers
  simp [newJobs]

theorem posPlan_congr : posPlan t root = posPlan t' root := by
  have hnames : Path.AreNames ["app", "jobs", "check_job.rb"] := ⟨by decide, by decide⟩
  have hsource : posRelocation.source = Path.ofNames ["app", "jobs", "check_job.rb"] := by decide
  rw [posPlan, posPlan, hsource, isFileAt_ofNames ht hnames, isFileAt_ofNames ht' hnames,
    h _ hnames (by decide)]

variable (o) in
theorem askedPlan_congr : askedPlan o t root = askedPlan o t' root := by
  rw [askedPlan, askedPlan, stockPlan_congr ht ht' h, orderPlan_congr ht ht' h, posPlan_congr ht ht' h]

end

/-- Moves that are asked for leave a tree with the same jobs. -/
theorem sameJobs_relocateAll {plan : List Relocation} (ht : w.tree.WellFormed)
    (hplan : ∀ r ∈ plan, Asked o r) (h : Run.exec (relocateAll root plan) w = (.ok written, w')) :
    w'.tree.WellFormed ∧ SameJobs root w.tree w'.tree := by
  obtain ⟨ht', hfiles⟩ := file?_relocateAll ht (fun r hr => (hplan r hr).exists_named) h
  refine ⟨ht', fun names hnames hplace => ?_⟩
  rw [hfiles names hnames fun r hr => (hplan r hr).target_ne hnames hplace, Option.isSome_map]

theorem relocateAll_append (root : Root) (plan more : List Relocation) :
    relocateAll root (plan ++ more) = (do
      let first ← relocateAll root plan
      let second ← relocateAll root more
      return first ++ second) := by
  induction plan with
  | nil => simp [relocateAll]
  | cons r plan ih =>
    simp only [List.cons_append, relocateAll, ih, bind_assoc, pure_bind, List.append_assoc]

theorem exec_runPlan (plan : Tree → Root → List Relocation) (wanted : Bool) (w : Workspace) :
    Run.exec (runPlan root plan wanted) w =
      Run.exec (relocateAll root (if wanted then plan w.tree root else [])) w := by
  cases wanted with
  | true => rfl
  | false => rfl

/-! ### A whole update -/

/-- Every plan finds the jobs that were there at the start. -/
theorem exec_updateNamespaces (ht : w.tree.WellFormed) :
    Run.exec (updateNamespaces root o) w = Run.exec (do
      let api ← renamedApi root o
      let moved ← relocateAll root (askedPlan o w.tree root)
      return api ++ moved) w := by
  have hasked : ∀ r ∈ askedPlan o w.tree root, Asked o r := fun r => asked_of_mem_askedPlan ht
  rw [updateNamespaces_eq, askedPlan, relocateAll_append, relocateAll_append]
  simp only [bind_assoc, pure_bind]
  -- One plan after the other: what has run before it has left the jobs where they were.
  refine Run.exec_bind_congr rfl fun api w₁ hapi => ?_
  obtain ⟨api', w₁', hapi', ht₁, -, hfiles, -⟩ := exec_renamedApi root o ht
  rw [hapi'] at hapi
  cases hapi
  have hsame₁ : SameJobs root w.tree w₁.tree := by
    intro names hnames _
    rw [hfiles names hnames, Option.isSome_map]
  refine Run.exec_bind_congr ?_ fun stock w₂ hstock => ?_
  · rw [exec_runPlan, ← stockPlan_congr ht ht₁ hsame₁]
  obtain ⟨ht₂, hsame₂⟩ := sameJobs_relocateAll ht₁
    (fun r hr => hasked r (List.mem_append_left _ hr)) hstock
  have hsame₂ := hsame₁.trans hsame₂
  refine Run.exec_bind_congr ?_ fun order w₃ horder => ?_
  · rw [exec_runPlan, ← orderPlan_congr ht ht₂ hsame₂]
  obtain ⟨ht₃, hsame₃⟩ := sameJobs_relocateAll ht₂
    (fun r hr => hasked r (List.mem_append_right _ (List.mem_append_left _ hr))) horder
  have hsame₃ := hsame₂.trans hsame₃
  refine Run.exec_bind_congr ?_ fun pos w₄ hpos => ?_
  · rw [exec_runPlan, ← posPlan_congr ht ht₃ hsame₃]
  · rw [List.append_assoc, List.append_assoc]

/-- The moves that happen in an update of namespaces, in their order. -/
def movesOf (root : Root) (o : Options) (w : Workspace) : List Relocation :=
  performed root (askedPlan o w.tree root) (Run.exec (renamedApi root o) w).2

/-- What moves make of the bytes of a file, one after the other. -/
def leftBy (moves : List Relocation) (names : List String) (bytes : ByteArray) : ByteArray :=
  moves.foldl (fun bytes r => leaves r names bytes) bytes

/-- An update that ends has run its two parts. -/
theorem updateNamespaces_eq_ok (ht : w.tree.WellFormed)
    (h : Run.exec (updateNamespaces root o) w = (.ok written, w')) :
    ∃ api w₁ moved, Run.exec (renamedApi root o) w = (.ok api, w₁) ∧ w₁.tree.WellFormed ∧
      (∀ names, Path.AreNames names → w₁.tree.file? (root.place ++ names) =
        (w.tree.file? (root.place ++ names)).map fun bytes =>
          (renamed? (apiGlobs o) names bytes).getD bytes) ∧
      Run.exec (relocateAll root (askedPlan o w.tree root)) w₁ = (.ok moved, w') ∧
      movesOf root o w = performed root (askedPlan o w.tree root) w₁ ∧ written = api ++ moved := by
  rw [exec_updateNamespaces ht] at h
  obtain ⟨api, w₁, hapi, hrest⟩ := Run.exec_bind_eq_ok h
  obtain ⟨moved, w₂, hmoved, hdone⟩ := Run.exec_bind_eq_ok hrest
  cases hdone
  obtain ⟨api', w₁', hapi', ht₁, -, hfiles, -⟩ := exec_renamedApi root o ht
  rw [hapi'] at hapi
  cases hapi
  exact ⟨api, w₁, moved, hapi', ht₁, hfiles, hmoved, by rw [movesOf, hapi'], rfl⟩

/-- An update leaves, in a file outside of the directory that jobs move to, what the moves that happen
make of it once the module has its new name. -/
theorem file?_updateNamespaces (ht : w.tree.WellFormed)
    (h : Run.exec (updateNamespaces root o) w = (.ok written, w')) :
    w'.tree.WellFormed ∧ ∀ names, Path.AreNames names → names.take 3 ≠ newJobs →
      w'.tree.file? (root.place ++ names) = (w.tree.file? (root.place ++ names)).map fun bytes =>
        leftBy (movesOf root o w) names ((renamed? (apiGlobs o) names bytes).getD bytes) := by
  obtain ⟨api, w₁, moved, -, ht₁, hfiles₁, hmoved, hmoves, -⟩ := updateNamespaces_eq_ok ht h
  have hasked : ∀ r ∈ askedPlan o w.tree root, Asked o r := fun r => asked_of_mem_askedPlan ht
  obtain ⟨ht', hfiles⟩ := file?_relocateAll ht₁ (fun r hr => (hasked r hr).exists_named) hmoved
  refine ⟨ht', fun names hnames hplace => ?_⟩
  rw [hfiles names hnames fun r hr => (hasked r hr).target_ne hnames hplace, hfiles₁ names hnames,
    Option.map_map, hmoves]
  rfl

end Project

end RailsUpgrade
