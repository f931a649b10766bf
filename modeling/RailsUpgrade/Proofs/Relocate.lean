import RailsUpgrade.Project.Relocate
import RailsUpgrade.Proofs.ClassText
import RailsUpgrade.Proofs.Glob
import RailsUpgrade.Proofs.Run

/-!
# `RailsUpgrade.Proofs.Relocate`: what a move keeps of a file

A move takes one class out of its file and leaves a stub in place of all the rest.

* `ClassCut.lines_kept_iff`: the lines of a text are kept if and only if the class keeps all of
  those outside of it;
* `Run.editAll_eq_ok`: editing files changes no file that is not listed;
* `exists_named_of_planned`: a planned move goes from a file of the tree to a path below the root;
* `relocate_eq_ok`: a move that ends with its stub has written the class to its new file;
* `relocate_keeps_iff`: when such a move loses no line of the file and nothing of the superclass.
-/

set_option autoImplicit false

namespace RailsUpgrade

open Text (solidLines)

/-! ### Lines inside and outside of a class -/

namespace ClassCut

variable {name : String} {text : List Char} (cut : ClassCut name text)

/-- The line that opens the class. -/
def headerLine : List Char := (solidLines cut.header).headD []

/-- The lines that do not belong to the text inside the class. -/
def outsideLines : List (List Char) :=
  solidLines cut.before ++ solidLines cut.header ++ solidLines cut.closing

/-- The lines that a move owes to the new file: all but ends, modules and the header of the
class. -/
def Owed (line : List Char) : Prop :=
  line ≠ "end".toList ∧ ¬ "module ".toList <+: line ∧ line ≠ cut.headerLine

theorem header_ends : Text.EndsLine cut.header := ⟨_, '\n', rfl, by decide⟩

/-- A line of the text stands outside or inside of the class. -/
theorem mem_solidLines_iff (line : List Char) :
    line ∈ solidLines text ↔ line ∈ cut.outsideLines ∨ line ∈ solidLines cut.inner := by
  have hparts : text = cut.before ++ (cut.header ++ (cut.inner ++ cut.closing)) := by
    have h := cut.text_eq
    rw [← header, ← closing] at h
    simpa only [List.append_assoc] using h
  rw [outsideLines]
  nth_rewrite 1 [hparts]
  rw [Text.solidLines_append cut.before_ends, Text.solidLines_append (.inr cut.header_ends),
    Text.solidLines_append cut.inner_ends]
  simp only [List.mem_append]
  tauto

end ClassCut

/-- The lines that the new file has apart from the body of the class and its ends. -/
def Relocation.frameLines (r : Relocation) (c : ClassText) : List (List Char) :=
  r.newModules.flatMap (fun m => solidLines ("module " ++ m).toList) ++
    solidLines (r.newHeader c).toList

/-- A line that is no end is in the new file if and only if it is in the frame or was inside the
class. -/
theorem ClassCut.mem_movedClass_iff {name : String} {text : List Char} (cut : ClassCut name text)
    {c : ClassText} (hbody : c.body.toList = Text.trimNewlines (Text.dedent cut.inner))
    (r : Relocation) {line : List Char} (hline : line ≠ "end".toList) :
    line ∈ solidLines (r.movedClass c).toList ↔
      line ∈ solidLines cut.inner ∨ line ∈ r.frameLines c := by
  rw [Relocation.solidLines_movedClass, hbody, Text.solidLines_trimNewlines,
    Text.solidLines_dedent, Relocation.frameLines]
  simp only [List.mem_append, List.mem_singleton, List.mem_replicate, hline, and_false, or_false]
  constructor
  · rintro (hmodule | hheader | hinner)
    · exact .inr (.inl hmodule)
    · exact .inr (.inr hheader)
    · exact .inl hinner
  · rintro (hinner | hmodule | hheader)
    · exact .inr (.inr hinner)
    · exact .inl hmodule
    · exact .inr (.inl hheader)

/-- The new file has all the lines that the move owes it if and only if it has those from outside
the class. -/
theorem ClassCut.lines_kept_iff {name : String} {text : List Char} (cut : ClassCut name text)
    {c : ClassText} (hbody : c.body.toList = Text.trimNewlines (Text.dedent cut.inner))
    (r : Relocation) :
    (∀ line ∈ solidLines text, cut.Owed line → line ∈ solidLines (r.movedClass c).toList) ↔
      ∀ line ∈ cut.outsideLines, cut.Owed line →
        line ∈ solidLines cut.inner ∨ line ∈ r.frameLines c := by
  constructor
  · intro h line hline howed
    have hmoved := h line ((cut.mem_solidLines_iff line).mpr (.inl hline)) howed
    exact (cut.mem_movedClass_iff hbody r howed.1).mp hmoved
  · intro h line hline howed
    rw [cut.mem_movedClass_iff hbody r howed.1]
    obtain hout | hin := (cut.mem_solidLines_iff line).mp hline
    · exact h line hout howed
    · exact .inl hin

/-- A superclass is found in the new header if and only if it is a plain constant right after the
sign, or the words of the new header before its clause happen to begin it. -/
theorem superclass_in_header_iff {rest lead expr : List Char} (h : IsSuperclass rest lead expr)
    {c : ClassText} (hclause : c.superclass.toList = Text.trim (clauseOf rest)) (r : Relocation) :
    expr <:+: (r.newHeader c).toList ↔
      (lead.all Text.isSpaceOrTab = true ∧ expr.all isConstantChar = true) ∨
      ∃ s t, (r.newHeader c).toList = s ++ (expr ++ t) ∧
        s.length < ("class " ++ r.newName).length := by
  rw [← superclass_kept_iff h, ← hclause]
  obtain ⟨gap, tail, -, -, -, x, hx, hblank⟩ := h
  obtain ⟨expr, rfl⟩ := List.head?_eq_some_iff.mp hx
  obtain ⟨space, hspace, hheader⟩ : ∃ space : List Char, x ∉ space ∧ (r.newHeader c).toList =
      ("class " ++ r.newName).toList ++ (space ++ c.superclass.toList) := by
    rw [Relocation.newHeader]
    by_cases hempty : c.superclass = ""
    · exact ⟨[], by simp, by simp [hempty]⟩
    · refine ⟨[' '], ?_, by simp [hempty]⟩
      rintro hmem
      rw [List.mem_singleton.mp hmem] at hblank
      exact absurd hblank (by decide)
  rw [hheader, ← String.length_toList]
  generalize ("class " ++ r.newName).toList = words
  constructor
  -- An occurrence begins within the written words, or the whole of it stands behind them.
  · rintro ⟨s, t, hst⟩
    rw [List.append_assoc] at hst
    by_cases hlength : s.length < words.length
    · exact .inr ⟨s, t, hst.symm, hlength⟩
    · left
      obtain ⟨s, rfl⟩ : words <+: s :=
        List.prefix_of_prefix_length_le ⟨_, rfl⟩ ⟨_, hst⟩ (by omega)
      rw [List.append_assoc, List.append_cancel_left_eq] at hst
      exact infix_of_notMem space hspace ⟨s, t, by rw [← hst, List.append_assoc]⟩
  · rintro (hfound | ⟨s, t, hst, -⟩)
    · obtain ⟨s, t, hst⟩ := hfound
      exact ⟨words ++ space ++ s, t, by rw [← hst]; simp⟩
    · exact ⟨s, t, by rw [hst, List.append_assoc]⟩

/-! ### Editing files -/

namespace Run

variable {root : Root} {change : List Char → Except Failure (List Char)} {w w' : Workspace}

/-- An edit keeps the tree well formed and changes no other file. -/
theorem edit_eq_ok (ht : w.tree.WellFormed) {names : List String} (hne : names ≠ [])
    (hnames : ∀ name ∈ names, Path.IsName name) {changed : Bool}
    (h : exec (edit root change (Path.ofNames names)) w = (.ok changed, w')) :
    w'.tree.WellFormed ∧ ∀ q, q ≠ root.place ++ names → w'.tree.file? q = w.tree.file? q := by
  rw [edit, exec_tree_bind] at h
  split at h
  · rw [exec_note_bind] at h
    cases h
    exact ⟨ht, fun _ _ => rfl⟩
  · split at h
    · cases h
    · split at h
      · cases h
        exact ⟨ht, fun _ _ => rfl⟩
      · obtain ⟨_, w₁, hwrite, hrest⟩ := exec_bind_eq_ok h
        cases hrest
        obtain ⟨place, hplace⟩ := write_eq_ok hwrite
        obtain ⟨ht', hfiles⟩ := Tree.write_eq_ok ht hne hnames hplace
        exact ⟨ht', fun q hq => by rw [hfiles, if_neg hq]⟩

/-- Editing files keeps the tree well formed and changes no file that is not listed. -/
theorem editAll_eq_ok (ht : w.tree.WellFormed) {paths : List String}
    (hpaths : ∀ path ∈ paths, ∃ names, path = Path.ofNames names ∧ names ≠ [] ∧
      ∀ name ∈ names, Path.IsName name)
    {changed : List String} (h : exec (editAll root change paths) w = (.ok changed, w')) :
    w'.tree.WellFormed ∧ ∀ names, Path.ofNames names ∉ paths →
      w'.tree.file? (root.place ++ names) = w.tree.file? (root.place ++ names) := by
  induction paths generalizing w changed with
  | nil =>
    cases h
    exact ⟨ht, fun _ _ => rfl⟩
  | cons path rest ih =>
    rw [editAll] at h
    obtain ⟨edited, w₁, hedit, hrest⟩ := exec_bind_eq_ok h
    obtain ⟨more, w₂, hmore, hdone⟩ := exec_bind_eq_ok hrest
    cases hdone
    obtain ⟨names, rfl, hne, hnames⟩ := hpaths path (by simp)
    obtain ⟨ht₁, hsame⟩ := edit_eq_ok ht hne hnames hedit
    obtain ⟨ht₂, hsame'⟩ := ih ht₁ (fun p hp => hpaths p (by simp [hp])) hmore
    refine ⟨ht₂, fun others hothers => ?_⟩
    rw [List.mem_cons, not_or] at hothers
    have hplace : root.place ++ others ≠ root.place ++ names := by
      intro heq
      exact hothers.1 (congrArg _ (List.append_cancel_left heq))
    rw [hsame' others hothers.2, hsame _ hplace]

end Run

/-! ### Planned moves -/

/-- The paths of a move are those of names below the root. -/
structure Relocation.Named (r : Relocation) (source target : List String) : Prop where
  source_eq : r.source = Path.ofNames source
  target_eq : r.target = Path.ofNames target
  source_ne : source ≠ []
  target_ne : target ≠ []
  source_names : ∀ name ∈ source, Path.IsName name
  target_names : ∀ name ∈ target, Path.IsName name

/-- A move determines the names that it leads from and to. -/
theorem Relocation.Named.unique {r : Relocation} {source target source' target' : List String}
    (h : r.Named source target) (h' : r.Named source' target') :
    source = source' ∧ target = target' where
  left := Path.ofNames_inj h.source_ne h'.source_ne h.source_names h'.source_names
    (h.source_eq.symm.trans h'.source_eq)
  right := Path.ofNames_inj h.target_ne h'.target_ne h.target_names h'.target_names
    (h.target_eq.symm.trans h'.target_eq)

namespace Project

/-- All moves that are planned for a tree. -/
def planned (t : Tree) (root : Root) : List Relocation :=
  stockPlan t root ++ orderPlan t root ++ posPlan t root

theorem isName_ruby {base : String} (h : '/' ∉ base.toList) : Path.IsName (base ++ ".rb") := by
  have hlength : ∀ short : String, short.length < 3 → base ++ ".rb" ≠ short := by
    rintro short hshort rfl
    rw [String.length_append] at hshort
    have hruby : ".rb".length = 3 := by decide
    omega
  refine ⟨hlength _ (by decide), hlength _ (by decide), hlength _ (by decide), ?_⟩
  rw [String.toList_append, List.mem_append, not_or]
  exact ⟨h, by decide⟩

/-- A stem is the start of a name, so there is no slash in it. -/
theorem slash_notMem_stem {names : List String} (hnames : Path.AreNames names) :
    '/' ∉ (stem (Path.ofNames names)).toList := by
  rw [stem, Path.namesOf_ofNames hnames.ne_nil hnames.isName,
    List.getLast?_eq_some_getLast hnames.ne_nil]
  simp only [Option.getD_some, String.toList_ofList]
  exact fun hmem => (hnames.isName _ (List.getLast_mem hnames.ne_nil)).2.2.2
    (List.mem_of_mem_take hmem)

variable {t : Tree} {root : Root}

/-- A move from a file to a Ruby file in directories. -/
theorem named_of_ruby {r : Relocation} {names dirs : List String} {base : String}
    (hnames : Path.AreNames names) (hdirs : ∀ dir ∈ dirs, Path.IsName dir)
    (hbase : '/' ∉ base.toList) (hsource : r.source = Path.ofNames names)
    (htarget : r.target = Path.ofNames (dirs ++ [base ++ ".rb"])) :
    r.Named names (dirs ++ [base ++ ".rb"]) := by
  refine ⟨hsource, htarget, hnames.ne_nil, by simp, hnames.isName, fun name hname => ?_⟩
  obtain hdir | hlast := List.mem_append.mp hname
  · exact hdirs name hdir
  · rw [List.mem_singleton.mp hlast]
    exact isName_ruby hbase

theorem exists_named_stockRelocation {names : List String} (hnames : Path.AreNames names) :
    ∃ job, (stockRelocation (Path.ofNames names)).Named names
      (["app", "jobs", "sidekiq", "stock"] ++ [job ++ ".rb"]) := by
  let job := String.ofList ((stem (Path.ofNames names)).toList.take
    ((stem (Path.ofNames names)).length - "_stock_job".length))
  have hjob : '/' ∉ job.toList := by
    rw [String.toList_ofList]
    exact fun hmem => slash_notMem_stem hnames (List.mem_of_mem_take hmem)
  refine ⟨job, named_of_ruby hnames (by decide) hjob rfl ?_⟩
  apply String.toList_inj.mp
  rw [Path.toList_ofNames (by simp)]
  simp [stockRelocation, job, List.intercalate]

theorem exists_named_orderRelocation {kind : String} (hkind : kind ∈ orderKinds)
    {names : List String} (hnames : Path.AreNames names) :
    ∃ job, (orderRelocation kind (Path.ofNames names)).Named names
      (["app", "jobs", "sidekiq", "orders", kind] ++ [job ++ ".rb"]) := by
  have hdirs : ∀ dir ∈ ["app", "jobs", "sidekiq", "orders", kind], Path.IsName dir := by
    simp only [orderKinds, List.mem_cons, List.not_mem_nil, or_false] at hkind
    obtain rfl | rfl := hkind
    · decide
    · decide
  refine ⟨stem (Path.ofNames names),
    named_of_ruby hnames hdirs (slash_notMem_stem hnames) rfl ?_⟩
  apply String.toList_inj.mp
  rw [Path.toList_ofNames (by simp)]
  simp [orderRelocation, List.intercalate]

/-! The globs of the updates are plain. -/

theorem isPlain_rubyFiles : Glob.isPlain rubyFiles = true := by decide

theorem isPlain_apiFiles : ∀ glob ∈ apiFiles, Glob.isPlain glob = true := by decide

theorem isPlain_stockJobs : Glob.isPlain stockJobs = true := by decide

theorem isPlain_orderJobs : ∀ kind ∈ orderKinds,
    Glob.isPlain ("app/jobs/sidekiq_jobs/orders/" ++ kind ++ "/*.rb") = true := by
  decide

/-- A planned move goes from a path below the root to a path below the root. -/
theorem exists_named_of_planned (ht : t.WellFormed) {r : Relocation} (h : r ∈ planned t root) :
    ∃ source target, r.Named source target := by
  rw [planned, List.mem_append, List.mem_append] at h
  obtain (hstock | horder) | hpos := h
  · obtain ⟨path, hpath, rfl⟩ := List.mem_map.mp hstock
    obtain ⟨names, hnames, rfl, -⟩ := Glob.exists_names_of_mem_files? ht isPlain_stockJobs hpath
    exact ⟨names, _, (exists_named_stockRelocation hnames).choose_spec⟩
  · obtain ⟨kind, hkind, hmem⟩ := List.mem_flatMap.mp horder
    obtain ⟨path, hpath, rfl⟩ := List.mem_map.mp hmem
    obtain ⟨names, hnames, rfl, -⟩ :=
      Glob.exists_names_of_mem_files? ht (isPlain_orderJobs kind hkind) hpath
    exact ⟨names, _, (exists_named_orderRelocation hkind hnames).choose_spec⟩
  · have hr : r = posRelocation := by
      rw [posPlan] at hpos
      split at hpos
      · exact List.mem_singleton.mp hpos
      · cases hpos
    subst hr
    exact ⟨["app", "jobs", "check_job.rb"], ["app", "jobs", "sidekiq", "pos_status", "check.rb"],
      by decide, by decide, by decide, by decide, by decide, by decide⟩

/-! ### A move -/

variable {w w' : Workspace} {r : Relocation}

/-- A class whose new file is free is written there. -/
theorem writeTarget_eq_ok {c : ClassText} {written : List String}
    (hnew : w.tree.existsAt root r.target = false)
    (h : Run.exec (writeTarget root r c) w = (.ok written, w')) :
    ∃ place, w.tree.write root r.target (r.movedClass c).toList = .ok (w'.tree, place) := by
  rw [writeTarget, Run.exec_tree_bind, hnew] at h
  obtain ⟨_, w₁, hwrite, hdone⟩ := Run.exec_bind_eq_ok h
  cases hdone
  exact Run.write_eq_ok hwrite

/-- Pointing the references at the new name leaves both files of the move alone. -/
theorem updateReferences_eq_ok (ht : w.tree.WellFormed) {redirected : List String}
    (h : Run.exec (updateReferences root r) w = (.ok redirected, w')) :
    w'.tree.WellFormed ∧ ∀ names, Path.ofNames names = r.source ∨ Path.ofNames names = r.target →
      w'.tree.file? (root.place ++ names) = w.tree.file? (root.place ++ names) := by
  rw [updateReferences, Run.filesOf] at h
  obtain ⟨files, w₁, hfiles, hedit⟩ := Run.exec_bind_eq_ok h
  cases hfiles
  have hlisted : ∀ path ∈ (Glob.files? w.tree root rubyFiles).getD [], ∃ names,
      path = Path.ofNames names ∧ names ≠ [] ∧ ∀ name ∈ names, Path.IsName name := by
    intro path hpath
    obtain ⟨names, hnames, hpath, -⟩ :=
      Glob.exists_names_of_mem_files? ht isPlain_rubyFiles hpath
    exact ⟨names, hpath, hnames.ne_nil, hnames.isName⟩
  obtain ⟨ht', hsame⟩ := Run.editAll_eq_ok ht
    (fun path hpath => hlisted path (List.mem_of_mem_filter hpath)) hedit
  refine ⟨ht', fun names hnames => hsame names fun hmem => ?_⟩
  obtain ⟨-, hother⟩ := List.mem_filter.mp hmem
  simp only [Bool.and_eq_true, bne_iff_ne] at hother
  obtain hsource | htarget := hnames
  · exact hother.1.1 hsource
  · exact hother.1.2 htarget

/-- A move that ends with its stub: the class that was found is in its new file, and the stub is all
that is left in the old one. -/
theorem relocate_eq_ok (ht : w.tree.WellFormed) {source target : List String}
    (hnamed : r.Named source target) (hnew : w.tree.existsAt root r.target = false)
    {written : List String} (h : Run.exec (relocate root r) w = (.ok written, w'))
    (hstub : r.source ∈ written) :
    ∃ text c, w.tree.read root r.source = .ok text ∧ classIn? r.oldName text = some c ∧
      w'.tree.file? (root.place ++ target) = some (Text.encode (r.movedClass c).toList) ∧
      w'.tree.file? (root.place ++ source) = some (Text.encode r.stub.toList) := by
  rw [relocate, Run.exec_tree_bind] at h
  split at h
  · cases h
    cases hstub
  · rename_i text hread
    split at h
    · cases h
      cases hstub
    · split at h
      · cases h
        cases hstub
      · rename_i c hclass
        refine ⟨text, c, hread, hclass, ?_⟩
        obtain ⟨_, w₁, htarget, h₁⟩ := Run.exec_bind_eq_ok h
        obtain ⟨_, w₂, hreferences, h₂⟩ := Run.exec_bind_eq_ok h₁
        obtain ⟨_, w₃, hsource, h₃⟩ := Run.exec_bind_eq_ok h₂
        cases h₃
        -- The source exists and the target does not, so the stub is written beside the class.
        have hapart : root.place ++ target ≠ root.place ++ source := by
          intro heq
          obtain ⟨place, bytes, hlook, -⟩ := Tree.look_of_read hread
          rw [hnamed.target_eq, List.append_cancel_left heq, ← hnamed.source_eq, Tree.existsAt,
            hlook] at hnew
          cases hnew
        obtain ⟨place₁, hwrite₁⟩ := writeTarget_eq_ok hnew htarget
        rw [hnamed.target_eq] at hwrite₁
        obtain ⟨ht₁, hfiles₁⟩ := Tree.write_eq_ok ht hnamed.target_ne hnamed.target_names hwrite₁
        obtain ⟨ht₂, hfiles₂⟩ := updateReferences_eq_ok ht₁ hreferences
        obtain ⟨place₃, hwrite₃⟩ := Run.write_eq_ok hsource
        rw [hnamed.source_eq] at hwrite₃
        obtain ⟨-, hfiles₃⟩ := Tree.write_eq_ok ht₂ hnamed.source_ne hnamed.source_names hwrite₃
        change w₃.tree.file? _ = _ ∧ w₃.tree.file? _ = _
        rw [hfiles₃, if_neg hapart, hfiles₂ target (.inr hnamed.target_eq.symm), hfiles₁, if_pos rfl,
          hfiles₃, if_pos rfl]
        exact ⟨rfl, rfl⟩

/-- What a planned move to a free path keeps, if it ends with its stub. Of the lines of the file it
keeps all that it owes if and only if those outside the class are also inside it or in the frame of
the new file. A superclass gets into the new header if and only if it is a plain constant right after
the sign, or the words before the new clause happen to begin it. -/
theorem relocate_keeps_iff (ht : w.tree.WellFormed) (hr : r ∈ planned w.tree root)
    (hnew : w.tree.existsAt root r.target = false) {written : List String}
    (h : Run.exec (relocate root r) w = (.ok written, w')) (hstub : r.source ∈ written) :
    ∃ (source target : List String) (text : List Char) (c : ClassText)
      (cut : ClassCut r.oldName text),
      r.Named source target ∧ w.tree.read root r.source = .ok text ∧
      classIn? r.oldName text = some c ∧
      w'.tree.file? (root.place ++ source) = some (Text.encode r.stub.toList) ∧
      w'.tree.file? (root.place ++ target) = some (Text.encode (r.movedClass c).toList) ∧
      ((∀ line ∈ solidLines text, cut.Owed line → line ∈ solidLines (r.movedClass c).toList) ↔
        ∀ line ∈ cut.outsideLines, cut.Owed line →
          line ∈ solidLines cut.inner ∨ line ∈ r.frameLines c) ∧
      ∀ lead expr, IsSuperclass cut.rest lead expr →
        (expr <:+: (r.newHeader c).toList ↔
          (lead.all Text.isSpaceOrTab = true ∧ expr.all isConstantChar = true) ∨
          ∃ s t, (r.newHeader c).toList = s ++ (expr ++ t) ∧
            s.length < ("class " ++ r.newName).length) := by
  obtain ⟨source, target, hnamed⟩ := exists_named_of_planned ht hr
  obtain ⟨text, c, hread, hclass, htarget, hsource⟩ := relocate_eq_ok ht hnamed hnew h hstub
  obtain ⟨cut, hclause, hbody⟩ := exists_cut_of_classIn? hclass
  exact ⟨source, target, text, c, cut, hnamed, hread, hclass, hsource, htarget,
    cut.lines_kept_iff hbody r, fun lead expr hexpr => superclass_in_header_iff hexpr hclause r⟩

/-- No file but those of the move is there that could refer to the class. -/
theorem updateReferences_of_forall
    (h : ∀ path ∈ (Glob.files? w.tree root rubyFiles).getD [], path = r.source ∨ path = r.target) :
    Run.exec (updateReferences root r) w = (.ok [], w) := by
  have hnone : ((Glob.files? w.tree root rubyFiles).getD []).filter
      (fun path => path != r.source && path != r.target && !Path.isProtected path) = [] := by
    rw [List.filter_eq_nil_iff]
    intro path hpath
    obtain rfl | rfl := h path hpath <;> simp
  change Run.exec (Run.editAll root _ (((Glob.files? w.tree root rubyFiles).getD []).filter
    fun path => path != r.source && path != r.target && !Path.isProtected path)) w = _
  rw [hnone]
  rfl

/-- A move whose class is found, with both of its writes admitted and no other file to edit, ends
with its stub. -/
theorem exec_relocate_of_class {text : List Char} {c : ClassText} {w₁ w₂ : Workspace}
    {written : List String} (hread : w.tree.read root r.source = .ok text)
    (hopen : Relocation.stubHeader.toList.isPrefixOf text = false)
    (hclass : classIn? r.oldName text = some c)
    (htarget : Run.exec (writeTarget root r c) w = (.ok written, w₁))
    (hfiles : ∀ path ∈ (Glob.files? w₁.tree root rubyFiles).getD [],
      path = r.source ∨ path = r.target)
    (hsource : Run.exec (Run.write root r.source r.stub.toList) w₁ = (.ok (), w₂)) :
    ∃ w', Run.exec (relocate root r) w = (.ok (written ++ [r.source]), w') := by
  rw [relocate, Run.exec_tree_bind, hread]
  simp only [hopen, hclass, Bool.false_eq_true, if_false]
  rw [Run.exec_bind_of_ok htarget, Run.exec_bind_of_ok (updateReferences_of_forall hfiles),
    Run.exec_bind_of_ok hsource, Run.exec_note_bind, Run.exec_pure, List.append_nil]
  exact ⟨_, rfl⟩

/-- A file with a class that moves, and another one after it. -/
def checkFile : String := "class CheckJob < Struct.new(:id)\nend\nclass Helper\nend\n"

/-- What is taken out of the file. -/
def checkClass : ClassText := ⟨"< Struct", ""⟩

/-- An application with this file only. -/
def checkSpace : Workspace :=
  { tree := { files := [(["app", "jobs", "check_job.rb"], Text.encode checkFile.toList)] } }

/-- The application once the class is written to its new file. -/
def checkWritten : Workspace :=
  (Run.exec (writeTarget ⟨[], "."⟩ posRelocation checkClass) checkSpace).2

/-- What the move starts from: its plan, its target and the class at its source. -/
theorem checkSpace_facts :
    posPlan checkSpace.tree ⟨[], "."⟩ = [posRelocation] ∧
      checkSpace.tree.existsAt ⟨[], "."⟩ posRelocation.target = false ∧
      (checkSpace.tree.read ⟨[], "."⟩ posRelocation.source).toOption = some checkFile.toList ∧
      classIn? posRelocation.oldName checkFile.toList = some checkClass := by
  decide +kernel

theorem mem_planned_checkSpace : posRelocation ∈ planned checkSpace.tree ⟨[], "."⟩ := by
  rw [planned, checkSpace_facts.1]
  exact List.mem_append_right _ List.mem_cons_self

theorem existsAt_target_checkSpace :
    checkSpace.tree.existsAt ⟨[], "."⟩ posRelocation.target = false :=
  checkSpace_facts.2.1

theorem read_checkSpace :
    checkSpace.tree.read ⟨[], "."⟩ posRelocation.source = .ok checkFile.toList :=
  Run.eq_ok_of_toOption checkSpace_facts.2.2.1

theorem classIn?_checkFile :
    classIn? posRelocation.oldName checkFile.toList = some checkClass :=
  checkSpace_facts.2.2.2

/-- The class of the file moves. -/
theorem exists_exec_relocate_check : ∃ w',
    Run.exec (relocate ⟨[], "."⟩ posRelocation) checkSpace =
      (.ok [posRelocation.target, posRelocation.source], w') := by
  have htarget : (Run.exec (writeTarget ⟨[], "."⟩ posRelocation checkClass) checkSpace).1 =
      .ok [posRelocation.target] := Run.eq_ok_of_toOption (by decide +kernel)
  have hfound : (Braces.expand rubyFiles).mapM (Glob.filesOf? checkWritten.tree ⟨[], "."⟩) =
      some [[posRelocation.source, posRelocation.target]] := by decide +kernel
  have hsource : (Run.exec (Run.write ⟨[], "."⟩ posRelocation.source posRelocation.stub.toList)
      checkWritten).1 = .ok () := Run.eq_ok_of_toOption (by decide +kernel)
  have hfiles : ∀ path ∈ (Glob.files? checkWritten.tree ⟨[], "."⟩ rubyFiles).getD [],
      path = posRelocation.source ∨ path = posRelocation.target := by
    intro path hpath
    rw [Glob.files?, hfound, Option.map_some, Option.getD_some, mem_sortedTexts, mem_distinct]
      at hpath
    simpa using hpath
  exact exec_relocate_of_class read_checkSpace (by decide +kernel) classIn?_checkFile
    (Prod.ext htarget rfl) hfiles (Prod.ext hsource rfl)

/-- The file at the conditions: the other class is owed and not kept, and the superclass is no plain
constant. -/
theorem relocate_keeps_iff_check : ∃ written w',
    Run.exec (relocate ⟨[], "."⟩ posRelocation) checkSpace = (.ok written, w') ∧
      posRelocation.source ∈ written ∧
      ∃ (text : List Char) (c : ClassText) (cut : ClassCut posRelocation.oldName text),
        checkSpace.tree.read ⟨[], "."⟩ posRelocation.source = .ok text ∧
        ((∀ line ∈ solidLines text, cut.Owed line →
            line ∈ solidLines (posRelocation.movedClass c).toList) ↔
          ∀ line ∈ cut.outsideLines, cut.Owed line →
            line ∈ solidLines cut.inner ∨ line ∈ posRelocation.frameLines c) := by
  obtain ⟨w', h⟩ := exists_exec_relocate_check
  obtain ⟨source, target, text, c, cut, hnamed, hread, hclass, hsource, htarget, hlines, -⟩ :=
    relocate_keeps_iff (by decide) mem_planned_checkSpace existsAt_target_checkSpace h (by decide)
  exact ⟨_, w', h, by decide, text, c, cut, hread, hlines⟩

/-- Code around the class and a part of its superclass are in none of the files after the move. -/
theorem relocate_check_loses :
    posRelocation ∈ planned checkSpace.tree ⟨[], "."⟩ ∧
      checkSpace.tree.existsAt ⟨[], "."⟩ posRelocation.target = false ∧
      ∃ w', Run.exec (relocate ⟨[], "."⟩ posRelocation) checkSpace =
          (.ok [posRelocation.target, posRelocation.source], w') ∧
        w'.tree.file? ["app", "jobs", "sidekiq", "pos_status", "check.rb"] =
          some (Text.encode (posRelocation.movedClass checkClass).toList) ∧
        "class Helper".toList ∈ solidLines checkFile.toList ∧
        "class Helper".toList ∉ solidLines (posRelocation.movedClass checkClass).toList ∧
        "class Check < Struct".toList ∈
          solidLines (posRelocation.movedClass checkClass).toList ∧
        ¬ "Struct.new(:id)".toList <:+: (posRelocation.newHeader checkClass).toList := by
  obtain ⟨w', h⟩ := exists_exec_relocate_check
  have hnamed : posRelocation.Named ["app", "jobs", "check_job.rb"]
      ["app", "jobs", "sidekiq", "pos_status", "check.rb"] :=
    ⟨by decide, by decide, by decide, by decide, by decide, by decide⟩
  obtain ⟨text, c, hread', hclass', htarget, -⟩ :=
    relocate_eq_ok (by decide) hnamed existsAt_target_checkSpace h (by decide)
  obtain rfl : checkFile.toList = text := Except.ok.inj (read_checkSpace.symm.trans hread')
  obtain rfl : checkClass = c := Option.some.inj (classIn?_checkFile.symm.trans hclass')
  exact ⟨mem_planned_checkSpace, existsAt_target_checkSpace, w', h, htarget, by decide +kernel,
    by decide +kernel, by decide +kernel, by decide +kernel⟩

end Project

end RailsUpgrade
