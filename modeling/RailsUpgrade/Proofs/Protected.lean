import RailsUpgrade.Path.Protected
import RailsUpgrade.Proofs.Footprint
import RailsUpgrade.Proofs.Framed

/-!
# `RailsUpgrade.Proofs.Protected`: which protected files an upgrade spares

A path is protected if a pattern is found in it. The first part reads the pattern off the names of
the path: it ends with the name of a generated file, or with a directory that belongs to others and
what lies in it. The second part goes through `Project.Touches`, the places where an upgrade writes
files. Repairs and references ask whether a path is protected, and the Gemfile and the configuration
files are not. What is left are the migrations and `Project.Unguarded`.

* `Path.exists_owned_of_isProtected`: a protected path ends with names that are `Path.Owned`;
* `Path.isProtected_iff_segments`: and every path that does is protected, told name by name;
* `Path.mem_protectedFiles_of_isProtected`: below other directories it is the name of the file that
  makes a path protected;
* `Project.unguarded_of_touches`: the protected files that an upgrade may reach;
* `Project.upgrade_spares_protected`: all others stay as they were, however it ends;
* `Project.upgrade_renames_vendored`: a file of a third party that does not.
-/

set_option autoImplicit false

namespace RailsUpgrade

namespace Path

open Pattern (Expr Cursor mem_ends_seq mem_ends_alt mem_ends_chars mem_ends_literal mem_ends_anchor
  canTake_seq canTake_alt canTake_one canTake_anchor canTake_chars canTake_literal)

/-! ### Protected paths, name by name -/

/-- The names of files that are generated. The place before a final line feed counts as the end of a
path. -/
def protectedFiles : List String := ["schema.rb", "schema.rb\n", "structure.sql", "structure.sql\n"]

/-- The directories that belong to others. -/
def protectedDirs : List String := ["migrate", "vendor", "node_modules", ".bundle"]

/-- Names that make every path protected that ends with them. -/
inductive Owned : List String → Prop
  | file {name : String} (isFile : name ∈ protectedFiles) : Owned [name]
  | dir {name : String} {more : List String} (isDir : name ∈ protectedDirs) (ne_nil : more ≠ []) :
      Owned (name :: more)
  | data {more : List String} (ne_nil : more ≠ []) : Owned ("db" :: "data" :: more)

/-- The names between the slashes of a text, empty ones included. -/
def segments (text : List Char) : List String := (Text.splitChar '/' text).map String.ofList

theorem segments_append_cons (s t : List Char) :
    segments (s ++ '/' :: t) = segments s ++ segments t := by
  simp only [segments, Text.splitChar_eq_splitOn]
  rw [List.splitOn_append_cons_self, List.map_append]

theorem segments_of_notMem {s : List Char} (h : '/' ∉ s) : segments s = [String.ofList s] := by
  simp [segments, Text.splitChar_eq_splitOn, List.splitOn_eq_singleton h]

theorem segments_ne_nil (s : List Char) : segments s ≠ [] := by
  simp [segments, Text.splitChar_eq_splitOn]

theorem segments_ofNames {names : List String} (h : AreNames names) :
    segments (ofNames names).toList = names := by
  simp [segments, splitChar_ofNames h.ne_nil h.isName]

/-- Directories at the start of a path, with all that lies in them. -/
def insideExpr (dirs : String) : Expr := .literal (dirs.toList ++ ['/'])

/-- What the pattern looks for where a name begins. -/
def ownedExpr : Expr :=
  .alt (.chars "schema.rb" (.anchor .lastLineEnd)) (.alt (.chars "structure.sql" (.anchor .lastLineEnd))
    (.alt (insideExpr "migrate") (.alt (insideExpr "db/data") (.alt (insideExpr "vendor")
      (.alt (insideExpr "node_modules") (insideExpr ".bundle"))))))

/-- The pattern of protected paths. -/
def protectedExpr : Expr := .seq (.alt (.anchor .textStart) (.one (.single '/'))) ownedExpr

-- The pattern is spelled as a text. It is read here once, and later proofs run the expression.
theorem isProtected_eq (path : String) : isProtected path = protectedExpr.found path.toList := by
  have hexpr : protectedPattern.expr = protectedExpr :=
    Pattern.expr_fixed String.toList_ofList (by decide +kernel)
  rw [isProtected, Pattern.found, hexpr]

variable {c c' : Cursor}

/-- A generated file is matched to the end of the path. -/
theorem owned_of_mem_ends_file {name : String} (hname : name ∈ protectedFiles)
    (hfeed : name ++ "\n" ∈ protectedFiles) (hslash : '/' ∉ name.toList)
    (h : c' ∈ (Expr.chars name (.anchor .lastLineEnd)).ends c) : Owned (segments c.after) := by
  obtain ⟨mid, htakes, hend⟩ := mem_ends_chars h
  obtain ⟨-, hholds⟩ := mem_ends_anchor.mp hend
  simp only [Pattern.Anchor.holds, Bool.or_eq_true, List.isEmpty_iff, beq_iff_eq] at hholds
  rw [htakes.after]
  obtain hafter | hafter := hholds
  · rw [hafter, List.append_nil, segments_of_notMem hslash, String.ofList_toList]
    exact .file hname
  · rw [hafter, segments_of_notMem (by simpa using hslash), String.ofList_append,
      String.ofList_toList]
    exact .file hfeed

theorem segments_of_mem_ends_inside {dirs : String} (h : c' ∈ (insideExpr dirs).ends c) :
    segments c.after = segments dirs.toList ++ segments c'.after := by
  obtain ⟨htakes, -⟩ := mem_ends_literal h
  rw [htakes.after, List.append_assoc, List.singleton_append, segments_append_cons]

theorem owned_of_mem_ends_inside {dir : String} (hdir : dir ∈ protectedDirs)
    (h : c' ∈ (insideExpr dir).ends c) : Owned (segments c.after) := by
  have hslash : ∀ dir ∈ protectedDirs, '/' ∉ dir.toList := by decide
  rw [segments_of_mem_ends_inside h, segments_of_notMem (hslash dir hdir), String.ofList_toList]
  exact .dir hdir (segments_ne_nil _)

theorem owned_of_mem_ends (h : c' ∈ ownedExpr.ends c) : Owned (segments c.after) := by
  simp only [ownedExpr, mem_ends_alt] at h
  obtain h | h | h | h | h | h | h := h
  · exact owned_of_mem_ends_file (by decide) (by decide) (by decide) h
  · exact owned_of_mem_ends_file (by decide) (by decide) (by decide) h
  · exact owned_of_mem_ends_inside (by decide) h
  · rw [segments_of_mem_ends_inside h]
    exact .data (segments_ne_nil _)
  · exact owned_of_mem_ends_inside (by decide) h
  · exact owned_of_mem_ends_inside (by decide) h
  · exact owned_of_mem_ends_inside (by decide) h

/-- A protected path ends with names that are owned, each of them a whole name of the path. -/
theorem exists_owned_of_isProtected {path : String} (h : isProtected path = true) :
    ∃ front back, segments path.toList = front ++ back ∧ Owned back := by
  rw [isProtected_eq] at h
  obtain ⟨skipped, rest, c, htext, hends⟩ := Pattern.exists_ends_of_found h
  obtain ⟨mid, hlead, hmid⟩ := mem_ends_seq.mp hends
  obtain hstart | hslash := mem_ends_alt.mp hlead
  · obtain ⟨rfl, hholds⟩ := mem_ends_anchor.mp hstart
    obtain rfl : skipped = [] := by simpa [Pattern.Anchor.holds] using hholds
    exact ⟨[], segments rest, by simp [htext], owned_of_mem_ends hmid⟩
  · obtain ⟨htakes, -⟩ := mem_ends_literal (s := ['/']) hslash
    refine ⟨segments skipped, segments mid.after, ?_, owned_of_mem_ends hmid⟩
    have hrest : rest = '/' :: mid.after := htakes.after
    rw [htext, hrest, segments_append_cons]

/-- Below directories that are not owned, only the name of a file makes a path protected. -/
theorem mem_protectedFiles_of_isProtected {dirs : List String} {name : String}
    (hnames : AreNames (dirs ++ [name])) (hdirs : ∀ dir ∈ dirs, dir ∉ "db" :: protectedDirs)
    (h : isProtected (ofNames (dirs ++ [name])) = true) : name ∈ protectedFiles := by
  obtain ⟨front, back, hback, howned⟩ := exists_owned_of_isProtected h
  rw [segments_ofNames hnames] at hback
  -- A name that others follow is not the last one.
  have hmem : ∀ dir more, back = dir :: more → more ≠ [] → dir ∈ dirs := by
    rintro dir more rfl hne
    have hdirs : dirs = front ++ dir :: more.dropLast := calc
      dirs = (dirs ++ [name]).dropLast := List.dropLast_concat.symm
      _ = (front ++ dir :: more).dropLast := by rw [hback]
      _ = front ++ dir :: more.dropLast := by
        rw [List.dropLast_append_cons, List.dropLast_cons_of_ne_nil hne]
    simp [hdirs]
  cases howned with
  | file hfile =>
    obtain ⟨-, hlast⟩ := List.append_inj' hback rfl
    rwa [List.singleton_inj.mp hlast]
  | dir hdir hne => exact absurd (.tail _ hdir) (hdirs _ (hmem _ _ rfl hne))
  | data hne => exact absurd (.head _) (hdirs _ (hmem _ _ rfl (by simp)))

/-! ### What makes a path protected -/

/-- The first of several names is what stands in front of a slash. -/
theorem exists_of_segments_cons {text : List Char} {name : String} {more : List String}
    (h : segments text = name :: more) (hmore : more ≠ []) :
    ∃ rest, text = name.toList ++ '/' :: rest ∧ segments rest = more := by
  have hslash : '/' ∈ text := by
    by_contra hslash
    rw [segments_of_notMem hslash] at h
    exact hmore (List.cons_eq_cons.mp h).2.symm
  obtain ⟨s, rest, rfl, hs⟩ := List.eq_append_cons_of_mem hslash
  rw [segments_append_cons, segments_of_notMem hs] at h
  obtain ⟨rfl, hrest⟩ := List.cons_eq_cons.mp h
  exact ⟨rest, by rw [String.toList_ofList], hrest⟩

/-- The last names are those of a text, or of what follows one of its slashes. -/
theorem exists_of_segments_append {text : List Char} {front back : List String}
    (h : segments text = front ++ back) (hback : back ≠ []) :
    segments text = back ∨ ∃ lead rest, text = lead ++ '/' :: rest ∧ segments rest = back := by
  induction front generalizing text with
  | nil => exact .inl h
  | cons name front ih =>
    right
    obtain ⟨rest, rfl, hrest⟩ := exists_of_segments_cons h (by simp [hback])
    obtain hwhole | ⟨lead, rest', rfl, hrest'⟩ := ih hrest
    · exact ⟨_, rest, rfl, hwhole⟩
    · exact ⟨name.toList ++ '/' :: lead, rest', by simp, hrest'⟩

/-- A single name is the whole text. -/
theorem eq_of_segments_singleton {text : List Char} {name : String} (h : segments text = [name]) :
    text = name.toList := by
  have hslash : '/' ∉ text := by
    intro hslash
    obtain ⟨s, rest, rfl, -⟩ := List.eq_append_cons_of_mem hslash
    rw [segments_append_cons] at h
    have hlength := congrArg List.length h
    have hs := List.length_pos_iff.mpr (segments_ne_nil s)
    have hrest := List.length_pos_iff.mpr (segments_ne_nil rest)
    simp at hlength
    omega
  rw [segments_of_notMem hslash] at h
  rw [← List.singleton_inj.mp h, String.toList_ofList]

theorem Owned.ne_nil {back : List String} (h : Owned back) : back ≠ [] := by
  cases h <;> simp

/-- The name of a generated file is taken at the end of a path. -/
theorem canTake_file (name : String) {tail before : List Char} (htail : tail = [] ∨ tail = ['\n']) :
    (Expr.chars name (.anchor .lastLineEnd)).CanTake before name.toList tail := by
  rw [← List.append_nil name.toList]
  refine canTake_chars (canTake_anchor fun c _ hafter => ?_)
  rw [Pattern.Anchor.holds, hafter]
  obtain rfl | rfl := htail <;> rfl

/-- Directories of others are taken with the slash behind them. -/
theorem canTake_inside {dirs : String}
    (h : dirs ∈ ["migrate", "db/data", "vendor", "node_modules", ".bundle"]) {before after : List Char} :
    ownedExpr.CanTake before (dirs.toList ++ ['/']) after := by
  refine canTake_alt (.inr (canTake_alt (.inr ?_)))
  simp only [List.mem_cons, List.not_mem_nil, or_false] at h
  obtain rfl | rfl | rfl | rfl | rfl := h
  · exact canTake_alt (.inl canTake_literal)
  · exact canTake_alt (.inr (canTake_alt (.inl canTake_literal)))
  · exact canTake_alt (.inr (canTake_alt (.inr (canTake_alt (.inl canTake_literal)))))
  · exact canTake_alt (.inr (canTake_alt (.inr (canTake_alt (.inr (canTake_alt
      (.inl canTake_literal)))))))
  · exact canTake_alt (.inr (canTake_alt (.inr (canTake_alt (.inr (canTake_alt
      (.inr canTake_literal)))))))

/-- What is owned can be taken where its first name begins. -/
theorem exists_canTake_of_owned {text : List Char} (h : Owned (segments text)) (before : List Char) :
    ∃ taken after, text = taken ++ after ∧ ownedExpr.CanTake before taken after := by
  generalize hnames : segments text = names at h
  cases h with
  | @file name isFile =>
    rw [eq_of_segments_singleton hnames]
    simp only [protectedFiles, List.mem_cons, List.not_mem_nil, or_false] at isFile
    obtain rfl | rfl | rfl | rfl := isFile
    · exact ⟨_, [], by simp, canTake_alt (.inl (canTake_file "schema.rb" (.inl rfl)))⟩
    · exact ⟨_, ['\n'], by simp, canTake_alt (.inl (canTake_file "schema.rb" (.inr rfl)))⟩
    · exact ⟨_, [], by simp, canTake_alt (.inr (canTake_alt (.inl
        (canTake_file "structure.sql" (.inl rfl)))))⟩
    · exact ⟨_, ['\n'], by simp, canTake_alt (.inr (canTake_alt (.inl
        (canTake_file "structure.sql" (.inr rfl)))))⟩
  | @dir name more isDir ne_nil =>
    obtain ⟨rest, rfl, -⟩ := exists_of_segments_cons hnames ne_nil
    have hdirs : ∀ dir ∈ protectedDirs,
        dir ∈ ["migrate", "db/data", "vendor", "node_modules", ".bundle"] := by decide
    exact ⟨name.toList ++ ['/'], rest, by simp, canTake_inside (hdirs name isDir)⟩
  | @data more ne_nil =>
    obtain ⟨rest, rfl, hrest⟩ := exists_of_segments_cons hnames (by simp)
    obtain ⟨rest, rfl, -⟩ := exists_of_segments_cons hrest ne_nil
    exact ⟨"db/data".toList ++ ['/'], rest, by simp, canTake_inside (by decide)⟩

/-- A path is protected if it ends with names that are owned. -/
theorem isProtected_of_owned {path : String} {front back : List String}
    (h : segments path.toList = front ++ back) (howned : Owned back) : isProtected path = true := by
  rw [isProtected_eq]
  obtain hwhole | ⟨lead, rest, hpath, rfl⟩ := exists_of_segments_append h howned.ne_nil
  · obtain ⟨taken, after, hpath, htake⟩ := exists_canTake_of_owned (hwhole ▸ howned) []
    have hstart : (Expr.alt (.anchor .textStart) (.one (.single '/'))).CanTake [] [] (taken ++ after) :=
      canTake_alt (.inl (canTake_anchor fun c hbefore _ => by simp [Pattern.Anchor.holds, hbefore]))
    rw [hpath]
    exact @Pattern.found_of_canTake _ [] _ _ (canTake_seq hstart htake)
  · obtain ⟨taken, after, rfl, htake⟩ := exists_canTake_of_owned howned ('/' :: lead.reverse)
    have hslash : (Expr.alt (.anchor .textStart) (.one (.single '/'))).CanTake lead.reverse ['/']
        (taken ++ after) := canTake_alt (.inr (canTake_one (by simp)))
    rw [hpath]
    exact Pattern.found_of_canTake (canTake_seq hslash htake)

/-- Names that end with owned ones, told by their numbers: the last one is that of a file, or one with
others behind it is that of a directory. -/
theorem exists_owned_iff {names : List String} :
    (∃ front back, names = front ++ back ∧ Owned back) ↔
      (∃ name ∈ protectedFiles, names.getLast? = some name) ∨
      (∃ i, ∃ name ∈ protectedDirs, names[i]? = some name ∧ i + 1 < names.length) ∨
      ∃ i, names[i]? = some "db" ∧ names[i + 1]? = some "data" ∧ i + 2 < names.length := by
  constructor
  -- From left to right each way of being owned gives the place where the owned part begins.
  · rintro ⟨front, back, rfl, howned⟩
    cases howned with
    | @file name isFile => exact .inl ⟨name, isFile, by simp⟩
    | @dir name more isDir ne_nil =>
      have hmore := List.length_pos_iff.mpr ne_nil
      refine .inr (.inl ⟨front.length, name, isDir, by simp, ?_⟩)
      rw [List.length_append, List.length_cons]
      omega
    | @data more ne_nil =>
      have hmore := List.length_pos_iff.mpr ne_nil
      refine .inr (.inr ⟨front.length, by simp, by simp, ?_⟩)
      rw [List.length_append, List.length_cons, List.length_cons]
      omega
  -- From right to left the path is cut at that place.
  · rintro (⟨name, hfile, hlast⟩ | ⟨i, name, hdir, hname, hi⟩ | ⟨i, hdb, hdata, hi⟩)
    · obtain ⟨front, rfl⟩ := List.getLast?_eq_some_iff.mp hlast
      exact ⟨front, [name], rfl, .file hfile⟩
    · obtain ⟨hlt, rfl⟩ := List.getElem?_eq_some_iff.mp hname
      refine ⟨names.take i, names.drop i, (List.take_append_drop i names).symm, ?_⟩
      rw [List.drop_eq_getElem_cons hlt]
      exact .dir hdir (by simpa using hi)
    · obtain ⟨hlt, hdb⟩ := List.getElem?_eq_some_iff.mp hdb
      obtain ⟨hlt', hdata⟩ := List.getElem?_eq_some_iff.mp hdata
      refine ⟨names.take i, names.drop i, (List.take_append_drop i names).symm, ?_⟩
      rw [List.drop_eq_getElem_cons hlt, hdb, List.drop_eq_getElem_cons hlt', hdata]
      exact .data (by simpa using hi)

/-- A path is protected exactly if its last name is that of a generated file, with or without a line
feed behind it, or a name before the last one is that of a directory of others, or `db` and `data`
stand one after the other before the last name. -/
theorem isProtected_iff_segments (path : String) : isProtected path = true ↔
    (∃ name ∈ protectedFiles, (segments path.toList).getLast? = some name) ∨
    (∃ i, ∃ name ∈ protectedDirs, (segments path.toList)[i]? = some name ∧
      i + 1 < (segments path.toList).length) ∨
    ∃ i, (segments path.toList)[i]? = some "db" ∧ (segments path.toList)[i + 1]? = some "data" ∧
      i + 2 < (segments path.toList).length := by
  rw [← exists_owned_iff]
  constructor
  · exact exists_owned_of_isProtected
  · rintro ⟨front, back, hnames, howned⟩
    exact isProtected_of_owned hnames howned

end Path

namespace Project

variable {o : Options} {names source target : List String} {r : Relocation}

/-! ### Moves from and to protected paths -/

/-- The protected files that are written all the same: nothing stops the new name of the module, and
a class may be moved out of or into a file that has the name of a schema. -/
inductive Unguarded (o : Options) : List String → Prop
  | api (glob : String) (names : List String)
      (wanted : (o.updateJobNamespaces || o.updateApiModule) = true) (isApi : glob ∈ apiFiles)
      (covers : Glob.covers glob names = true) : Unguarded o names
  | stockTarget (wanted : (o.updateJobNamespaces || o.updateStockJobs) = true) :
      Unguarded o ["app", "jobs", "sidekiq", "stock", "schema.rb"]
  | orderSource (kind : String) (wanted : (o.updateJobNamespaces || o.updateOrderJobs) = true)
      (isKind : kind ∈ orderKinds) :
      Unguarded o ["app", "jobs", "sidekiq_jobs", "orders", kind, "schema.rb"]
  | orderTarget (kind : String) (wanted : (o.updateJobNamespaces || o.updateOrderJobs) = true)
      (isKind : kind ∈ orderKinds) :
      Unguarded o ["app", "jobs", "sidekiq", "orders", kind, "schema.rb"]

theorem eq_schema_of_ruby {base : String} (h : base ++ ".rb" ∈ Path.protectedFiles) :
    base ++ ".rb" = "schema.rb" := by
  have hends : ∀ name ∈ Path.protectedFiles, name.toList.getLast? = some 'b' → name = "schema.rb" := by
    decide
  exact hends _ h (by simp)

/-- The directories of jobs about orders belong to the application. -/
theorem orderDirs_unowned {kind : String} (hkind : kind ∈ orderKinds) :
    ∀ dir ∈ ["app", "jobs", "sidekiq", "sidekiq_jobs", "orders", kind],
      dir ∉ "db" :: Path.protectedDirs := by
  simp only [orderKinds, List.mem_cons, List.not_mem_nil, or_false] at hkind
  obtain rfl | rfl := hkind
  · decide
  · decide

theorem unguarded_of_source (hasked : Asked o r) (hnamed : r.Named source target)
    (hprotected : Path.isProtected (Path.ofNames source) = true) : Unguarded o source := by
  have hnames : Path.AreNames source := ⟨hnamed.source_ne, hnamed.source_names⟩
  cases hasked with
  | stock names hwanted hstock hcovers =>
    obtain ⟨job, hjob⟩ := exists_named_stockRelocation hstock
    obtain ⟨rfl, rfl⟩ := hjob.unique hnamed
    obtain ⟨name, rfl, hfits⟩ := covers_stockJobs hcovers
    have hname := Path.mem_protectedFiles_of_isProtected hnames (by decide) hprotected
    -- No protected file has the name of a stock job.
    have hnone : ∀ name ∈ Path.protectedFiles,
        Glob.nameFits "*_stock_job.rb".toList name = false := by
      decide
    rw [hnone name hname] at hfits
    cases hfits
  | order kind names hwanted hkind horder hcovers =>
    obtain ⟨job, hjob⟩ := exists_named_orderRelocation hkind horder
    obtain ⟨rfl, rfl⟩ := hjob.unique hnamed
    obtain ⟨name, rfl, hfits⟩ := covers_orderJobs hkind hcovers
    have hname := Path.mem_protectedFiles_of_isProtected hnames
      (fun dir hdir => orderDirs_unowned hkind dir (by grind)) hprotected
    -- Among the protected files only the schema ends like an order's job.
    have hschema : ∀ name ∈ Path.protectedFiles,
        Glob.nameFits "*.rb".toList name = true → name = "schema.rb" := by
      decide
    rw [hschema name hname hfits]
    exact .orderSource kind hwanted hkind
  | pos hwanted =>
    have hopen : Path.isProtected posRelocation.source = false := by
      rw [Path.isProtected_eq]
      decide
    rw [← hnamed.source_eq, hopen] at hprotected
    cases hprotected

theorem unguarded_of_target (hasked : Asked o r) (hnamed : r.Named source target)
    (hprotected : Path.isProtected (Path.ofNames target) = true) : Unguarded o target := by
  have hnames : Path.AreNames target := ⟨hnamed.target_ne, hnamed.target_names⟩
  cases hasked with
  | stock names hwanted hstock hcovers =>
    obtain ⟨job, hjob⟩ := exists_named_stockRelocation hstock
    obtain ⟨rfl, rfl⟩ := hjob.unique hnamed
    have hname := Path.mem_protectedFiles_of_isProtected hnames (by decide) hprotected
    rw [eq_schema_of_ruby hname]
    exact .stockTarget hwanted
  | order kind names hwanted hkind horder hcovers =>
    obtain ⟨job, hjob⟩ := exists_named_orderRelocation hkind horder
    obtain ⟨rfl, rfl⟩ := hjob.unique hnamed
    have hname := Path.mem_protectedFiles_of_isProtected hnames
      (fun dir hdir => orderDirs_unowned hkind dir (by grind)) hprotected
    rw [eq_schema_of_ruby hname]
    exact .orderTarget kind hwanted hkind
  | pos hwanted =>
    have hopen : Path.isProtected posRelocation.target = false := by
      rw [Path.isProtected_eq]
      decide
    rw [← hnamed.target_eq, hopen] at hprotected
    cases hprotected

/-- A protected file that an upgrade reaches is a migration or not guarded. -/
theorem unguarded_of_touches {root : Root} {start : Tree} {files : List String} {there : Bool}
    (h : Touches root start o files there names)
    (hprotected : Path.isProtected (Path.ofNames names) = true) :
    (o.updateMigrations = true ∧ Glob.covers migrations names = true) ∨ Unguarded o names := by
  cases h with
  | repair _ _ hopen => simp [hprotected] at hopen
  | gemfile _ =>
    have hopen : Path.isProtected (Path.ofNames ["Gemfile"]) = false := by
      rw [Path.isProtected_eq]
      decide
    rw [hopen] at hprotected
    cases hprotected
  | config e _ he =>
    have hopen : ∀ e ∈ FrameworkConfig.edits,
        Path.isProtected (Path.ofNames (Path.namesOf e.path)) = false := by
      simp only [Path.isProtected_eq]
      decide
    rw [hopen e he] at hprotected
    cases hprotected
  | migration _ hwanted hcovers => exact .inl ⟨hwanted, hcovers⟩
  | api glob _ hwanted hglob hcovers => exact .inr (.api glob names hwanted hglob hcovers)
  | source r _ target hasked hnamed => exact .inr (unguarded_of_source hasked hnamed hprotected)
  | target r source _ hasked hnamed _ => exact .inr (unguarded_of_target hasked hnamed hprotected)
  | reference r _ _ _ hopen => simp [hprotected] at hopen

/-- However an upgrade ends, it leaves protected files as they were, and makes none, but for
migrations that it was asked to update and for files that nothing guards. -/
theorem upgrade_spares_protected (root : Root) (registry : Registry) (o : Options) {w : Workspace}
    (ht : w.tree.WellFormed) (hplain : ∀ d ∈ registry.detections, Glob.isPlain d.glob = true)
    {names : List String} (hprotected : Path.isProtected (Path.ofNames names) = true)
    (hmigration : ¬ (o.updateMigrations = true ∧ Glob.covers migrations names = true))
    (hguarded : ¬ Unguarded o names) :
    (Run.exec (upgrade root registry o) w).2.tree.file? (root.place ++ names) =
      w.tree.file? (root.place ++ names) := by
  obtain ⟨told, htold, -⟩ := told_upgrade root registry o ht hplain
  by_contra hchanged
  obtain ⟨others, -, hplace, htouches, -⟩ := htold.files _ hchanged
  obtain rfl := List.append_cancel_left hplace
  obtain h | h := unguarded_of_touches htouches hprotected
  · exact hmigration h
  · exact hguarded h

/-- Two modules of third parties. -/
def vendoredSpace : Workspace where
  tree := { files :=
    [(["app", "controllers", "api", "vendor", "v.rb"], Text.encode "module API\nend\n".toList),
     (["vendor", "v.rb"], Text.encode "module API\nend\n".toList)] }

/-- Where the API is, a protected file is changed. -/
theorem upgrade_renames_vendored :
    Path.isProtected (Path.ofNames ["app", "controllers", "api", "vendor", "v.rb"]) = true ∧
      (Run.exec (upgrade ⟨[], "."⟩ {} { updateApiModule := true }) vendoredSpace).2.tree.file?
          ["app", "controllers", "api", "vendor", "v.rb"] =
        some (Text.encode "module Api\nend\n".toList) := by
  decide +kernel

/-- A rule that finds something in every module of that name. -/
def moduleRules : Registry :=
  (({} : Registry).register (.detection {} "API" "" "**/*.rb" none)).register
    (.repair {} "API" (.template "Api") true)

/-- Elsewhere a protected file is spared, though a rule finds something in it. -/
theorem upgrade_spares_protected_vendor :
    (Run.exec (upgrade ⟨[], "."⟩ moduleRules
        { updateJobNamespaces := true, updateMigrations := true }) vendoredSpace).2.tree.file?
      ["vendor", "v.rb"] = some (Text.encode "module API\nend\n".toList) := by
  have hapi : ∀ glob ∈ apiFiles, Glob.covers glob ["vendor", "v.rb"] = false := by decide
  have hprotected : Path.isProtected (Path.ofNames ["vendor", "v.rb"]) = true := by
    rw [Path.isProtected_eq]
    decide
  refine (upgrade_spares_protected ⟨[], "."⟩ moduleRules _ (by decide) (by decide +kernel)
    hprotected (by decide +kernel) fun hunguarded => ?_).trans (by decide)
  generalize hnames : ["vendor", "v.rb"] = names at hunguarded
  cases hunguarded with
  | api glob _ _ hglob hcovers =>
    rw [← hnames, hapi glob hglob] at hcovers
    cases hcovers
  | stockTarget _ => simp at hnames
  | orderSource kind _ _ => simp at hnames
  | orderTarget kind _ _ => simp at hnames

end Project

end RailsUpgrade
