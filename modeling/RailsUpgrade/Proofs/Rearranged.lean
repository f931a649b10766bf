import Mathlib.Logic.Relation
import RailsUpgrade.Proofs.Accounting
import RailsUpgrade.Proofs.Built
import RailsUpgrade.Proofs.Stopped

/-!
# `RailsUpgrade.Proofs.Rearranged`: findings in another order

Every file has one turn with the sources of its findings, so a run does not depend on how the findings
of different files lie between each other, nor on findings that come again:

* `Tree.putAll_perm`: writes to different files may change places;
* `Run.Built.ends_alike`: a run depends on the tree of its workspace only;
* `Rearranged`: findings of different files change places, and findings that come again are added or
  left out;
* `fixesIn`: what is fixed, told from the tree that repairs start with;
* `exec_repair_of_ok`, `exec_repair_of_fault`: how repairs end, told from that tree;
* `repair_rearranged`: repairs of findings that were rearranged end alike.
-/

set_option autoImplicit false

namespace RailsUpgrade

/-! ### Writes in another order -/

namespace Tree

variable {t : Tree}

/-- Bytes that are put into a file that is there. -/
theorem put_of_isSome {p : Place} (h : (t.file? p).isSome) (bytes : ByteArray) :
    t.put p bytes = { t with files := t.files.map fun e => if e.1 == p then (p, bytes) else e } := by
  rw [put, if_pos h]

theorem isSome_file?_put {p q : Place} (h : (t.file? q).isSome) (bytes : ByteArray) :
    ((t.put p bytes).file? q).isSome := by
  rw [file?_put]
  split
  · rfl
  · exact h

/-- Two files that are there get their bytes in either order. -/
theorem put_comm {p q : Place} (hne : p ≠ q) (hp : (t.file? p).isSome) (hq : (t.file? q).isSome)
    (a b : ByteArray) : (t.put p a).put q b = (t.put q b).put p a := by
  rw [put_of_isSome (isSome_file?_put hq a), put_of_isSome (isSome_file?_put hp b),
    put_of_isSome hp, put_of_isSome hq]
  simp only [List.map_map]
  congr 1
  apply List.map_congr_left
  intro e _
  show (if (if e.1 == p then (p, a) else e).1 == q then (q, b) else if e.1 == p then (p, a) else e) =
    if (if e.1 == q then (q, b) else e).1 == p then (p, a) else if e.1 == q then (q, b) else e
  by_cases hep : e.1 = p
  · have heq : e.1 ≠ q := fun heq => hne (hep.symm.trans heq)
    simp [hep, hne]
  · by_cases heq : e.1 = q
    · simp [heq, Ne.symm hne]
    · simp [hep, heq]

/-- Writes to different files that are there may change places. -/
theorem putAll_perm {writes others : List Write} (h : writes.Perm others)
    (hnodup : (writes.map Write.place).Nodup) (hthere : ∀ x ∈ writes, (t.file? x.place).isSome) :
    t.putAll writes = t.putAll others := by
  induction h generalizing t with
  | nil => rfl
  | cons x _ ih =>
    rw [List.map_cons, List.nodup_cons] at hnodup
    obtain ⟨-, hrest⟩ := List.forall_mem_cons.mp hthere
    exact ih hnodup.2 fun y hy => isSome_file?_put (hrest y hy) x.bytes
  | swap x y writes =>
    simp only [List.map_cons, List.nodup_cons, List.mem_cons, not_or] at hnodup
    obtain ⟨hy, hx, -⟩ := by simpa only [List.forall_mem_cons] using hthere
    show ((t.put y.place y.bytes).put x.place x.bytes).putAll writes =
      ((t.put x.place x.bytes).put y.place y.bytes).putAll writes
    rw [put_comm hnodup.1.1 hy hx]
  | trans first _ ih more =>
    rw [ih hnodup hthere]
    exact more ((first.map _).nodup_iff.mp hnodup) fun x hx => hthere x (first.mem_iff.mpr hx)

end Tree

/-- A run depends on the tree of its workspace only, and so does the tree that it leaves. -/
theorem Run.Built.ends_alike {α : Type} {P : Failure → Prop} {x : Run α} (h : Run.Built P x)
    {w v : Workspace} (htree : w.tree = v.tree) :
    (Run.exec x w).1 = (Run.exec x v).1 ∧ (Run.exec x w).2.tree = (Run.exec x v).2.tree := by
  induction h generalizing w v with
  | pure a => exact ⟨rfl, htree⟩
  | throw _ => exact ⟨rfl, htree⟩
  | @bind _ _ x f _ _ first rest =>
    obtain ⟨hresult, hafter⟩ := first htree
    rw [Run.exec_bind, Run.exec_bind]
    generalize Run.exec x w = left at hresult hafter ⊢
    generalize Run.exec x v = right at hresult hafter ⊢
    obtain ⟨result, w'⟩ := left
    obtain ⟨_, v'⟩ := right
    obtain rfl := hresult
    cases result with
    | ok a => exact rest a hafter
    | error failure => exact ⟨rfl, hafter⟩
  | tree => exact ⟨congrArg Except.ok htree, htree⟩
  | noteAll notices => exact ⟨rfl, htree⟩
  | write root path text _ =>
    rw [Run.write, Run.exec_tree_bind, Run.exec_tree_bind, htree]
    cases v.tree.write root path text with
    | error fault => exact ⟨rfl, htree⟩
    | ok result => exact ⟨rfl, rfl⟩

/-- A member that comes again does not count. -/
theorem distinct_append_cons_of_mem {α : Type} [BEq α] [LawfulBEq α] {x : α} {before : List α}
    (h : x ∈ before) (after : List α) : distinct (before ++ x :: after) = distinct (before ++ after) := by
  have happend : ∀ more : List α, distinct (before ++ more) = addNew (distinct before) more :=
    fun more => List.foldl_append
  have hseen : (distinct before).contains x = true := by simpa [mem_distinct] using h
  rw [happend, happend, addNew_cons, if_pos hseen]

/-- Whether a finding of a file with a source was fixed. -/
def Outcome.Resolves (o : Outcome) (file source : String) : Prop :=
  ∃ f ∈ o.findings, f.file = file ∧ f.source = source ∧ f ∉ o.unresolved

/-- Whether a finding of a file with a source is left. -/
def Outcome.Leaves (o : Outcome) (file source : String) : Prop :=
  ∃ f ∈ o.unresolved, f.file = file ∧ f.source = source

namespace Project

/-! ### Findings that were rearranged -/

/-- One step to findings in another order. -/
inductive Rearranges : List Finding → List Finding → Prop
  /-- Two neighbours of different files change places. -/
  | swap (before after : List Finding) {f g : Finding} (apart : f.file ≠ g.file) :
    Rearranges (before ++ f :: g :: after) (before ++ g :: f :: after)
  /-- A finding is added whose file and source came up before. -/
  | again (before after : List Finding) {f : Finding}
    (known : ∃ g ∈ before, g.file = f.file ∧ g.source = f.source) :
    Rearranges (before ++ after) (before ++ f :: after)

/-- Findings that come from each other in steps, taken forwards and backwards. -/
def Rearranged : List Finding → List Finding → Prop := Relation.EqvGen Rearranges

theorem sourcesAt_of_rearranges {findings others : List Finding} (h : Rearranges findings others)
    (file : String) : sourcesAt findings file = sourcesAt others file := by
  cases h with
  | @swap before after f g apart =>
    have hone : ¬ (f.file = file ∧ g.file = file) := fun ⟨hf, hg⟩ => apart (hf.trans hg.symm)
    unfold sourcesAt
    by_cases hf : f.file = file
    · have hg : g.file ≠ file := fun hg => hone ⟨hf, hg⟩
      simp [hf, hg]
    · by_cases hg : g.file = file <;> simp [hf, hg]
  | @again before after f known =>
    obtain ⟨g, hg, hfile, hsource⟩ := known
    unfold sourcesAt
    by_cases hf : f.file = file
    · have hmem : f.source ∈ (before.filter (·.file == file)).map Finding.source := by
        refine List.mem_map.mpr ⟨g, List.mem_filter.mpr ⟨hg, ?_⟩, hsource⟩
        rw [hfile, hf, beq_self_eq_true]
      rw [List.filter_append, List.map_append, List.filter_append,
        List.filter_cons_of_pos (by simpa using hf), List.map_append, List.map_cons,
        distinct_append_cons_of_mem hmem]
    · simp [hf]

/-- The sources of every file are due in the same order. -/
theorem Rearranged.sourcesAt_eq {findings others : List Finding} (h : Rearranged findings others)
    (file : String) : sourcesAt findings file = sourcesAt others file := by
  induction h with
  | rel _ _ hstep => exact sourcesAt_of_rearranges hstep file
  | refl _ => rfl
  | symm _ _ _ ih => exact ih.symm
  | trans _ _ _ _ _ first second => exact first.trans second

theorem mem_sourcesAt {findings : List Finding} {file source : String} :
    source ∈ sourcesAt findings file ↔ ∃ f ∈ findings, f.file = file ∧ f.source = source := by
  simp [sourcesAt, mem_distinct, and_assoc]

/-- A file has a turn if sources are due in it. -/
theorem mem_files_iff {findings : List Finding} {file : String} :
    file ∈ distinct (findings.map Finding.file) ↔ sourcesAt findings file ≠ [] := by
  rw [mem_distinct, List.mem_map, ne_eq, List.eq_nil_iff_forall_not_mem, not_forall]
  simp only [not_not, mem_sourcesAt]
  constructor
  · rintro ⟨f, hf, rfl⟩
    exact ⟨f.source, f, hf, rfl, rfl⟩
  · rintro ⟨_, f, hf, rfl, -⟩
    exact ⟨f, hf, rfl⟩

/-! ### What repairs do to the tree that they start with -/

section
variable (registry : Registry) (safe : Bool) (root : Root) (findings : List Finding)

/-- The sources that the turn of a file fixes. -/
def fixedIn (t : Tree) (file : String) : List String :=
  match turn registry safe root findings t file, t.read root file with
  | .ok (some _), .ok text => fixedSources registry safe (sourcesAt findings file) text
  | _, _ => []

/-- The files that are written, with the sources that are fixed in them. -/
def fixesIn (t : Tree) (files : List String) : List (String × List String) :=
  files.filterMap fun file =>
    if (fixedIn registry safe root findings t file).isEmpty then none
    else some (file, fixedIn registry safe root findings t file)

/-- The outcome of repairs and of the updates of whole files after them. -/
def outcomeOf (t : Tree) (updated : List String) : Outcome :=
  let fixes := fixesIn registry safe root findings t (distinct (findings.map Finding.file))
  ⟨findings, addNew (fixes.map (·.1)) updated, findings.filter fun f => !isResolved fixes f⟩

end

variable {registry : Registry} {safe : Bool} {root : Root} {o : Options}
  {findings others : List Finding} {t : Tree} {w w' : Workspace} {file : String}

/-- The turn of a file fixes what `fixedIn` says. -/
theorem fixed_eq_fixedIn {fixed : List String}
    (h : Run.exec (repairFile root registry o file (findings.filter (·.file == file))) w =
      (.ok fixed, w')) : fixed = fixedIn registry o.safeMode root findings w.tree file := by
  obtain hpassed | ⟨hopen, text, place, bytes, hread, hlook, hdecode⟩ :=
    exists_text_or_error w.tree root file
  · obtain ⟨notices, hrun⟩ := exec_repairFile_of_error registry root o
      (findings.filter (·.file == file)) hpassed
    rw [hrun] at h
    cases h
    rw [fixedIn, turn_of_error hpassed]
  · obtain ⟨notices, hrun⟩ := exec_repairFile_of_read registry root o findings hopen hread
    rw [hrun, repairResult] at h
    rw [fixedIn, turn_of_text hopen hlook hdecode, hread]
    cases hrepaired : repaired registry o.safeMode (sourcesAt findings file) text with
    | error e =>
      rw [hrepaired] at h
      cases h
    | ok new =>
      -- A file is written only if its text has changed, and only then anything counts as fixed.
      simp only [hrepaired] at h
      by_cases hsame : new = text
      · rw [if_pos hsame] at h
        cases h
        simp [hsame, Except.map]
      · rw [if_neg hsame] at h
        obtain ⟨_, w₁, -, hreturn⟩ := Run.exec_bind_eq_ok h
        cases hreturn
        simp [hsame, Except.map]

/-- The turn of another file does not show in what is read from a file. -/
theorem read_of_other (ht : t.WellFormed) {names more : List String} (hnames : Path.AreNames names)
    (hmore : Path.AreNames more) (hne : Path.ofNames names ≠ Path.ofNames more) {x : Option Write}
    (h : turn registry safe root findings t (Path.ofNames more) = .ok x) :
    (t.putAll x.toList).read root (Path.ofNames names) = t.read root (Path.ofNames names) := by
  cases x with
  | none => rfl
  | some x =>
    obtain ⟨bytes, -, hlook, -⟩ := turn_eq_some h
    have hplace : x.place = root.place ++ more := place_of_turn ht hmore h
    have hput : (t.putAll [x]).look root (Path.ofNames names) =
        (t.look root (Path.ofNames names)).put x.place x.bytes :=
      Tree.look_put (by rw [Tree.file?_of_look hlook, Option.isSome_some]) _ _
    have hsame : (t.look root (Path.ofNames names)).put x.place x.bytes =
        t.look root (Path.ofNames names) := by
      cases hfound : t.look root (Path.ofNames names) with
      | file place old =>
        have hother : place ≠ x.place := by
          rw [Tree.place_of_look ht hnames hfound, hplace]
          exact fun heq => hne (by rw [List.append_cancel_left heq])
        rw [Look.put, if_neg hother]
      | dir _ => rfl
      | missing => rfl
      | blocked => rfl
    rw [Option.toList_some, Tree.read, hput, hsame]
    rfl

/-- The turns of files fix what `fixesIn` says of the tree that they start with. -/
theorem fixes_eq_fixesIn {files : List String} {fixes : List (String × List String)}
    (ht : w.tree.WellFormed) (hnodup : files.Nodup)
    (hfiles : ∀ file ∈ files, ∃ names, Path.AreNames names ∧ file = Path.ofNames names)
    (hparse : ∀ file ∈ files, (Path.Lexical.parse file).names ≠ [])
    (h : Run.exec (repairFiles root registry o findings files) w = (.ok fixes, w')) :
    fixes = fixesIn registry o.safeMode root findings w.tree files := by
  induction files generalizing w fixes with
  | nil =>
    cases h
    rfl
  | cons file files ih =>
    obtain ⟨hnew, hdistinct⟩ := List.nodup_cons.mp hnodup
    obtain ⟨⟨names, hnames, rfl⟩, hlater⟩ := List.forall_mem_cons.mp hfiles
    obtain ⟨fixed, w₁, hturn, h⟩ := Run.exec_bind_eq_ok h
    obtain ⟨more, w₂, hmore, h⟩ := Run.exec_bind_eq_ok h
    cases h
    obtain rfl := fixed_eq_fixedIn hturn
    obtain ⟨notices, fixed, hrun⟩ := exec_repairFile registry root o findings ht
      (hparse (Path.ofNames names) (by simp))
    rw [hturn] at hrun
    cases hwritten : turn registry o.safeMode root findings w.tree (Path.ofNames names) with
    | error e =>
      rw [hwritten] at hrun
      cases hrun
    | ok x =>
      rw [hwritten] at hrun
      obtain rfl : w₁ = w.after x.toList notices := (Prod.mk.inj hrun).2
      have htree : (w.after x.toList notices).tree = w.tree.putAll x.toList := rfl
      have hrest := ih (wellFormed_of_turn ht hwritten) hdistinct hlater
        (fun file hfile => hparse file (by simp [hfile])) hmore
      -- The turn of the first file does not show in what is fixed in the others.
      have hother : ∀ file ∈ files, fixedIn registry o.safeMode root findings
          (w.tree.putAll x.toList) file = fixedIn registry o.safeMode root findings w.tree file := by
        intro file hfile
        obtain ⟨more, hmore, rfl⟩ := hlater file hfile
        have hne : Path.ofNames more ≠ Path.ofNames names := fun heq => hnew (heq ▸ hfile)
        rw [fixedIn, fixedIn, turn_of_other ht hmore hnames hne hwritten,
          read_of_other ht hmore hnames hne hwritten]
      have hsame : fixesIn registry o.safeMode root findings (w.tree.putAll x.toList) files =
          fixesIn registry o.safeMode root findings w.tree files :=
        List.filterMap_congr fun file hfile => by rw [hother file hfile]
      rw [hrest, htree, hsame, fixesIn, fixesIn, List.filterMap_cons]
      split <;> rfl

/-- A finding is fixed if the turn of its file fixes its source. -/
theorem isResolved_fixesIn {files : List String} {f : Finding} (hmem : f.file ∈ files) :
    isResolved (fixesIn registry safe root findings t files) f = true ↔
      f.source ∈ fixedIn registry safe root findings t f.file := by
  rw [isResolved_iff]
  constructor
  · rintro ⟨fix, hfix, hfile, hsource⟩
    obtain ⟨file, -, hfix⟩ := List.mem_filterMap.mp hfix
    split at hfix
    · cases hfix
    · cases hfix
      rwa [← show file = f.file from hfile]
  · intro hsource
    refine ⟨(f.file, fixedIn registry safe root findings t f.file), ?_, rfl, hsource⟩
    refine List.mem_filterMap.mpr ⟨f.file, hmem, if_neg ?_⟩
    rw [List.isEmpty_iff]
    exact List.ne_nil_of_mem hsource

/-- The files of findings have names. -/
theorem areNames_of_findings
    (h : ∀ f ∈ findings, ∃ names, Path.AreNames names ∧ f.file = Path.ofNames names) :
    ∀ file ∈ distinct (findings.map Finding.file), ∃ names, Path.AreNames names ∧
      file = Path.ofNames names := by
  intro file hfile
  rw [mem_distinct] at hfile
  obtain ⟨f, hf, rfl⟩ := List.mem_map.mp hfile
  exact h f hf

theorem parse_ne_nil_of_areNames {files : List String}
    (h : ∀ file ∈ files, ∃ names, Path.AreNames names ∧ file = Path.ofNames names) :
    ∀ file ∈ files, (Path.Lexical.parse file).names ≠ [] := by
  intro file hfile
  obtain ⟨names, hnames, rfl⟩ := h file hfile
  rw [Path.parse_ofNames hnames.ne_nil hnames.isName]
  exact hnames.ne_nil

section
variable (registry root)
variable (ht : w.tree.WellFormed) (hdry : o.dryRun = false)
  (hfindings : ∀ f ∈ findings, ∃ names, Path.AreNames names ∧ f.file = Path.ofNames names)
include ht hdry hfindings

/-- Repairs without faults write what each file has to get, and then the updates of whole files
follow. -/
theorem exec_repair_of_ok (hok : ∀ file ∈ distinct (findings.map Finding.file),
      ∃ x, turn registry o.safeMode root findings w.tree file = .ok x) :
    ∃ w₁, w₁.tree = w.tree.putAll (writtenBy registry o.safeMode root findings w.tree
        (distinct (findings.map Finding.file))) ∧
      Run.exec (repair root registry o findings) w = Run.exec (do
        let updated ← updateFiles root o
        return outcomeOf registry o.safeMode root findings w.tree updated) w₁ := by
  have hfiles := areNames_of_findings hfindings
  have hparse := parse_ne_nil_of_areNames hfiles
  obtain ⟨notices, fixes, hrun⟩ := exec_repairFiles registry root o findings ht hparse
  -- No turn fails, so that every file gets its own and no later one is cut off.
  have hturns : turns registry o.safeMode root findings w.tree
      (distinct (findings.map Finding.file)) =
        (writtenBy registry o.safeMode root findings w.tree (distinct (findings.map Finding.file)),
          none) := by
    have hnodup := nodup_distinct (findings.map Finding.file)
    rw [← List.append_nil (distinct _)] at hnodup hfiles
    obtain ⟨t', -, hturns, -⟩ := turns_append ht hnodup hfiles hok
    rw [List.append_nil] at hturns
    rw [hturns]
    simp [turns]
  rw [hturns] at hrun
  obtain rfl := fixes_eq_fixesIn ht (nodup_distinct _) hfiles hparse hrun
  refine ⟨w.after (writtenBy registry o.safeMode root findings w.tree
    (distinct (findings.map Finding.file))) notices, rfl, ?_⟩
  rw [repair, if_neg (by simp [hdry])]
  exact Run.exec_bind_of_ok hrun

/-- Repairs end with the first fault of a file. -/
theorem exec_repair_of_fault {file : String} {e : Pattern.TemplateError}
    (hmem : file ∈ distinct (findings.map Finding.file))
    (hfault : turn registry o.safeMode root findings w.tree file = .error e) :
    ∃ failure w', Run.exec (repair root registry o findings) w = (.error failure, w') := by
  have hfiles := areNames_of_findings hfindings
  obtain hok | ⟨before, first, after, e, hsplit, hok, hfirst⟩ :=
    exists_first_fault registry o.safeMode root findings w.tree
      (distinct (findings.map Finding.file))
  · obtain ⟨x, hx⟩ := hok file hmem
    rw [hfault] at hx
    cases hx
  · obtain ⟨notices, fixes, hrun⟩ := exec_repairFiles registry root o findings ht
      (parse_ne_nil_of_areNames hfiles)
    rw [turns_of_fault ht (nodup_distinct _) hfiles hsplit hok hfirst] at hrun
    refine ⟨.template e, w.after (writtenBy registry o.safeMode root findings w.tree before) notices,
      ?_⟩
    rw [repair, if_neg (by simp [hdry])]
    exact Run.exec_bind_of_error hrun

end

/-! ### Two runs -/

/-- The findings of a file with a source are fixed if the turn of the file fixes it. -/
theorem isResolved_of_mem {f : Finding} (h : f ∈ findings) :
    isResolved (fixesIn registry safe root findings t (distinct (findings.map Finding.file))) f =
      decide (f.source ∈ fixedIn registry safe root findings t f.file) := by
  have hmem : f.file ∈ distinct (findings.map Finding.file) :=
    (mem_distinct _ _).mpr (List.mem_map_of_mem h)
  rw [Bool.eq_iff_iff, isResolved_fixesIn hmem, decide_eq_true_iff]

/-- What repairs fix. -/
theorem resolves_outcomeOf {updated : List String} {source : String} :
    (outcomeOf registry safe root findings t updated).Resolves file source ↔
      source ∈ sourcesAt findings file ∧ source ∈ fixedIn registry safe root findings t file := by
  rw [mem_sourcesAt]
  constructor
  · rintro ⟨f, hf, rfl, rfl, hnot⟩
    have hf : f ∈ findings := hf
    refine ⟨⟨f, hf, rfl, rfl⟩, ?_⟩
    simpa [outcomeOf, hf, isResolved_of_mem hf] using hnot
  · rintro ⟨⟨f, hf, rfl, rfl⟩, hsource⟩
    refine ⟨f, hf, rfl, rfl, ?_⟩
    simp [outcomeOf, isResolved_of_mem hf, hsource]

/-- What repairs leave. -/
theorem leaves_outcomeOf {updated : List String} {source : String} :
    (outcomeOf registry safe root findings t updated).Leaves file source ↔
      source ∈ sourcesAt findings file ∧ source ∉ fixedIn registry safe root findings t file := by
  rw [mem_sourcesAt]
  constructor
  · rintro ⟨f, hf, rfl, rfl⟩
    obtain ⟨hf, hnot⟩ := List.mem_filter.mp hf
    refine ⟨⟨f, hf, rfl, rfl⟩, ?_⟩
    simpa [isResolved_of_mem hf] using hnot
  · rintro ⟨⟨f, hf, rfl, rfl⟩, hsource⟩
    refine ⟨f, List.mem_filter.mpr ⟨hf, ?_⟩, rfl, rfl⟩
    simp [isResolved_of_mem hf, hsource]

/-- Two runs fail both, or they return both and agree on what they did. -/
inductive EndsLike : Except Failure Outcome × Workspace → Except Failure Outcome × Workspace → Prop
  /-- Both fail. -/
  | fails (failure other : Failure) (w v : Workspace) : EndsLike (.error failure, w) (.error other, v)
  /-- Both return. -/
  | returns {a b : Outcome} {w v : Workspace} (tree : w.tree = v.tree)
    (changed : ∀ file, file ∈ a.changed ↔ file ∈ b.changed)
    (resolves : ∀ file source, a.Resolves file source ↔ b.Resolves file source)
    (leaves : ∀ file source, a.Leaves file source ↔ b.Leaves file source) :
    EndsLike (.ok a, w) (.ok b, v)

theorem turn_congr (h : ∀ file, sourcesAt findings file = sourcesAt others file) (t : Tree) :
    turn registry safe root findings t = turn registry safe root others t := by
  funext file
  rw [turn, turn, h]

theorem fixedIn_congr (h : ∀ file, sourcesAt findings file = sourcesAt others file) (t : Tree) :
    fixedIn registry safe root findings t = fixedIn registry safe root others t := by
  funext file
  rw [fixedIn, fixedIn, turn_congr h, h]

variable (registry root) in
/-- Repairs of findings that were rearranged end alike. -/
theorem repair_rearranged (ht : w.tree.WellFormed) (hdry : o.dryRun = false)
    (hfindings : ∀ f ∈ findings, ∃ names, Path.AreNames names ∧ f.file = Path.ofNames names)
    (hothers : ∀ f ∈ others, ∃ names, Path.AreNames names ∧ f.file = Path.ofNames names)
    (h : Rearranged findings others) :
    EndsLike (Run.exec (repair root registry o findings) w)
      (Run.exec (repair root registry o others) w) := by
  have hsources := h.sourcesAt_eq
  have hturn : turn registry o.safeMode root findings w.tree = turn registry o.safeMode root others w.tree :=
    turn_congr hsources w.tree
  have hfixed : fixedIn registry o.safeMode root findings w.tree =
      fixedIn registry o.safeMode root others w.tree := fixedIn_congr hsources w.tree
  have hperm : (distinct (findings.map Finding.file)).Perm (distinct (others.map Finding.file)) := by
    rw [List.perm_ext_iff_of_nodup (nodup_distinct _) (nodup_distinct _)]
    intro file
    rw [mem_files_iff, mem_files_iff, hsources]
  obtain hok | ⟨before, file, after, e, hsplit, -, hfault⟩ :=
    exists_first_fault registry o.safeMode root findings w.tree (distinct (findings.map Finding.file))
  · obtain ⟨w₁, htree, hrun⟩ := exec_repair_of_ok registry root ht hdry hfindings hok
    obtain ⟨w₂, htree', hrun'⟩ := exec_repair_of_ok registry root ht hdry hothers fun file hfile => by
      rw [← hturn]
      exact hok file (hperm.mem_iff.mpr hfile)
    -- The same files are written with the same bytes, in another order.
    have hwritten : (writtenBy registry o.safeMode root findings w.tree
        (distinct (findings.map Finding.file))).Perm (writtenBy registry o.safeMode root others w.tree
          (distinct (others.map Finding.file))) := by
      rw [writtenBy, writtenBy, hturn]
      exact hperm.filterMap _
    have htrees : w₁.tree = w₂.tree := by
      rw [htree, htree']
      have hfiles := areNames_of_findings hfindings
      apply Tree.putAll_perm hwritten
      · exact nodup_places_writtenBy registry o.safeMode root findings ht (nodup_distinct _) hfiles
      · intro x hx
        obtain ⟨_, _, _, _, hx⟩ := mem_writtenBy ht hfiles hx
        obtain ⟨bytes, -, hlook, -⟩ := turn_eq_some hx
        rw [Tree.file?_of_look hlook, Option.isSome_some]
    have hbuilt : Run.Built (fun _ => True) (updateFiles root o) :=
      built_updateFiles root o (fun _ _ => trivial) (fun _ => trivial) fun _ _ _ _ => trivial
    obtain ⟨hupdated, hafter⟩ := hbuilt.ends_alike htrees
    rw [hrun, hrun', Run.exec_bind, Run.exec_bind]
    generalize Run.exec (updateFiles root o) w₁ = left at hupdated hafter ⊢
    generalize Run.exec (updateFiles root o) w₂ = right at hupdated hafter ⊢
    obtain ⟨result, w₁'⟩ := left
    obtain ⟨_, w₂'⟩ := right
    obtain rfl := hupdated
    cases result with
    | error failure => exact .fails failure failure w₁' w₂'
    | ok updated =>
      refine .returns hafter (fun file => ?_) (fun file source => ?_) (fun file source => ?_)
      · have hfixes : (fixesIn registry o.safeMode root findings w.tree
            (distinct (findings.map Finding.file))).Perm (fixesIn registry o.safeMode root others w.tree
              (distinct (others.map Finding.file))) := by
          rw [fixesIn, fixesIn, hfixed]
          exact hperm.filterMap _
        show file ∈ addNew _ updated ↔ file ∈ addNew _ updated
        rw [mem_addNew, mem_addNew, (hfixes.map _).mem_iff]
      · rw [resolves_outcomeOf, resolves_outcomeOf, hsources, hfixed]
      · rw [leaves_outcomeOf, leaves_outcomeOf, hsources, hfixed]
  · -- The file whose turn has a fault has its turn in both runs.
    have hmem : file ∈ distinct (findings.map Finding.file) := by simp [hsplit]
    obtain ⟨failure, w₁, hrun⟩ := exec_repair_of_fault registry root ht hdry hfindings hmem hfault
    obtain ⟨other, w₂, hrun'⟩ := exec_repair_of_fault registry root ht hdry hothers (hperm.mem_iff.mp hmem)
      (hturn ▸ hfault)
    rw [hrun, hrun']
    exact .fails failure other w₁ w₂

/-- Findings in two files, the first of which has one without a repair. -/
def pairFindings : List Finding := [⟨"a.rb", "", "foo"⟩, ⟨"a.rb", "", "bar"⟩, ⟨"b.rb", "", "foo"⟩]

/-- The same findings, the second file first, and one that comes again. -/
def pairFindings' : List Finding :=
  [⟨"b.rb", "", "foo"⟩, ⟨"a.rb", "", "foo"⟩, ⟨"a.rb", "again", "foo"⟩, ⟨"a.rb", "", "bar"⟩]

/-- The two files. -/
def pairSpace : Workspace where
  tree := { files := [(["a.rb"], Text.encode ['f', 'o', 'o']), (["b.rb"], Text.encode ['f', 'o', 'o'])] }

theorem rearranged_pairFindings : Rearranged pairFindings pairFindings' := by
  have hmiddle : Rearranges pairFindings
      [⟨"a.rb", "", "foo"⟩, ⟨"b.rb", "", "foo"⟩, ⟨"a.rb", "", "bar"⟩] :=
    .swap [⟨"a.rb", "", "foo"⟩] [] (by decide)
  have hfirst : Rearranges [⟨"a.rb", "", "foo"⟩, ⟨"b.rb", "", "foo"⟩, ⟨"a.rb", "", "bar"⟩]
      [⟨"b.rb", "", "foo"⟩, ⟨"a.rb", "", "foo"⟩, ⟨"a.rb", "", "bar"⟩] :=
    .swap [] [⟨"a.rb", "", "bar"⟩] (by decide)
  have hagain : Rearranges [⟨"b.rb", "", "foo"⟩, ⟨"a.rb", "", "foo"⟩, ⟨"a.rb", "", "bar"⟩]
      pairFindings' :=
    .again [⟨"b.rb", "", "foo"⟩, ⟨"a.rb", "", "foo"⟩] [⟨"a.rb", "", "bar"⟩]
      ⟨⟨"a.rb", "", "foo"⟩, by simp, rfl, rfl⟩
  exact .trans _ _ _ (.rel _ _ hmiddle) (.trans _ _ _ (.rel _ _ hfirst) (.rel _ _ hagain))

/-- The order in which changed files are told is another one, and nothing else is. -/
theorem repair_rearranged_pair : ∃ outcome other w v,
    Run.exec (repair ⟨[], "."⟩ halfRules {} pairFindings) pairSpace = (.ok outcome, w) ∧
    Run.exec (repair ⟨[], "."⟩ halfRules {} pairFindings') pairSpace = (.ok other, v) ∧
    outcome.changed = ["a.rb", "b.rb"] ∧ other.changed = ["b.rb", "a.rb"] ∧
    EndsLike (.ok outcome, w) (.ok other, v) := by
  have hnames : ∀ f ∈ pairFindings ++ pairFindings', ∃ names, Path.AreNames names ∧
      f.file = Path.ofNames names := by
    have hfile : ∀ f ∈ pairFindings ++ pairFindings', f.file = "a.rb" ∨ f.file = "b.rb" := by decide
    have ha : Path.AreNames ["a.rb"] := ⟨by decide, by decide⟩
    have hb : Path.AreNames ["b.rb"] := ⟨by decide, by decide⟩
    intro f hf
    obtain hfile | hfile := hfile f hf
    · exact ⟨["a.rb"], ha, by rw [hfile]; decide⟩
    · exact ⟨["b.rb"], hb, by rw [hfile]; decide⟩
  obtain ⟨hrun, hother⟩ : (Run.exec (repair ⟨[], "."⟩ halfRules {} pairFindings) pairSpace).1 =
        .ok ⟨pairFindings, ["a.rb", "b.rb"], [⟨"a.rb", "", "bar"⟩]⟩ ∧
      (Run.exec (repair ⟨[], "."⟩ halfRules {} pairFindings') pairSpace).1 =
        .ok ⟨pairFindings', ["b.rb", "a.rb"], [⟨"a.rb", "", "bar"⟩]⟩ := by decide +kernel
  have hends := repair_rearranged halfRules ⟨[], "."⟩ (o := {}) (w := pairSpace) (by decide) rfl
    (fun f hf => hnames f (List.mem_append_left _ hf))
    (fun f hf => hnames f (List.mem_append_right _ hf)) rearranged_pairFindings
  -- The runs are named before they are taken apart, so that nothing evaluates them again.
  generalize Run.exec (repair ⟨[], "."⟩ halfRules {} pairFindings) pairSpace = left at *
  generalize Run.exec (repair ⟨[], "."⟩ halfRules {} pairFindings') pairSpace = right at *
  obtain ⟨_, w⟩ := left
  obtain ⟨_, v⟩ := right
  obtain rfl := hrun
  obtain rfl := hother
  exact ⟨_, _, w, v, rfl, rfl, rfl, rfl, hends⟩

end Project

end RailsUpgrade
