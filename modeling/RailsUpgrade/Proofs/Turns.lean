import RailsUpgrade.Proofs.Encoding
import RailsUpgrade.Proofs.Upgrade

/-!
# `RailsUpgrade.Proofs.Turns`: how the turns of files end

In a well formed tree a file that can be read can be written, so the turn of a file ends with a fault
in a template or with at most one write. `turns` runs through the files on trees alone:

* `Tree.look_put`: files that get new bytes are found at the same paths as before;
* `Tree.write_of_look`: a file that a path leads to can be written at this path;
* `exec_repairFile`, `exec_repairFiles`: what turns write, and what they end with;
* `repaired_eq_error_iff`: whether repairs end with a fault is up to their templates, not to the text;
* `turns_fault`: so the first faulty template of a file that is not protected ends the turns.
-/

set_option autoImplicit false

namespace RailsUpgrade

/-! ### Files that get new bytes -/

/-- What a path leads to once the file at a place has got new bytes. -/
def Look.put (place : Place) (bytes : ByteArray) : Look → Look
  | .file p old => .file p (if p = place then bytes else old)
  | .dir p => .dir p
  | .missing => .missing
  | .blocked => .blocked

namespace Tree

variable {t : Tree} {place : Place} {root : Root}

theorem isDir_put (h : (t.file? place).isSome) (bytes : ByteArray) (q : Place) :
    (t.put place bytes).isDir q = t.isDir q := by
  rw [isDir, isDir, listed_put bytes h, dirs_put]

theorem WellFormed.put (ht : t.WellFormed) (h : (t.file? place).isSome) (bytes : ByteArray) :
    (t.put place bytes).WellFormed where
  names := by
    rw [listed_put bytes h]
    exact ht.names
  leaves p hp := by
    rw [isDir_put h]
    apply ht.leaves
    rw [file?_put] at hp
    split at hp
    · rename_i heq
      rwa [heq]
    · exact hp

theorem walk_put (h : (t.file? place).isSome) (bytes : ByteArray) (here : Place)
    (names : List String) :
    (t.put place bytes).walk here names = (t.walk here names).put place bytes := by
  induction names generalizing here with
  | nil =>
    rw [walk, walk, isDir_put h, file?_put]
    by_cases hhere : here = place
    · obtain ⟨old, hold⟩ := Option.isSome_iff_exists.mp h
      simp [hhere, hold, Look.put]
    · rw [if_neg hhere]
      cases t.file? here with
      | some old => simp [Look.put, hhere]
      | none => cases hdir : t.isDir here <;> simp [Look.put]
  | cons name rest ih =>
    have hsome : ((t.put place bytes).file? here).isSome = (t.file? here).isSome := by
      rw [file?_put]
      split
      · rename_i heq
        rw [heq, h, Option.isSome_some]
      · rfl
    rw [walk, walk, isDir_put h, hsome, ih]
    cases (t.file? here).isSome <;> cases t.isDir here <;> rfl

/-- Files that get new bytes are found at the same paths as before. -/
theorem look_put (h : (t.file? place).isSome) (bytes : ByteArray) (path : String) :
    (t.put place bytes).look root path = (t.look root path).put place bytes :=
  walk_put h bytes _ _

theorem file?_of_walk {here : Place} {names : List String} {bytes : ByteArray}
    (h : t.walk here names = .file place bytes) : t.file? place = some bytes := by
  fun_induction walk t here names with
  | case1 here found hfound =>
    cases h
    exact hfound
  | case2 => cases h
  | case3 => cases h
  | case4 => cases h
  | case5 here name rest _ _ ih => exact ih h
  | case6 => cases h

/-- What a path leads to is a file of the tree. -/
theorem file?_of_look {path : String} {bytes : ByteArray}
    (h : t.look root path = .file place bytes) : t.file? place = some bytes :=
  file?_of_walk h

/-- The directory above a directory is one. -/
theorem isDir_dropLast {p : Place} (h : t.isDir p = true) : t.isDir p.dropLast = true := by
  obtain rfl | ⟨above, name, rfl⟩ := List.eq_nil_or_concat' p
  · exact h
  rw [List.dropLast_concat]
  simp only [isDir, Bool.or_eq_true, List.isEmpty_iff, List.contains_iff_mem, List.any_eq_true,
    Bool.and_eq_true, decide_eq_true_eq, List.isPrefixOf_iff_prefix] at h
  obtain (hnil | hlisted) | ⟨q, hq, hpre, hlt⟩ := h
  · simp at hnil
  · exact isDir_of_lt (List.mem_append_right _ hlisted) (List.prefix_append _ _) (by simp)
  · refine isDir_of_lt hq ((List.prefix_append _ _).trans hpre) ?_
    simp only [List.length_append, List.length_singleton] at hlt
    omega

theorem place_of_walk_nil {here : Place} {bytes : ByteArray} (h : t.walk here [] = .file place bytes) :
    here = place := by
  rw [walk] at h
  split at h
  · cases h
    rfl
  · split at h <;> cases h

/-- The names above a file lead to the directory that it is in, and its own name does not lead
back. -/
theorem walk_concat_eq_file (ht : t.WellFormed) {here : Place} {above : List String} {name : String}
    {bytes : ByteArray} (h : t.walk here (above ++ [name]) = .file place bytes) :
    name ≠ ".." ∧ ∃ dir, t.walk here above = .dir dir ∧ place = dir ++ [name] := by
  induction above generalizing here with
  | nil =>
    rw [List.nil_append, walk] at h
    split at h
    · cases h
    · rename_i hfile
      split at h
      · rename_i hdir
        by_cases hback : name = ".."
        · -- Above a directory there is no file.
          rw [if_pos (by simpa using hback)] at h
          obtain rfl := place_of_walk_nil h
          have hleaf := ht.leaves here.dropLast (by rw [file?_of_walk h, Option.isSome_some])
          rw [isDir_dropLast hdir] at hleaf
          cases hleaf
        · rw [if_neg (by simpa using hback)] at h
          obtain rfl := place_of_walk_nil h
          refine ⟨hback, here, ?_, rfl⟩
          rw [walk, Option.not_isSome_iff_eq_none.mp hfile, hdir]
          rfl
      · cases h
  | cons first above ih =>
    rw [List.cons_append, walk] at h
    split at h
    · cases h
    · rename_i hfile
      split at h
      · rename_i hdir
        obtain ⟨hname, dir, hwalk, hplace⟩ := ih h
        refine ⟨hname, dir, ?_, hplace⟩
        rw [walk, if_neg hfile, if_pos hdir, hwalk]
      · cases h

/-- The path of names leads to no file but the one that is at them. -/
theorem place_of_look (ht : t.WellFormed) {names : List String} (hnames : Path.AreNames names)
    {bytes : ByteArray} (h : t.look root (Path.ofNames names) = .file place bytes) :
    place = root.place ++ names := by
  rw [look_ofNames hnames.ne_nil hnames.isName] at h
  obtain ⟨above, name, rfl⟩ := (List.eq_nil_or_concat' names).resolve_left hnames.ne_nil
  obtain ⟨-, dir, hwalk, rfl⟩ := walk_concat_eq_file ht h
  have hback : ".." ∉ above := fun hmem => (hnames.isName ".." (by simp [hmem])).2.2.1 rfl
  rw [(dir_of_walk hback hwalk).1, List.append_assoc]

/-- Names that a text is read from are those of a file. -/
theorem isSome_file?_of_read (ht : t.WellFormed) {names : List String} (hnames : Path.AreNames names)
    {text : List Char} (h : t.read root (Path.ofNames names) = .ok text) :
    (t.file? (root.place ++ names)).isSome := by
  obtain ⟨place, bytes, hlook, -⟩ := look_of_read h
  rw [← place_of_look ht hnames hlook, file?_of_look hlook, Option.isSome_some]

/-- A file that a path leads to can be written at this path. -/
theorem write_of_look (ht : t.WellFormed) {path : String} {bytes : ByteArray}
    (hne : (Path.Lexical.parse path).names ≠ []) (h : t.look root path = .file place bytes)
    (text : List Char) :
    t.write root path text = .ok (t.put place (Text.encode text), place) := by
  have hleaf : t.isDir place = false := ht.leaves _ (by simp [file?_of_look h])
  obtain ⟨above, name, hnames⟩ := (List.eq_nil_or_concat' _).resolve_left hne
  rw [look, hnames] at h
  obtain ⟨hback, dir, hwalk, rfl⟩ := walk_concat_eq_file ht h
  have hmade : t.makeDirs (startOf root (Path.Lexical.parse path)) above.reverse = .ok (t, dir) :=
    makeDirs_of_walk (by rw [List.reverse_reverse, hwalk])
  rw [write, hnames, List.reverse_append, List.reverse_singleton, List.singleton_append]
  simp only [hmade]
  simp [hback, hleaf]

/-- A tree after writes. -/
def putAll (t : Tree) (writes : List Write) : Tree :=
  writes.foldl (fun t x => t.put x.place x.bytes) t

theorem putAll_append (t : Tree) (writes more : List Write) :
    t.putAll (writes ++ more) = (t.putAll writes).putAll more :=
  List.foldl_append

/-- Writes change no file but those that they write. -/
theorem file?_putAll_of_notMem {writes : List Write} {q : Place} (h : q ∉ writes.map Write.place) :
    (t.putAll writes).file? q = t.file? q := by
  induction writes generalizing t with
  | nil => rfl
  | cons x writes ih =>
    rw [List.map_cons, List.mem_cons, not_or] at h
    rw [putAll, List.foldl_cons]
    exact (ih h.2).trans (by rw [file?_put, if_neg h.1])

/-- A file that is written once holds what was written. -/
theorem file?_putAll_of_mem {writes : List Write} (hnodup : (writes.map Write.place).Nodup)
    {x : Write} (h : x ∈ writes) : (t.putAll writes).file? x.place = some x.bytes := by
  induction writes generalizing t with
  | nil => cases h
  | cons first writes ih =>
    rw [List.map_cons, List.nodup_cons] at hnodup
    rw [putAll, List.foldl_cons]
    obtain rfl | h := List.mem_cons.mp h
    · exact (file?_putAll_of_notMem hnodup.1).trans (by rw [file?_put, if_pos rfl])
    · exact ih hnodup.2 h

end Tree

/-- A workspace after writes, with other notices. -/
def Workspace.after (w : Workspace) (writes : List Write) (notices : List Notice) : Workspace :=
  { tree := w.tree.putAll writes, notices, writes := w.writes ++ writes }

@[simp] theorem Workspace.after_nil (w : Workspace) (notices : List Notice) :
    w.after [] notices = { w with notices } := by
  simp [after, Tree.putAll]

theorem Workspace.after_after (w : Workspace) (writes more : List Write)
    (notices others : List Notice) :
    (w.after writes notices).after more others = w.after (writes ++ more) others := by
  simp [after, Tree.putAll_append]

namespace Project

/-! ### One turn and all turns -/

section
variable (registry : Registry) (safe : Bool) (root : Root) (findings : List Finding)

/-- What the turn of a file writes, if it writes anything. -/
def turn (t : Tree) (file : String) : Except Pattern.TemplateError (Option Write) :=
  match t.look root file with
  | .file place bytes =>
    (rewritten registry safe file (sourcesAt findings file) bytes).map (·.map (Write.mk place))
  | _ => .ok none

/-- What the turns of files write, one after the other, and the fault that ends them. -/
def turns : Tree → List String → List Write × Option Pattern.TemplateError
  | _, [] => ([], none)
  | t, file :: rest => match turn registry safe root findings t file with
    | .error e => ([], some e)
    | .ok x =>
      let more := turns (t.putAll x.toList) rest
      (x.toList ++ more.1, more.2)

end

variable {registry : Registry} {safe : Bool} {root : Root} {o : Options} {findings : List Finding}
  {t : Tree} {file : String}

/-- A file that is protected or cannot be read has an empty turn. -/
theorem turn_of_error
    (h : Path.isProtected file = true ∨ ∃ fault, t.read root file = .error fault) :
    turn registry safe root findings t file = .ok none := by
  unfold turn
  split
  · rename_i place bytes hlook
    obtain hprotected | ⟨fault, hfault⟩ := h
    · rw [rewritten, if_pos hprotected]
      rfl
    · rw [Tree.read_of_look hlook] at hfault
      cases hdecode : Text.decode? bytes with
      | none =>
        rw [rewritten_of_undecodable _ _ _ _ hdecode]
        rfl
      | some text =>
        rw [hdecode] at hfault
        cases hfault
  · rfl

/-- The turn of any other file writes its repaired text, if it is another one. -/
theorem turn_of_text {place : Place} {bytes : ByteArray} {text : List Char}
    (hopen : Path.isProtected file = false) (hlook : t.look root file = .file place bytes)
    (hdecode : Text.decode? bytes = some text) :
    turn registry safe root findings t file =
      (repaired registry safe (sourcesAt findings file) text).map fun new =>
        if new = text then none else some ⟨place, Text.encode new⟩ := by
  rw [turn, hlook]
  simp only [rewritten, hopen, hdecode]
  cases repaired registry safe (sourcesAt findings file) text with
  | error e => rfl
  | ok new => by_cases hsame : new = text <;> simp [hsame, Except.map]

/-- Every file has a turn of one of these two kinds. -/
theorem exists_text_or_error (t : Tree) (root : Root) (file : String) :
    (Path.isProtected file = true ∨ ∃ fault, t.read root file = .error fault) ∨
      Path.isProtected file = false ∧ ∃ text place bytes, t.read root file = .ok text ∧
        t.look root file = .file place bytes ∧ Text.decode? bytes = some text := by
  cases hopen : Path.isProtected file with
  | true => exact .inl (.inl rfl)
  | false =>
    cases hread : t.read root file with
    | error fault => exact .inl (.inr ⟨fault, rfl⟩)
    | ok text =>
      obtain ⟨place, bytes, hlook, hdecode⟩ := Tree.look_of_read hread
      exact .inr ⟨rfl, text, place, bytes, rfl, hlook, hdecode⟩

/-- What the turn of a file writes is a text, at the place that the path of the file leads to. -/
theorem turn_eq_some {x : Write} (h : turn registry safe root findings t file = .ok (some x)) :
    ∃ bytes text, t.look root file = .file x.place bytes ∧ x.bytes = Text.encode text := by
  obtain hpassed | ⟨hopen, text, place, bytes, -, hlook, hdecode⟩ := exists_text_or_error t root file
  · rw [turn_of_error hpassed] at h
    cases h
  · rw [turn_of_text hopen hlook hdecode] at h
    cases hrepaired : repaired registry safe (sourcesAt findings file) text with
    | error e =>
      rw [hrepaired] at h
      cases h
    | ok new =>
      rw [hrepaired] at h
      by_cases hsame : new = text
      · simp [hsame, Except.map] at h
      · obtain rfl : ⟨place, Text.encode new⟩ = x := by simpa [hsame, Except.map] using h
        exact ⟨bytes, new, hlook, rfl⟩

variable (registry root o findings) in
/-- The turn of a file ends with a fault, or it writes what `turn` says. -/
theorem exec_repairFile {w : Workspace} (ht : w.tree.WellFormed)
    (hne : (Path.Lexical.parse file).names ≠ []) :
    ∃ notices fixed, Run.exec (repairFile root registry o file
        (findings.filter (·.file == file))) w =
      match turn registry o.safeMode root findings w.tree file with
      | .error e => (.error (.template e), w.after [] notices)
      | .ok x => (.ok fixed, w.after x.toList notices) := by
  obtain hpassed | ⟨hopen, text, place, bytes, hread, hlook, hdecode⟩ :=
    exists_text_or_error w.tree root file
  · obtain ⟨notices, hrun⟩ := exec_repairFile_of_error registry root o
      (findings.filter (·.file == file)) hpassed
    refine ⟨notices, [], ?_⟩
    rw [turn_of_error hpassed, hrun]
    simp
  · obtain ⟨notices, hrun⟩ := exec_repairFile_of_read registry root o findings hopen hread
    rw [hrun, turn_of_text hopen hlook hdecode, repairResult]
    cases repaired registry o.safeMode (sourcesAt findings file) text with
    | error e => exact ⟨notices, [], by simp [Except.map]⟩
    | ok new =>
      by_cases hsame : new = text
      · exact ⟨notices, [], by simp [hsame, Except.map]⟩
      · -- The file was found to read it, so the write succeeds.
        have hwrite := Tree.write_of_look ht hne hlook new
        refine ⟨notices, fixedSources registry o.safeMode (sourcesAt findings file) text, ?_⟩
        simp only [if_neg hsame, Except.map]
        rw [Run.exec_bind_of_ok (Run.exec_write_ok (w := { w with notices }) hwrite)]
        rfl

/-- A turn leaves a well formed tree. -/
theorem wellFormed_of_turn (ht : t.WellFormed) {x : Option Write}
    (h : turn registry safe root findings t file = .ok x) : (t.putAll x.toList).WellFormed := by
  cases x with
  | none => exact ht
  | some x =>
    obtain ⟨bytes, -, hlook, -⟩ := turn_eq_some h
    exact ht.put (by rw [Tree.file?_of_look hlook, Option.isSome_some]) x.bytes

variable (registry root o findings) in
/-- The turns of files write what `turns` says, and end with its fault. -/
theorem exec_repairFiles {files : List String} {w : Workspace} (ht : w.tree.WellFormed)
    (hne : ∀ file ∈ files, (Path.Lexical.parse file).names ≠ []) :
    ∃ notices fixes, Run.exec (repairFiles root registry o findings files) w =
      (match (turns registry o.safeMode root findings w.tree files).2 with
        | some e => .error (.template e)
        | none => .ok fixes,
        w.after (turns registry o.safeMode root findings w.tree files).1 notices) := by
  induction files generalizing w with
  | nil => exact ⟨w.notices, [], by simp [turns, repairFiles]⟩
  | cons file files ih =>
    obtain ⟨notices, fixed, hturn⟩ := exec_repairFile registry root o findings ht
      (hne file (by simp))
    rw [repairFiles, turns]
    cases hwrites : turn registry o.safeMode root findings w.tree file with
    | error e =>
      rw [hwrites] at hturn
      exact ⟨notices, [], by rw [Run.exec_bind_of_error hturn]⟩
    | ok x =>
      rw [hwrites] at hturn
      rw [Run.exec_bind_of_ok hturn]
      -- The other turns start from the tree that this one leaves, which is well formed again.
      obtain ⟨others, more, hmore⟩ := ih (w := w.after x.toList notices)
        (wellFormed_of_turn ht hwrites) fun file hfile => hne file (by simp [hfile])
      have htree : (w.after x.toList notices).tree = w.tree.putAll x.toList := rfl
      rw [htree, Workspace.after_after] at hmore
      refine ⟨others, if fixed.isEmpty then more else (file, fixed) :: more, ?_⟩
      simp only
      cases hend : (turns registry o.safeMode root findings (w.tree.putAll x.toList) files).2 with
      | some e =>
        rw [hend] at hmore
        exact Run.exec_bind_of_error hmore
      | none =>
        rw [hend] at hmore
        exact Run.exec_bind_of_ok hmore

end Project

/-! ### Faults -/

/-- The fault in the template of a repair. A function has none. -/
def Repair.fault? (r : Repair) : Option Pattern.TemplateError :=
  match r.replacement with
  | .template text => match Pattern.readTemplate r.pattern text with
    | .error e => some e
    | .ok _ => none
  | .function _ _ => none

theorem Repair.apply_eq_error_iff {r : Repair} {text : List Char} {e : Pattern.TemplateError} :
    r.apply text = .error e ↔ r.fault? = some e := by
  unfold apply fault?
  cases r.replacement with
  | template template =>
    simp only [Pattern.replaceTemplate]
    cases Pattern.readTemplate r.pattern template <;> simp [Except.map]
  | function name f => simp

namespace Project

variable {registry : Registry} {safe : Bool} {root : Root} {findings : List Finding} {t : Tree}
  {file : String} {e : Pattern.TemplateError}

/-- The fault that the repair for a source has, unless safe mode leaves it out. -/
def faultOf (registry : Registry) (safe : Bool) (source : String) : Option Pattern.TemplateError :=
  if safe && isGated registry source then none else (registry.repair? source).bind Repair.fault?

theorem repairStep_eq_error_iff {text : List Char} {source : String} :
    repairStep registry safe text source = .error e ↔ faultOf registry safe source = some e := by
  unfold repairStep faultOf
  split
  · simp
  · unfold repairText
    cases registry.repair? source with
    | none => simp [Except.map]
    | some r =>
      rw [Option.bind_some, ← Repair.apply_eq_error_iff]
      simp only
      cases r.apply text <;> simp [Except.map]

/-- Repairs end with the first fault of their sources, whatever the text is. -/
theorem repaired_eq_error_iff {sources : List String} {text : List Char} :
    repaired registry safe sources text = .error e ↔
      sources.findSome? (faultOf registry safe) = some e := by
  induction sources generalizing text with
  | nil => simp [repaired_nil]
  | cons source rest ih =>
    rw [List.findSome?_cons]
    cases hstep : repairStep registry safe text source with
    | error e' =>
      rw [repaired_cons_of_error hstep, repairStep_eq_error_iff.mp hstep]
      simp
    | ok new =>
      -- A step that succeeds has a sound template, so the induction goes on with any text.
      have hnone : faultOf registry safe source = none := by
        rw [Option.eq_none_iff_forall_ne_some]
        intro e' he'
        rw [repairStep_eq_error_iff.mpr he'] at hstep
        cases hstep
      rw [repaired_cons_of_ok hstep, hnone, ih]

/-- The fault that ends the turn of a file that can be read. -/
def faultAt (registry : Registry) (safe : Bool) (findings : List Finding) (file : String) :
    Option Pattern.TemplateError :=
  if Path.isProtected file then none
  else (sourcesAt findings file).findSome? (faultOf registry safe)

theorem turn_eq_error_iff {text : List Char} (hread : t.read root file = .ok text) :
    turn registry safe root findings t file = .error e ↔
      faultAt registry safe findings file = some e := by
  unfold faultAt
  cases hopen : Path.isProtected file with
  | true => simp [turn_of_error (.inl hopen)]
  | false =>
    obtain ⟨place, bytes, hlook, hdecode⟩ := Tree.look_of_read hread
    rw [turn_of_text hopen hlook hdecode, if_neg (by simp),
      ← repaired_eq_error_iff]
    cases repaired registry safe (sourcesAt findings file) text <;> simp [Except.map]

/-- A file that can be read still can after the turn of another one. -/
theorem exists_read_of_turn {other : String} {x : Option Write}
    (h : turn registry safe root findings t file = .ok x)
    (hread : ∃ text, t.read root other = .ok text) :
    ∃ text, (t.putAll x.toList).read root other = .ok text := by
  cases x with
  | none => exact hread
  | some x =>
    obtain ⟨text, htext⟩ := hread
    obtain ⟨old, new, hplace, hnew⟩ := turn_eq_some h
    obtain ⟨place, bytes, hlook, hdecode⟩ := Tree.look_of_read htext
    have hput : (t.putAll [x]).look root other = (t.look root other).put x.place x.bytes :=
      Tree.look_put (by rw [Tree.file?_of_look hplace, Option.isSome_some]) _ _
    rw [hlook, Look.put] at hput
    rw [Option.toList_some, Tree.read_of_look hput]
    split
    · exact ⟨_, rfl⟩
    · rename_i hnone
      -- The other file may be the one that was written: what was written is a text.
      by_cases hsame : place = x.place
      · simp [hsame, hnew, Text.decode?_encode] at hnone
      · simp [hsame, hdecode] at hnone

/-- The turns of files that can be read end with the first of their faults. -/
theorem turns_fault {files : List String}
    (hread : ∀ file ∈ files, ∃ text, t.read root file = .ok text) :
    (turns registry safe root findings t files).2 =
      files.findSome? (faultAt registry safe findings) := by
  induction files generalizing t with
  | nil => rfl
  | cons file files ih =>
    obtain ⟨text, htext⟩ := hread file (by simp)
    rw [turns, List.findSome?_cons]
    cases hturn : turn registry safe root findings t file with
    | error e => simp [(turn_eq_error_iff htext).mp hturn]
    | ok x =>
      have hnone : faultAt registry safe findings file = none := by
        rw [Option.eq_none_iff_forall_ne_some]
        intro e he
        rw [(turn_eq_error_iff htext).mpr he] at hturn
        cases hturn
      simp only [hnone]
      exact ih fun other hother => exists_read_of_turn hturn (hread other (by simp [hother]))

end Project

end RailsUpgrade
