import RailsUpgrade.Proofs.Turns

/-!
# `RailsUpgrade.Proofs.Stopped`: what a faulty template leaves behind

Files have their turns one after the other, and a fault in the template of a repair ends the run in
the turn of some file. No file is half repaired then: those before it have had their turns, and all
others are as they were.

* `turn_ofNames`: the turn of a file looks at the bytes of this file only;
* `turns_append`: files that have had their turns make no difference to those after them;
* `Stopped`: what is left of a run that a fault has ended;
* `repair_stopped`: a fault ends a run exactly if the repairs of some file have one, and this is what
  is left.
-/

set_option autoImplicit false

namespace RailsUpgrade.Project

variable {registry : Registry} {safe : Bool} {root : Root} {o : Options} {findings : List Finding}
  {t : Tree} {names others : List String}

/-! ### Turns of different files -/

/-- The turn of a file looks at the bytes of this file only. -/
theorem turn_ofNames (ht : t.WellFormed) (hnames : Path.AreNames names) :
    turn registry safe root findings t (Path.ofNames names) =
      match t.file? (root.place ++ names) with
      | some bytes => (rewritten registry safe (Path.ofNames names)
          (sourcesAt findings (Path.ofNames names)) bytes).map
            (·.map (Write.mk (root.place ++ names)))
      | none => .ok none := by
  cases hfile : t.file? (root.place ++ names) with
  | some bytes => rw [turn, Tree.look_of_file? ht hnames.ne_nil hfile]
  | none =>
    unfold turn
    split
    · rename_i place bytes hlook
      have hfound := Tree.file?_of_look hlook
      rw [Tree.place_of_look ht hnames hlook, hfile] at hfound
      cases hfound
    · rfl

/-- What the turn of a file writes is at the names of the file. -/
theorem place_of_turn (ht : t.WellFormed) (hnames : Path.AreNames names) {x : Write}
    (h : turn registry safe root findings t (Path.ofNames names) = .ok (some x)) :
    x.place = root.place ++ names := by
  obtain ⟨bytes, -, hlook, -⟩ := turn_eq_some h
  exact Tree.place_of_look ht hnames hlook

/-- The turn of another file makes no difference. -/
theorem turn_of_other (ht : t.WellFormed) (hnames : Path.AreNames names)
    (hothers : Path.AreNames others) (hne : Path.ofNames names ≠ Path.ofNames others)
    {x : Option Write} (h : turn registry safe root findings t (Path.ofNames others) = .ok x) :
    turn registry safe root findings (t.putAll x.toList) (Path.ofNames names) =
      turn registry safe root findings t (Path.ofNames names) := by
  have hsame : (t.putAll x.toList).file? (root.place ++ names) = t.file? (root.place ++ names) := by
    apply Tree.file?_putAll_of_notMem
    cases x with
    | none => simp
    | some x =>
      rw [Option.toList_some, List.map_singleton, List.mem_singleton, place_of_turn ht hothers h]
      exact fun heq => hne (by rw [List.append_cancel_left heq])
  rw [turn_ofNames (wellFormed_of_turn ht h) hnames, turn_ofNames ht hnames, hsame]

variable (registry safe root findings t) in
/-- What the turns of files write, each of them on its own. -/
def writtenBy (files : List String) : List Write :=
  files.filterMap fun file => (turn registry safe root findings t file).toOption.join

theorem writtenBy_cons {file : String} {files : List String} {x : Option Write}
    (h : turn registry safe root findings t file = .ok x) :
    writtenBy registry safe root findings t (file :: files) =
      x.toList ++ writtenBy registry safe root findings t files := by
  cases x <;> simp [writtenBy, h, Except.toOption]

/-- Files that have had their turns make no difference to those after them. -/
theorem turns_append {before rest : List String} (ht : t.WellFormed)
    (hnodup : (before ++ rest).Nodup)
    (hnames : ∀ file ∈ before ++ rest, ∃ names, Path.AreNames names ∧ file = Path.ofNames names)
    (hok : ∀ file ∈ before, ∃ x, turn registry safe root findings t file = .ok x) :
    ∃ t', t' = t.putAll (writtenBy registry safe root findings t before) ∧
      turns registry safe root findings t (before ++ rest) =
        (writtenBy registry safe root findings t before ++
          (turns registry safe root findings t' rest).1,
          (turns registry safe root findings t' rest).2) ∧
      ∀ file ∈ rest, turn registry safe root findings t' file =
        turn registry safe root findings t file := by
  induction before generalizing t with
  | nil => exact ⟨t, rfl, rfl, fun _ _ => rfl⟩
  | cons first before ih =>
    obtain ⟨x, hx⟩ := hok first (by simp)
    obtain ⟨hnew, hdistinct⟩ := List.nodup_cons.mp hnodup
    obtain ⟨firstNames, hfirst, rfl⟩ := hnames first (by simp)
    have hlater : ∀ file ∈ before ++ rest, ∃ names, Path.AreNames names ∧
        file = Path.ofNames names := fun file hfile => hnames file (List.mem_cons_of_mem _ hfile)
    -- The turn of the first file does not show in those of the others.
    have hother : ∀ file ∈ before ++ rest,
        turn registry safe root findings (t.putAll x.toList) file =
          turn registry safe root findings t file := by
      intro file hfile
      obtain ⟨names, hnames, rfl⟩ := hlater file hfile
      exact turn_of_other ht hnames hfirst (fun heq => hnew (heq ▸ hfile)) hx
    have hbefore : ∀ file ∈ before, turn registry safe root findings (t.putAll x.toList) file =
        turn registry safe root findings t file := fun file hfile =>
      hother file (List.mem_append_left _ hfile)
    have hwritten : writtenBy registry safe root findings (t.putAll x.toList) before =
        writtenBy registry safe root findings t before := by
      apply List.filterMap_congr
      intro file hfile
      rw [hbefore file hfile]
    obtain ⟨t', ht', hturns, hrest⟩ := ih (wellFormed_of_turn ht hx) hdistinct hlater
      fun file hfile => by
        rw [hbefore file hfile]
        exact hok file (List.mem_cons_of_mem _ hfile)
    rw [hwritten] at ht' hturns
    refine ⟨t', ?_, ?_, fun file hfile => ?_⟩
    · rw [ht', writtenBy_cons hx, Tree.putAll_append]
    · rw [List.cons_append, turns, hx]
      simp only [hturns, writtenBy_cons hx, List.append_assoc]
    · rw [hrest file hfile, hother file (List.mem_append_right _ hfile)]

/-! ### What is left -/

/-- What is left of a run that a fault in the repairs of one file has ended. `before` are the files
that have had their turns, and `names` those of the file whose turn it was. -/
structure Stopped (registry : Registry) (o : Options) (root : Root) (findings : List Finding)
    (w : Workspace) (before names : List String) (e : Pattern.TemplateError) (w' : Workspace) :
    Prop where
  isNames : Path.AreNames names
  /-- Files have their turns in the order of their first findings. -/
  order : ∃ after, distinct (findings.map Finding.file) = before ++ Path.ofNames names :: after
  /-- The file whose repairs have the fault keeps its bytes. -/
  fault : ∃ bytes, w.tree.file? (root.place ++ names) = some bytes ∧
    rewritten registry o.safeMode (Path.ofNames names) (sourcesAt findings (Path.ofNames names))
      bytes = .error e ∧
    w'.tree.file? (root.place ++ names) = some bytes
  /-- A file before it holds all that its repairs make of its bytes. -/
  whole : ∀ others bytes, Path.AreNames others → Path.ofNames others ∈ before →
    w.tree.file? (root.place ++ others) = some bytes →
    ∃ result, rewritten registry o.safeMode (Path.ofNames others)
        (sourcesAt findings (Path.ofNames others)) bytes = .ok result ∧
      w'.tree.file? (root.place ++ others) = some (result.getD bytes)
  /-- No other place has changed. -/
  frame : ∀ q, (w.tree.file? q = none ∨
      ∀ others, Path.AreNames others → Path.ofNames others ∈ before → q ≠ root.place ++ others) →
    w'.tree.file? q = w.tree.file? q
  /-- Nothing was written but the files before it whose repairs change them, each once. -/
  writes : w'.writes = w.writes ++ writtenBy registry o.safeMode root findings w.tree before

/-- The places of what the turns of different files write. -/
theorem mem_writtenBy {files : List String} (ht : t.WellFormed)
    (hfiles : ∀ file ∈ files, ∃ names, Path.AreNames names ∧ file = Path.ofNames names) {x : Write}
    (h : x ∈ writtenBy registry safe root findings t files) :
    ∃ names, Path.AreNames names ∧ Path.ofNames names ∈ files ∧ x.place = root.place ++ names ∧
      turn registry safe root findings t (Path.ofNames names) = .ok (some x) := by
  obtain ⟨file, hfile, hx⟩ := List.mem_filterMap.mp h
  obtain ⟨names, hnames, rfl⟩ := hfiles file hfile
  have hturn : turn registry safe root findings t (Path.ofNames names) = .ok (some x) := by
    cases hturn : turn registry safe root findings t (Path.ofNames names) with
    | error e => simp [hturn, Except.toOption] at hx
    | ok y =>
      rw [hturn] at hx
      rw [show y = some x from hx]
  exact ⟨names, hnames, hfile, place_of_turn ht hnames hturn, hturn⟩

variable (registry safe root findings) in
theorem nodup_places_writtenBy {files : List String} (ht : t.WellFormed) (hnodup : files.Nodup)
    (hfiles : ∀ file ∈ files, ∃ names, Path.AreNames names ∧ file = Path.ofNames names) :
    ((writtenBy registry safe root findings t files).map Write.place).Nodup := by
  induction files with
  | nil => exact List.nodup_nil
  | cons file files ih =>
    obtain ⟨hnew, hdistinct⟩ := List.nodup_cons.mp hnodup
    have hlater : ∀ file ∈ files, ∃ names, Path.AreNames names ∧ file = Path.ofNames names :=
      fun other hother => hfiles other (List.mem_cons_of_mem _ hother)
    rw [writtenBy, List.filterMap_cons]
    split
    · exact ih hdistinct hlater
    · rename_i x hx
      rw [List.map_cons, List.nodup_cons]
      refine ⟨fun hmem => ?_, ih hdistinct hlater⟩
      -- A second write at this place would be that of a file with the same names.
      obtain ⟨y, hy, hplace⟩ := List.mem_map.mp hmem
      obtain ⟨names, -, hnames, hyplace, -⟩ := mem_writtenBy ht hlater hy
      have hxmem : x ∈ writtenBy registry safe root findings t [file] :=
        List.mem_filterMap.mpr ⟨file, by simp, hx⟩
      obtain ⟨firsts, -, hfirst, hxplace, -⟩ := mem_writtenBy ht
        (fun other hother => hfiles other (by simp [List.mem_singleton.mp hother])) hxmem
      rw [hyplace, hxplace] at hplace
      rw [List.append_cancel_left hplace, List.mem_singleton.mp hfirst] at hnames
      exact hnew hnames

variable (registry safe root findings t) in
/-- Files either have turns without faults, or there is a first one whose turn has one. -/
theorem exists_first_fault (files : List String) :
    (∀ file ∈ files, ∃ x, turn registry safe root findings t file = .ok x) ∨
      ∃ before file after e, files = before ++ file :: after ∧
        (∀ file ∈ before, ∃ x, turn registry safe root findings t file = .ok x) ∧
        turn registry safe root findings t file = .error e := by
  induction files with
  | nil => exact .inl (by simp)
  | cons file files ih =>
    cases hturn : turn registry safe root findings t file with
    | error e => exact .inr ⟨[], file, files, e, rfl, by simp, hturn⟩
    | ok x =>
      refine ih.imp (fun hall => ?_) ?_
      · exact List.forall_mem_cons.mpr ⟨⟨x, hturn⟩, hall⟩
      · rintro ⟨before, other, after, e, rfl, hbefore, hfault⟩
        exact ⟨file :: before, other, after, e, rfl,
          List.forall_mem_cons.mpr ⟨⟨x, hturn⟩, hbefore⟩, hfault⟩

section
variable {files : List String} (ht : t.WellFormed) (hnodup : files.Nodup)
  (hfiles : ∀ file ∈ files, ∃ names, Path.AreNames names ∧ file = Path.ofNames names)
include ht hnodup hfiles

/-- Turns without faults are all had. -/
theorem turns_of_ok (hok : ∀ file ∈ files, ∃ x, turn registry safe root findings t file = .ok x) :
    (turns registry safe root findings t files).2 = none := by
  rw [← List.append_nil files] at hnodup hfiles
  obtain ⟨t', -, hturns, -⟩ := turns_append ht hnodup hfiles hok
  rw [List.append_nil] at hturns
  rw [hturns]
  rfl

/-- Turns end with the first fault. -/
theorem turns_of_fault {before after : List String} {file : String} {e : Pattern.TemplateError}
    (hsplit : files = before ++ file :: after)
    (hok : ∀ file ∈ before, ∃ x, turn registry safe root findings t file = .ok x)
    (hfault : turn registry safe root findings t file = .error e) :
    turns registry safe root findings t files =
      (writtenBy registry safe root findings t before, some e) := by
  subst hsplit
  obtain ⟨t', -, hturns, hrest⟩ := turns_append ht hnodup hfiles hok
  have hfile := hrest file (by simp)
  rw [hturns, turns, hfile, hfault]
  simp

end

/-- A turn with a fault is that of a file whose repairs have it. -/
theorem turn_ofNames_eq_error (ht : t.WellFormed) (hnames : Path.AreNames names)
    {e : Pattern.TemplateError} :
    turn registry safe root findings t (Path.ofNames names) = .error e ↔
      ∃ bytes, t.file? (root.place ++ names) = some bytes ∧
        rewritten registry safe (Path.ofNames names) (sourcesAt findings (Path.ofNames names))
          bytes = .error e := by
  rw [turn_ofNames ht hnames]
  cases t.file? (root.place ++ names) with
  | none => simp
  | some bytes =>
    simp only [Option.some.injEq, exists_eq_left']
    cases rewritten registry safe (Path.ofNames names) (sourcesAt findings (Path.ofNames names))
      bytes <;> simp [Except.map]

section
variable {files : List String} (ht : t.WellFormed)
  (hfiles : ∀ file ∈ files, ∃ names, Path.AreNames names ∧ file = Path.ofNames names)
include ht hfiles

/-- The turns of files make no new file, and change no file but these. -/
theorem file?_written_of_other {q : Place}
    (hq : t.file? q = none ∨ ∀ names, Path.AreNames names → Path.ofNames names ∈ files →
      q ≠ root.place ++ names) :
    (t.putAll (writtenBy registry safe root findings t files)).file? q = t.file? q := by
  apply Tree.file?_putAll_of_notMem
  intro hmem
  obtain ⟨x, hx, rfl⟩ := List.mem_map.mp hmem
  obtain ⟨names, hnames, hfile, hplace, hturn⟩ := mem_writtenBy ht hfiles hx
  obtain hnone | hother := hq
  · obtain ⟨bytes, -, hlook, -⟩ := turn_eq_some hturn
    rw [Tree.file?_of_look hlook] at hnone
    cases hnone
  · exact hother names hnames hfile hplace

/-- A file whose turn has no fault holds what its repairs make of it after the turns of all files. -/
theorem file?_written (hnodup : files.Nodup) (hnames : Path.AreNames names)
    (hmem : Path.ofNames names ∈ files) {x : Option Write}
    (hx : turn registry safe root findings t (Path.ofNames names) = .ok x) {bytes : ByteArray}
    (hbytes : t.file? (root.place ++ names) = some bytes) :
    ∃ result, rewritten registry safe (Path.ofNames names)
        (sourcesAt findings (Path.ofNames names)) bytes = .ok result ∧
      (t.putAll (writtenBy registry safe root findings t files)).file? (root.place ++ names) =
        some (result.getD bytes) := by
  have hturn := hx
  rw [turn_ofNames ht hnames, hbytes] at hturn
  cases hrewritten : rewritten registry safe (Path.ofNames names)
      (sourcesAt findings (Path.ofNames names)) bytes with
  | error e => simp [hrewritten, Except.map] at hturn
  | ok result =>
    obtain rfl : result.map (Write.mk (root.place ++ names)) = x := by
      simpa [hrewritten, Except.map] using hturn
    refine ⟨result, rfl, ?_⟩
    cases result with
    | none =>
      -- A write at the place of this file would be one of its own turn.
      rw [Option.getD_none, ← hbytes]
      apply Tree.file?_putAll_of_notMem
      intro hplace
      obtain ⟨y, hy, hplace⟩ := List.mem_map.mp hplace
      obtain ⟨others, -, -, hother, hturn⟩ := mem_writtenBy ht hfiles hy
      rw [hplace] at hother
      rw [← List.append_cancel_left hother, hx] at hturn
      cases hturn
    | some new =>
      have hwritten : (⟨root.place ++ names, new⟩ : Write) ∈
          writtenBy registry safe root findings t files :=
        List.mem_filterMap.mpr ⟨_, hmem, by rw [hx]; rfl⟩
      exact Tree.file?_putAll_of_mem
        (nodup_places_writtenBy registry safe root findings ht hnodup hfiles) hwritten

end

variable {w : Workspace}

/-- The turns up to the first fault leave what `Stopped` says. -/
theorem stopped_after (ht : w.tree.WellFormed)
    (hfiles : ∀ file ∈ distinct (findings.map Finding.file), ∃ names, Path.AreNames names ∧
      file = Path.ofNames names)
    {before after : List String} {e : Pattern.TemplateError}
    (hsplit : distinct (findings.map Finding.file) = before ++ Path.ofNames names :: after)
    (hnames : Path.AreNames names)
    (hok : ∀ file ∈ before, ∃ x, turn registry o.safeMode root findings w.tree file = .ok x)
    (hfault : turn registry o.safeMode root findings w.tree (Path.ofNames names) = .error e)
    (notices : List Notice) :
    Stopped registry o root findings w before names e
      (w.after (writtenBy registry o.safeMode root findings w.tree before) notices) := by
  have hnodup : (before ++ Path.ofNames names :: after).Nodup := hsplit ▸ nodup_distinct _
  obtain ⟨hdistinct, -, hnew⟩ := List.nodup_append.mp hnodup
  have hbefore : ∀ file ∈ before, ∃ names, Path.AreNames names ∧ file = Path.ofNames names :=
    fun file hfile => hfiles file (by rw [hsplit]; exact List.mem_append_left _ hfile)
  refine ⟨hnames, ⟨after, hsplit⟩, ?_, ?_, fun q => file?_written_of_other ht hbefore, rfl⟩
  · obtain ⟨bytes, hbytes, hrewritten⟩ := (turn_ofNames_eq_error ht hnames).mp hfault
    refine ⟨bytes, hbytes, hrewritten, ?_⟩
    rw [← hbytes]
    refine file?_written_of_other ht hbefore (.inr fun others hothers hmem heq => ?_)
    rw [← List.append_cancel_left heq] at hmem
    exact hnew _ hmem _ (by simp) rfl
  · intro others bytes hothers hmem hbytes
    obtain ⟨x, hx⟩ := hok _ hmem
    exact file?_written ht hbefore hdistinct hothers hmem hx hbytes

variable (registry root) in
/-- The repairs of files come to a fault exactly if those of some file have one. Then the run ends as
they did: the files before this one in the order of first findings hold all that their repairs make of
them, every other file is as it was, and nothing else was written. -/
theorem repair_stopped (ht : w.tree.WellFormed) (hdry : o.dryRun = false)
    (hfindings : ∀ f ∈ findings, ∃ names, Path.AreNames names ∧ f.file = Path.ofNames names) :
    ((∃ failure w', Run.exec (repairFiles root registry o findings
          (distinct (findings.map Finding.file))) w = (.error failure, w')) ↔
      ∃ f ∈ findings, ∃ names bytes e, f.file = Path.ofNames names ∧ Path.AreNames names ∧
        w.tree.file? (root.place ++ names) = some bytes ∧
        rewritten registry o.safeMode f.file (sourcesAt findings f.file) bytes = .error e) ∧
    ∀ failure w', Run.exec (repairFiles root registry o findings
        (distinct (findings.map Finding.file))) w = (.error failure, w') →
      Run.exec (repair root registry o findings) w = (.error failure, w') ∧
      ∃ before names e, failure = .template e ∧
        Stopped registry o root findings w before names e w' := by
  have hfiles : ∀ file ∈ distinct (findings.map Finding.file), ∃ names, Path.AreNames names ∧
      file = Path.ofNames names := by
    intro file hfile
    rw [mem_distinct] at hfile
    obtain ⟨f, hf, rfl⟩ := List.mem_map.mp hfile
    exact hfindings f hf
  have hne : ∀ file ∈ distinct (findings.map Finding.file),
      (Path.Lexical.parse file).names ≠ [] := by
    intro file hfile
    obtain ⟨names, hnames, rfl⟩ := hfiles file hfile
    rw [Path.parse_ofNames hnames.ne_nil hnames.isName]
    exact hnames.ne_nil
  obtain ⟨notices, fixes, hrun⟩ := exec_repairFiles registry root o findings ht hne
  obtain hok | ⟨before, file, after, e, hsplit, hok, hfault⟩ :=
    exists_first_fault registry o.safeMode root findings w.tree
      (distinct (findings.map Finding.file))
  · -- Without a fault all files have their turns.
    rw [turns_of_ok ht (nodup_distinct _) hfiles hok] at hrun
    refine ⟨⟨?_, ?_⟩, ?_⟩
    · rintro ⟨failure, w', h⟩
      rw [hrun] at h
      cases h
    · rintro ⟨f, hf, names, bytes, e, hfile, hnames, hbytes, hrewritten⟩
      rw [hfile] at hrewritten
      obtain ⟨x, hx⟩ := hok f.file ((mem_distinct _ _).mpr (List.mem_map_of_mem hf))
      rw [hfile, (turn_ofNames_eq_error ht hnames).mpr ⟨bytes, hbytes, hrewritten⟩] at hx
      cases hx
    · intro failure w' h
      rw [hrun] at h
      cases h
  · -- With one, the turns of the files before it are had and those after it are not.
    have hmem : file ∈ distinct (findings.map Finding.file) := by simp [hsplit]
    obtain ⟨names, hnames, rfl⟩ := hfiles file hmem
    rw [turns_of_fault ht (nodup_distinct _) hfiles hsplit hok hfault] at hrun
    refine ⟨⟨fun _ => ?_, fun _ => ⟨_, _, hrun⟩⟩, ?_⟩
    · obtain ⟨f, hf, hfile⟩ := List.mem_map.mp ((mem_distinct _ _).mp hmem)
      obtain ⟨bytes, hbytes, hrewritten⟩ := (turn_ofNames_eq_error ht hnames).mp hfault
      exact ⟨f, hf, names, bytes, e, hfile, hnames, hbytes, hfile ▸ hrewritten⟩
    · intro failure w' h
      rw [hrun] at h
      cases h
      refine ⟨?_, before, names, e, rfl, stopped_after ht hfiles hsplit hnames hok hfault notices⟩
      rw [repair, if_neg (by simp [hdry])]
      exact Run.exec_bind_of_error hrun

/-- A sound rule, and one whose template names a group that its pattern does not have. -/
def faultyRules : Registry :=
  (({} : Registry).register (.repair {} "foo" (.template "bar") true)).register
    (.repair {} "old" (.template "\\7") true)

/-- Findings of both rules, in three files. -/
def faultyFindings : List Finding :=
  [⟨"a.rb", "", "foo"⟩, ⟨"b.rb", "", "foo"⟩, ⟨"b.rb", "", "old"⟩, ⟨"c.rb", "", "foo"⟩]

/-- The three files. -/
def faultySpace : Workspace where
  tree := { files := [(["a.rb"], Text.encode ['f', 'o', 'o']),
    (["b.rb"], Text.encode ['f', 'o', 'o', ' ', 'o', 'l', 'd']),
    (["c.rb"], Text.encode ['f', 'o', 'o'])] }

/-- The first repair of the second file succeeds and the next one has a fault: only the first file is
repaired. -/
theorem repair_stopped_second :
    ∃ failure w' before names e,
      Run.exec (repair ⟨[], "."⟩ faultyRules {} faultyFindings) faultySpace = (.error failure, w') ∧
      failure = .template e ∧
      Stopped faultyRules {} ⟨[], "."⟩ faultyFindings faultySpace before names e w' ∧
      w'.tree.file? ["a.rb"] = some (Text.encode ['b', 'a', 'r']) ∧
      w'.tree.file? ["b.rb"] = some (Text.encode ['f', 'o', 'o', ' ', 'o', 'l', 'd']) := by
  have hnames : ∀ f ∈ faultyFindings, ∃ names, Path.AreNames names ∧ f.file = Path.ofNames names := by
    intro f hf
    simp only [faultyFindings, List.mem_cons, List.not_mem_nil, or_false] at hf
    obtain rfl | rfl | rfl | rfl := hf
    · exact ⟨["a.rb"], ⟨by decide, by decide⟩, by decide⟩
    · exact ⟨["b.rb"], ⟨by decide, by decide⟩, by decide⟩
    · exact ⟨["b.rb"], ⟨by decide, by decide⟩, by decide⟩
    · exact ⟨["c.rb"], ⟨by decide, by decide⟩, by decide⟩
  obtain ⟨hiff, hstopped⟩ := repair_stopped faultyRules ⟨[], "."⟩ (o := {}) (w := faultySpace)
    (by decide) rfl hnames
  have hfault : rewritten faultyRules true "b.rb" (sourcesAt faultyFindings "b.rb")
      (Text.encode ['f', 'o', 'o', ' ', 'o', 'l', 'd']) =
        .error (.at (.noSuchGroup 7) "\\7" 1) := by decide +kernel
  obtain ⟨failure, w', hrun⟩ := hiff.mpr ⟨⟨"b.rb", "", "old"⟩, by decide, ["b.rb"], _, _, by decide,
    ⟨by decide, by decide⟩, rfl, hfault⟩
  -- The general theorem names the file where the run stops; the two files of interest are read off.
  obtain ⟨hrepair, before, names, e, hfailure, hleft⟩ := hstopped failure w' hrun
  have hfiles : let w' := (Run.exec (repair ⟨[], "."⟩ faultyRules {} faultyFindings) faultySpace).2
      w'.tree.file? ["a.rb"] = some (Text.encode ['b', 'a', 'r']) ∧
        w'.tree.file? ["b.rb"] = some (Text.encode ['f', 'o', 'o', ' ', 'o', 'l', 'd']) := by
    decide +kernel
  rw [hrepair] at hfiles
  exact ⟨failure, w', before, names, e, hrepair, hfailure, hleft, hfiles⟩

end RailsUpgrade.Project
