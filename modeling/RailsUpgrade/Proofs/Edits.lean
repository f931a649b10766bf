import RailsUpgrade.Proofs.Stopped

/-!
# `RailsUpgrade.Proofs.Edits`: editing files one after the other

An edit looks at the bytes of one file only, so edits of different files do not show in each other:
what they write is up to the tree that they start from.

* `edited?` is what an edit makes of bytes, `editOf` what it writes;
* `exec_editAll`: edits of different files write what `editOf` says of the tree before them, unless
  the change fails on some text;
* `file?_putAll_edits`: every file that is listed gets its new bytes, and no other file changes.
-/

set_option autoImplicit false

namespace RailsUpgrade

namespace Tree

variable {t : Tree}

/-- Files that get new bytes leave a tree well formed. -/
theorem WellFormed.putAll (ht : t.WellFormed) {writes : List Write}
    (h : ∀ x ∈ writes, (t.file? x.place).isSome) : (t.putAll writes).WellFormed := by
  induction writes generalizing t with
  | nil => exact ht
  | cons x writes ih =>
    refine ih (ht.put (h x (by simp)) x.bytes) fun y hy => ?_
    rw [file?_put]
    split
    · rfl
    · exact h y (by simp [hy])

/-- Files that get new bytes are the files that there were. -/
theorem isSome_file?_putAll {writes : List Write} (h : ∀ x ∈ writes, (t.file? x.place).isSome)
    (q : Place) : ((t.putAll writes).file? q).isSome = (t.file? q).isSome := by
  induction writes generalizing t with
  | nil => rfl
  | cons x writes ih =>
    have hput : ∀ q, ((t.put x.place x.bytes).file? q).isSome = (t.file? q).isSome := by
      intro q
      rw [file?_put]
      split
      · rename_i heq
        rw [heq, h x (by simp), Option.isSome_some]
      · rfl
    refine (ih fun y hy => ?_).trans (hput q)
    rw [hput]
    exact h y (by simp [hy])

end Tree

namespace Run

variable {root : Root} {change : List Char → Except Failure (List Char)} {t : Tree}

/-- What an edit makes of the bytes of a file, if it changes its text. -/
def edited? (change : List Char → Except Failure (List Char)) (bytes : ByteArray) :
    Option ByteArray :=
  (Text.decode? bytes).bind fun text => match change text with
    | .ok new => if new = text then none else some (Text.encode new)
    | .error _ => none

/-- What an edit of the file that a path leads to writes. -/
def editOf (root : Root) (change : List Char → Except Failure (List Char)) (t : Tree)
    (path : String) : Option Write :=
  match t.look root path with
  | .file place bytes => (edited? change bytes).map (Write.mk place)
  | _ => none

/-- What an edit writes is at the place that its path leads to. -/
theorem editOf_eq_some {path : String} {x : Write} (h : editOf root change t path = some x) :
    ∃ bytes, t.look root path = .file x.place bytes ∧ edited? change bytes = some x.bytes := by
  unfold editOf at h
  split at h
  · rename_i place bytes hlook
    obtain ⟨new, hnew, rfl⟩ := Option.map_eq_some_iff.mp h
    exact ⟨bytes, hlook, hnew⟩
  · cases h

variable (root change) in
/-- An edit ends with a failure of the change, or it writes what `editOf` says. -/
theorem exec_edit {w : Workspace} (ht : w.tree.WellFormed) {path : String}
    (hne : (Path.Lexical.parse path).names ≠ []) :
    (∃ text failure, change text = .error failure ∧
      exec (edit root change path) w = (.error failure, w)) ∨
    ∃ notices, exec (edit root change path) w =
      (.ok (editOf root change w.tree path).isSome,
        w.after (editOf root change w.tree path).toList notices) := by
  rw [edit, exec_tree_bind]
  cases hread : w.tree.read root path with
  -- What is not read is no file, or no text. Either way nothing is written.
  | error fault =>
    have hnone : editOf root change w.tree path = none := by
      unfold editOf
      split
      · rename_i place bytes hlook
        rw [Tree.read_of_look hlook] at hread
        unfold edited?
        cases hdecode : Text.decode? bytes with
        | none => rfl
        | some text => simp [hdecode] at hread
      · rfl
    refine .inr ⟨w.notices ++ [.skipped (Path.Lexical.parse path).text fault], ?_⟩
    rw [hnone, exec_note_bind]
    simp
  | ok text =>
    obtain ⟨place, bytes, hlook, hdecode⟩ := Tree.look_of_read hread
    simp only
    cases hchange : change text with
    | error failure => exact .inl ⟨text, failure, hchange, rfl⟩
    | ok new =>
      refine .inr ⟨w.notices, ?_⟩
      -- A text that stays the same is not written either.
      by_cases hsame : new = text
      · have hnone : editOf root change w.tree path = none := by
          simp [editOf, hlook, edited?, hdecode, hchange, hsame]
        simp [hnone, hsame]
      · have hsome : editOf root change w.tree path = some ⟨place, Text.encode new⟩ := by
          simp [editOf, hlook, edited?, hdecode, hchange, hsame]
        have hwrite := Tree.write_of_look ht hne hlook new
        simp only [beq_iff_eq, hsame, if_false, hsome, Option.isSome_some]
        rw [exec_bind_of_ok (exec_write_ok hwrite)]
        rfl

section

variable {names others : List String}

/-- The edit of a file looks at the bytes of this file only. -/
theorem editOf_ofNames (ht : t.WellFormed) (hnames : Path.AreNames names) :
    editOf root change t (Path.ofNames names) = (t.file? (root.place ++ names)).bind fun bytes =>
      (edited? change bytes).map (Write.mk (root.place ++ names)) := by
  cases hfile : t.file? (root.place ++ names) with
  | some bytes =>
    rw [editOf, Tree.look_of_file? ht hnames.ne_nil hfile]
    rfl
  | none =>
    unfold editOf
    split
    · rename_i place bytes hlook
      have hfound := Tree.file?_of_look hlook
      rw [Tree.place_of_look ht hnames hlook, hfile] at hfound
      cases hfound
    · rfl

theorem place_of_editOf (ht : t.WellFormed) (hnames : Path.AreNames names) {x : Write}
    (h : editOf root change t (Path.ofNames names) = some x) : x.place = root.place ++ names := by
  obtain ⟨bytes, hlook, -⟩ := editOf_eq_some h
  exact Tree.place_of_look ht hnames hlook

/-- What edits write, each of them on its own. -/
def editsOf (root : Root) (change : List Char → Except Failure (List Char)) (t : Tree)
    (paths : List String) : List Write :=
  paths.filterMap (editOf root change t)

/-- Paths of different files. -/
structure ArePaths (paths : List String) : Prop where
  nodup : paths.Nodup
  isNames : ∀ path ∈ paths, ∃ names, Path.AreNames names ∧ path = Path.ofNames names

theorem ArePaths.of_sublist {paths more : List String} (h : ArePaths more) (hsub : paths.Sublist more) :
    ArePaths paths :=
  ⟨h.nodup.sublist hsub, fun path hpath => h.isNames path (hsub.subset hpath)⟩

theorem file?_isSome_of_mem_editsOf {paths : List String} {x : Write}
    (h : x ∈ editsOf root change t paths) : (t.file? x.place).isSome := by
  obtain ⟨path, -, hx⟩ := List.mem_filterMap.mp h
  obtain ⟨bytes, hlook, -⟩ := editOf_eq_some hx
  rw [Tree.file?_of_look hlook, Option.isSome_some]

/-- Edits of other files make no difference to the edit of a file. -/
theorem editOf_putAll (ht : t.WellFormed) {writes : List Write}
    (hwrites : ∀ x ∈ writes, (t.file? x.place).isSome) (hnames : Path.AreNames names)
    (hother : root.place ++ names ∉ writes.map Write.place) :
    editOf root change (t.putAll writes) (Path.ofNames names) =
      editOf root change t (Path.ofNames names) := by
  rw [editOf_ofNames (ht.putAll hwrites) hnames, editOf_ofNames ht hnames,
    Tree.file?_putAll_of_notMem hother]

/-- Where edits of files write. -/
theorem mem_places_editsOf (ht : t.WellFormed) {paths : List String} (hpaths : ArePaths paths)
    (hnames : Path.AreNames names) :
    root.place ++ names ∈ (editsOf root change t paths).map Write.place ↔
      Path.ofNames names ∈ paths ∧ (editOf root change t (Path.ofNames names)).isSome := by
  constructor
  · intro h
    obtain ⟨x, hx, hplace⟩ := List.mem_map.mp h
    obtain ⟨path, hpath, hedit⟩ := List.mem_filterMap.mp hx
    obtain ⟨others, hothers, rfl⟩ := hpaths.isNames path hpath
    obtain rfl : names = others :=
      List.append_cancel_left (hplace.symm.trans (place_of_editOf ht hothers hedit))
    exact ⟨hpath, by rw [hedit, Option.isSome_some]⟩
  · rintro ⟨hpath, hsome⟩
    obtain ⟨x, hx⟩ := Option.isSome_iff_exists.mp hsome
    exact List.mem_map.mpr ⟨x, List.mem_filterMap.mpr ⟨_, hpath, hx⟩, place_of_editOf ht hnames hx⟩

variable (root change) in
theorem nodup_places_editsOf (ht : t.WellFormed) {paths : List String} (hpaths : ArePaths paths) :
    ((editsOf root change t paths).map Write.place).Nodup := by
  induction paths with
  | nil => exact List.nodup_nil
  | cons path paths ih =>
    have hrest := hpaths.of_sublist (List.sublist_cons_self path paths)
    obtain ⟨names, hnames, rfl⟩ := hpaths.isNames path (by simp)
    rw [editsOf, List.filterMap_cons]
    split
    · exact ih hrest
    · rename_i x hx
      rw [List.map_cons, List.nodup_cons, place_of_editOf ht hnames hx]
      refine ⟨fun hmem => ?_, ih hrest⟩
      exact (List.nodup_cons.mp hpaths.nodup).1 ((mem_places_editsOf ht hrest hnames).mp hmem).1

variable (root change) in
/-- Edits of different files write what `editOf` says of the tree before them, unless the change
fails on some text. -/
theorem exec_editAll {w : Workspace} (ht : w.tree.WellFormed) {paths : List String}
    (hpaths : ArePaths paths) :
    (∃ text failure w', change text = .error failure ∧
      exec (editAll root change paths) w = (.error failure, w')) ∨
    ∃ notices, exec (editAll root change paths) w =
      (.ok (paths.filter fun path => (editOf root change w.tree path).isSome),
        w.after (editsOf root change w.tree paths) notices) := by
  induction paths generalizing w with
  | nil => exact .inr ⟨w.notices, by simp [editAll, editsOf]⟩
  | cons path paths ih =>
    have hrest := hpaths.of_sublist (List.sublist_cons_self path paths)
    obtain ⟨names, hnames, rfl⟩ := hpaths.isNames path (by simp)
    have hne : (Path.Lexical.parse (Path.ofNames names)).names ≠ [] := by
      rw [Path.parse_ofNames hnames.ne_nil hnames.isName]
      exact hnames.ne_nil
    rw [editAll]
    rcases exec_edit root change ht hne with
      ⟨text, failure, hchange, hedit⟩ | ⟨notices, hedit⟩
    · exact .inl ⟨text, failure, w, hchange, exec_bind_of_error hedit⟩
    · rw [exec_bind_of_ok hedit]
      generalize hx : editOf root change w.tree (Path.ofNames names) = x at hedit ⊢
      have hsome : ∀ y ∈ x.toList, (w.tree.file? y.place).isSome := by
        intro y hy
        rw [Option.mem_toList.mp hy] at hx
        exact file?_isSome_of_mem_editsOf (List.mem_filterMap.mpr ⟨_, List.mem_singleton_self _, hx⟩)
      -- The first edit does not show in the others.
      have hlater : ∀ path ∈ paths, editOf root change (w.tree.putAll x.toList) path =
          editOf root change w.tree path := by
        intro path hpath
        obtain ⟨others, hothers, rfl⟩ := hrest.isNames path hpath
        apply editOf_putAll ht hsome hothers
        intro hmem
        obtain ⟨y, hy, hplace⟩ := List.mem_map.mp hmem
        rw [Option.mem_toList.mp hy] at hx
        rw [place_of_editOf ht hnames hx] at hplace
        have hsame : names = others := List.append_cancel_left hplace
        exact (List.nodup_cons.mp hpaths.nodup).1 (hsame ▸ hpath)
      have hedits : editsOf root change w.tree (Path.ofNames names :: paths) =
          x.toList ++ editsOf root change w.tree paths := by
        cases x <;> simp [editsOf, hx]
      rcases ih (w := w.after x.toList notices) (ht.putAll hsome) hrest with
        ⟨text, failure, w', hchange, hmore⟩ | ⟨others, hmore⟩
      · exact .inl ⟨text, failure, w', hchange, exec_bind_of_error hmore⟩
      · have htree : (w.after x.toList notices).tree = w.tree.putAll x.toList := rfl
        rw [htree, editsOf, List.filterMap_congr hlater, ← editsOf, Workspace.after_after,
          ← hedits, List.filter_congr fun path hpath => by rw [hlater path hpath]] at hmore
        refine .inr ⟨others, ?_⟩
        rw [exec_bind_of_ok hmore, List.filter_cons, hx]
        rfl

/-- Edits whose change always fails end only if there is nothing to read. -/
theorem exists_fault_of_editAll (hfails : ∀ text, ∃ failure, change text = .error failure)
    {paths told : List String} {w w' : Workspace}
    (h : exec (editAll root change paths) w = (.ok told, w')) :
    ∀ path ∈ paths, ∃ fault, w.tree.read root path = .error fault := by
  induction paths generalizing w w' told with
  | nil =>
    intro path hpath
    cases hpath
  | cons path paths ih =>
    rw [editAll] at h
    obtain ⟨changed, w₁, hedit, hrest⟩ := exec_bind_eq_ok h
    obtain ⟨more, w₂, hmore, -⟩ := exec_bind_eq_ok hrest
    rw [edit, exec_tree_bind] at hedit
    cases hread : w.tree.read root path with
    | error fault =>
      rw [hread] at hedit
      cases hedit
      intro other hother
      rcases List.mem_cons.mp hother with rfl | hother
      · exact ⟨fault, hread⟩
      · exact ih hmore other hother
    | ok text =>
      obtain ⟨failure, hfailure⟩ := hfails text
      simp only [hread, hfailure] at hedit
      cases hedit

/-- Edits of different files: every file that is listed gets its new bytes, and no other file
changes. -/
theorem file?_putAll_editsOf (ht : t.WellFormed) {paths : List String} (hpaths : ArePaths paths)
    (hnames : Path.AreNames names) :
    (t.putAll (editsOf root change t paths)).file? (root.place ++ names) =
      if Path.ofNames names ∈ paths then
        (t.file? (root.place ++ names)).map fun bytes => (edited? change bytes).getD bytes
      else t.file? (root.place ++ names) := by
  by_cases hwritten : root.place ++ names ∈ (editsOf root change t paths).map Write.place
  · obtain ⟨hpath, hsome⟩ := (mem_places_editsOf ht hpaths hnames).mp hwritten
    obtain ⟨x, hx⟩ := Option.isSome_iff_exists.mp hsome
    have hmem : x ∈ editsOf root change t paths := List.mem_filterMap.mpr ⟨_, hpath, hx⟩
    have hplace := place_of_editOf ht hnames hx
    rw [if_pos hpath, ← hplace, Tree.file?_putAll_of_mem (nodup_places_editsOf root change ht hpaths) hmem]
    obtain ⟨bytes, hlook, hbytes⟩ := editOf_eq_some hx
    rw [Tree.file?_of_look hlook, Option.map_some, hbytes, Option.getD_some]
  · rw [Tree.file?_putAll_of_notMem hwritten]
    split
    · rename_i hpath
      -- An edit that writes nothing leaves the bytes as they are.
      have hnone : editOf root change t (Path.ofNames names) = none := by
        by_contra hne
        exact hwritten ((mem_places_editsOf ht hpaths hnames).mpr
          ⟨hpath, Option.isSome_iff_ne_none.mpr hne⟩)
      rw [editOf_ofNames ht hnames] at hnone
      cases hfile : t.file? (root.place ++ names) with
      | none => rfl
      | some bytes =>
        rw [hfile, Option.bind_some, Option.map_eq_none_iff] at hnone
        rw [Option.map_some, hnone, Option.getD_none]
    · rfl

end

end Run

end RailsUpgrade
