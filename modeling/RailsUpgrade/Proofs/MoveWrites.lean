import RailsUpgrade.Proofs.Edits
import RailsUpgrade.Proofs.Redirect
import RailsUpgrade.Proofs.Relocate

/-!
# `RailsUpgrade.Proofs.MoveWrites`: all that a move writes

A move writes the class to its new file, redirects the references to it, and leaves a stub. What it
writes is up to the tree that it starts from:

* `Tree.perform` does to a tree what a write that was recorded has done;
* `redirections`: the writes that redirect references;
* `moveWrites`: all writes of a move, in their order;
* `exec_relocate`: a move does these writes and no others, or its new name is no template.
-/

set_option autoImplicit false

namespace RailsUpgrade

/-! ### Performing writes -/

namespace Tree

variable {t : Tree} {root : Root} {names : List String}

/-- Performs a write on a tree: the directories above the file are made, and it gets its bytes. -/
def perform (t : Tree) (x : Write) : Tree :=
  match t.makeDirs [] x.place.dropLast.reverse with
  | .ok (t, _) => t.put x.place x.bytes
  | .error _ => t

/-- Performs writes one after the other. -/
def performAll (t : Tree) (writes : List Write) : Tree := writes.foldl perform t

theorem performAll_append (t : Tree) (writes more : List Write) :
    t.performAll (writes ++ more) = (t.performAll writes).performAll more :=
  List.foldl_append

/-- A directory is found by following its names from the top. -/
theorem walk_append_of_isDir (ht : t.WellFormed) {here : Place} (hdir : t.isDir here = true)
    (names : List String) : t.walk [] (here ++ names) = t.walk here names := by
  induction here using List.reverseRecOn generalizing names with
  | nil => rfl
  | append_singleton above name ih =>
    have habove : t.isDir above = true := by
      have hup := isDir_dropLast hdir
      rwa [List.dropLast_concat] at hup
    have hfile : t.file? above = none := by
      rw [← Option.not_isSome_iff_eq_none]
      intro hsome
      rw [ht.leaves above hsome] at habove
      cases habove
    have hname : name ≠ ".." := (ht.names_of_isDir hdir name (by simp)).2.2.1
    rw [List.append_assoc, ih habove, List.singleton_append, walk, hfile, habove]
    simp [hname]

theorem walk_nil_of_isDir (ht : t.WellFormed) {here : Place} (hdir : t.isDir here = true) :
    t.walk here [] = .dir here := by
  have hfile : t.file? here = none := by
    rw [← Option.not_isSome_iff_eq_none]
    intro hsome
    rw [ht.leaves here hsome] at hdir
    cases hdir
  simp [walk, hfile, hdir]

/-- Directories are made in the same way from the top and from a directory on the way to them. -/
theorem makeDirs_append_of_isDir (ht : t.WellFormed) {here : Place} (hdir : t.isDir here = true)
    (above : List String) : t.makeDirs [] (above ++ here.reverse) = t.makeDirs here above := by
  induction above with
  | nil =>
    have hwalk := walk_append_of_isDir ht hdir []
    rw [List.append_nil, walk_nil_of_isDir ht hdir] at hwalk
    rw [List.nil_append, makeDirs_of_walk (by rwa [List.reverse_reverse]), makeDirs,
      walk_nil_of_isDir ht hdir]
  | cons name above ih =>
    have hwalk := walk_append_of_isDir ht hdir (name :: above).reverse
    rw [List.cons_append, makeDirs, makeDirs, ih, ← hwalk]
    simp

/-- What a write records is what it does. -/
theorem perform_of_write (ht : t.WellFormed) (hdir : t.isDir root.place = true)
    (hnames : Path.AreNames names) {text : List Char} {t' : Tree} {place : Place}
    (h : t.write root (Path.ofNames names) text = .ok (t', place)) :
    place = root.place ++ names ∧ t.perform ⟨place, Text.encode text⟩ = t' := by
  obtain ⟨above, name, rfl⟩ := (List.eq_nil_or_concat' names).resolve_left hnames.ne_nil
  rw [write, Path.parse_ofNames hnames.ne_nil hnames.isName, List.reverse_append] at h
  simp only [List.reverse_cons, List.reverse_nil, List.nil_append, List.cons_append] at h
  split at h
  · cases h
  · rename_i t₁ dir hmade
    have habove : ∀ n ∈ above.reverse, Path.IsName n := fun n hn =>
      hnames.isName n (by simp [List.mem_reverse.mp hn])
    obtain ⟨rfl, -⟩ := makeDirs_eq_ok ht habove hmade
    split at h
    · cases h
    · cases h
      have hstart : startOf root ⟨0, above ++ [name]⟩ = root.place := rfl
      rw [hstart, ← makeDirs_append_of_isDir ht hdir] at hmade
      rw [hstart, List.reverse_reverse, List.append_assoc]
      refine ⟨rfl, ?_⟩
      have hup : (root.place ++ (above ++ [name])).dropLast.reverse =
          above.reverse ++ root.place.reverse := by
        rw [← List.append_assoc, List.dropLast_concat, List.reverse_append]
      rw [perform, hup, hmade]

/-- A file that is there gets its bytes, and no directory is made. -/
theorem perform_of_file? (ht : t.WellFormed) {x : Write} (h : (t.file? x.place).isSome) :
    t.perform x = t.put x.place x.bytes := by
  obtain ⟨bytes, hbytes⟩ := Option.isSome_iff_exists.mp h
  have hne : x.place ≠ [] := by
    intro hnil
    have hleaf := ht.leaves x.place h
    rw [hnil] at hleaf
    cases hleaf
  have hlt : x.place.dropLast.length < x.place.length := by
    have := List.length_pos_iff.mpr hne
    rw [List.length_dropLast]
    omega
  have hdir : t.isDir x.place.dropLast = true :=
    isDir_of_lt (mem_listed_of_file? hbytes) (List.dropLast_prefix _) hlt
  have hwalk := walk_append_of_isDir ht hdir []
  rw [List.append_nil, walk_nil_of_isDir ht hdir] at hwalk
  rw [perform, makeDirs_of_walk (by rwa [List.reverse_reverse])]

theorem performAll_eq_putAll (ht : t.WellFormed) {writes : List Write}
    (h : ∀ x ∈ writes, (t.file? x.place).isSome) : t.performAll writes = t.putAll writes := by
  induction writes generalizing t with
  | nil => rfl
  | cons x writes ih =>
    have hx := h x (by simp)
    rw [performAll, List.foldl_cons, perform_of_file? ht hx]
    refine ih (ht.put hx x.bytes) fun y hy => ?_
    rw [file?_put]
    split
    · rfl
    · exact h y (by simp [hy])

end Tree

theorem Workspace.after_concat (w : Workspace) (writes : List Write) (x : Write)
    (notices : List Notice) : w.after (writes ++ [x]) notices =
      { tree := (w.tree.putAll writes).put x.place x.bytes, notices,
        writes := w.writes ++ writes ++ [x] } := by
  rw [after, Tree.putAll_append, List.append_assoc]
  rfl

/-- A workspace after writes that may make new files. -/
def Workspace.done (w : Workspace) (writes : List Write) (notices : List Notice) : Workspace :=
  ⟨w.tree.performAll writes, notices, w.writes ++ writes⟩

theorem Workspace.done_done (w : Workspace) (writes more : List Write)
    (notices others : List Notice) :
    (w.done writes notices).done more others = w.done (writes ++ more) others := by
  simp [done, Tree.performAll_append]

namespace Project

open Run (ArePaths editsOf exec_editAll)

variable {root : Root} {r : Relocation} {t : Tree} {w : Workspace}

/-! ### The writes of a move -/

/-- The files whose references a move redirects. -/
def referencePaths (root : Root) (r : Relocation) (t : Tree) : List String :=
  ((Glob.files? t root rubyFiles).getD []).filter fun path =>
    path != r.source && path != r.target && !Path.isProtected path

/-- The change of a text that redirects its references. -/
def redirection (r : Relocation) (text : List Char) : Except Failure (List Char) :=
  (r.redirect text).mapError .template

theorem exec_updateReferences (root : Root) (r : Relocation) (w : Workspace) :
    Run.exec (updateReferences root r) w =
      Run.exec (Run.editAll root (redirection r) (referencePaths root r w.tree)) w :=
  rfl

theorem arePaths_files? (ht : t.WellFormed) {glob : String} (hplain : Glob.isPlain glob = true) :
    ArePaths ((Glob.files? t root glob).getD []) where
  nodup := by
    cases hfiles : Glob.files? t root glob with
    | none => exact List.nodup_nil
    | some files => exact Glob.nodup_files? hfiles
  isNames path hpath := by
    obtain ⟨names, hnames, rfl, -⟩ := Glob.exists_names_of_mem_files? ht hplain hpath
    exact ⟨names, hnames, rfl⟩

variable (root r) in
theorem arePaths_referencePaths (ht : t.WellFormed) : ArePaths (referencePaths root r t) :=
  (arePaths_files? ht isPlain_rubyFiles).of_sublist List.filter_sublist

/-- The references that a move redirects are those of the same files after some of them have got new
bytes. -/
theorem referencePaths_putAll (ht : t.WellFormed) {writes : List Write}
    (h : ∀ x ∈ writes, (t.file? x.place).isSome) :
    referencePaths root r (t.putAll writes) = referencePaths root r t := by
  have hsame : Glob.files? (t.putAll writes) root rubyFiles = Glob.files? t root rubyFiles :=
    Glob.files?_congr (ht.putAll h) ht isPlain_rubyFiles fun names _ _ =>
      Tree.isSome_file?_putAll h (root.place ++ names)
  rw [referencePaths, hsame, referencePaths]

/-- What redirecting the references to a class writes. -/
def redirections (root : Root) (r : Relocation) (t : Tree) : List Write :=
  editsOf root (redirection r) t (referencePaths root r t)

/-- A file has a class that moves: it can be read, it is no stub, and the class is found in it. -/
structure Movable (root : Root) (r : Relocation) (t : Tree) (text : List Char) (c : ClassText) :
    Prop where
  read : t.read root r.source = .ok text
  isOpen : Relocation.stubHeader.toList.isPrefixOf text = false
  found : classIn? r.oldName text = some c

/-- The write that leaves the stub behind. -/
def stubWrite (root : Root) (r : Relocation) : Write :=
  ⟨root.place ++ Path.namesOf r.source, Text.encode r.stub.toList⟩

/-- The write of the class to its new file. -/
def classWrite (root : Root) (r : Relocation) (c : ClassText) : Write :=
  ⟨root.place ++ Path.namesOf r.target, Text.encode (r.movedClass c).toList⟩

/-- All that a move writes, in its order: the new file, the redirected references and the stub. -/
def moveWrites (root : Root) (r : Relocation) (t : Tree) : List Write :=
  match t.read root r.source with
  | .error _ => []
  | .ok text =>
    if Relocation.stubHeader.toList.isPrefixOf text then []
    else match classIn? r.oldName text with
      | none => []
      | some c =>
        if t.existsAt root r.target then redirections root r t ++ [stubWrite root r]
        else match t.write root r.target (r.movedClass c).toList with
          | .error _ => []
          | .ok (t', _) => classWrite root r c :: (redirections root r t' ++ [stubWrite root r])

theorem moveWrites_of_movable {text : List Char} {c : ClassText} (h : Movable root r t text c) :
    moveWrites root r t =
      if t.existsAt root r.target then redirections root r t ++ [stubWrite root r]
      else match t.write root r.target (r.movedClass c).toList with
        | .error _ => []
        | .ok (t', _) => classWrite root r c :: (redirections root r t' ++ [stubWrite root r]) := by
  simp only [moveWrites, h.read, h.isOpen, h.found, Bool.false_eq_true, if_false]

/-- A move without a class gives up, with a notice. -/
theorem relocate_idle (root : Root) (r : Relocation) (w : Workspace) :
    (∃ text c, Movable root r w.tree text c) ∨ moveWrites root r w.tree = [] ∧
      ∃ notices, Run.exec (relocate root r) w = (.ok [], { w with notices }) := by
  rw [relocate, Run.exec_tree_bind, moveWrites]
  cases hread : w.tree.read root r.source with
  | error fault => exact .inr ⟨rfl, _, rfl⟩
  | ok text =>
    cases hheader : Relocation.stubHeader.toList.isPrefixOf text with
    | true =>
      simp only [hheader, if_true]
      exact .inr ⟨trivial, _, rfl⟩
    | false =>
      cases hclass : classIn? r.oldName text with
      | none =>
        simp only [hheader, hclass, Bool.false_eq_true, if_false]
        exact .inr ⟨trivial, _, rfl⟩
      | some c => exact .inl ⟨text, c, hread, hheader, hclass⟩

/-- A move with a class writes the new file, redirects references and leaves the stub. -/
theorem relocate_of_movable {text : List Char} {c : ClassText} (h : Movable root r w.tree text c) :
    Run.exec (relocate root r) w = Run.exec (do
      let written ← writeTarget root r c
      let redirected ← updateReferences root r
      Run.write root r.source r.stub.toList
      Run.note (.moved r.oldConstant r.newConstant)
      return written ++ redirected ++ [r.source]) w := by
  rw [relocate, Run.exec_tree_bind, h.read]
  simp only [h.isOpen, h.found, Bool.false_eq_true, if_false]

variable {source target : List String}

theorem file?_isSome_of_mem_redirections {x : Write} (h : x ∈ redirections root r t) :
    (t.file? x.place).isSome :=
  Run.file?_isSome_of_mem_editsOf h

variable (root) in
/-- Redirecting references does not touch the file that the class is in. -/
theorem source_notMem_redirections (ht : t.WellFormed) (hnamed : r.Named source target) :
    root.place ++ source ∉ (redirections root r t).map Write.place := by
  intro hmem
  obtain ⟨hpath, -⟩ := (Run.mem_places_editsOf ht (arePaths_referencePaths root r ht)
    ⟨hnamed.source_ne, hnamed.source_names⟩).mp hmem
  obtain ⟨-, hother⟩ := List.mem_filter.mp hpath
  simp [hnamed.source_eq] at hother

theorem source_isSome_of_movable (ht : t.WellFormed) (hnamed : r.Named source target)
    {text : List Char} {c : ClassText} (hmovable : Movable root r t text c) :
    (t.file? (root.place ++ source)).isSome := by
  obtain ⟨place, bytes, hlook, -⟩ := Tree.look_of_read hmovable.read
  rw [hnamed.source_eq] at hlook
  obtain rfl := Tree.place_of_look ht ⟨hnamed.source_ne, hnamed.source_names⟩ hlook
  rw [Tree.file?_of_look hlook, Option.isSome_some]

/-- Once the class is in its new file, the old file is as it was, and the new one is there. -/
theorem movable_of_write (ht : t.WellFormed) (hnamed : r.Named source target)
    {text : List Char} {c : ClassText} (hmovable : Movable root r t text c)
    (hexists : t.existsAt root r.target = false) {t₁ : Tree}
    {place : Place} (hwrite : t.write root r.target (r.movedClass c).toList = .ok (t₁, place)) :
    t₁.WellFormed ∧ t₁.look root r.source = t.look root r.source ∧ Movable root r t₁ text c ∧
      t₁.existsAt root r.target = true ∧ place = (classWrite root r c).place ∧
      t.perform (classWrite root r c) = t₁ ∧
      ∀ q, q ≠ root.place ++ target → t₁.file? q = t.file? q := by
  have hnames : Path.AreNames source := ⟨hnamed.source_ne, hnamed.source_names⟩
  have hnew : Path.AreNames target := ⟨hnamed.target_ne, hnamed.target_names⟩
  obtain ⟨place', bytes, hlook, hdecode⟩ := Tree.look_of_read hmovable.read
  rw [hnamed.source_eq] at hlook
  obtain rfl := Tree.place_of_look ht hnames hlook
  have hbytes := Tree.file?_of_look hlook
  have hdir := (Tree.isDir_above_of_file? ht hnames.ne_nil hbytes).1
  -- The two files differ, since the target is not there yet.
  have hapart : root.place ++ source ≠ root.place ++ target := by
    intro heq
    rw [hnamed.target_eq, ← List.append_cancel_left heq, Tree.existsAt, hlook] at hexists
    cases hexists
  rw [hnamed.target_eq] at hwrite ⊢
  obtain ⟨rfl, hperform⟩ := Tree.perform_of_write ht hdir hnew hwrite
  obtain ⟨ht₁, hfiles⟩ := Tree.write_eq_ok ht hnew.ne_nil hnew.isName hwrite
  -- So the class is still where it was, and can be moved as before.
  have hbytes₁ : t₁.file? (root.place ++ source) = some bytes := by
    rw [hfiles, if_neg hapart, hbytes]
  have hlook₁ := Tree.look_of_file? ht₁ hnames.ne_nil hbytes₁
  have hread : t₁.read root r.source = .ok text := by
    rw [← hmovable.read, hnamed.source_eq, Tree.read_of_look hlook₁, Tree.read_of_look hlook]
  have htarget : t₁.existsAt root (Path.ofNames target) = true := by
    rw [Tree.existsAt, Tree.look_of_file? ht₁ hnew.ne_nil (by rw [hfiles, if_pos rfl])]
  have hclass : classWrite root r c =
      ⟨root.place ++ target, Text.encode (r.movedClass c).toList⟩ := by
    rw [classWrite, hnamed.target_eq, Path.namesOf_ofNames hnew.ne_nil hnew.isName]
  exact ⟨ht₁, by rw [hnamed.source_eq, hlook₁, hlook], ⟨hread, hmovable.isOpen, hmovable.found⟩,
    htarget, by rw [hclass], by rw [hclass, hperform], fun q hq => by rw [hfiles, if_neg hq]⟩

/-- The second half of a move: references are redirected, then the stub is left. It fails only if the
new name is no template. -/
theorem exec_redirect_stub (ht : w.tree.WellFormed) (hnamed : r.Named source target)
    (hsource : (w.tree.file? (root.place ++ source)).isSome) (written : List String) :
    let finish : Run (List String) := do
      let redirected ← updateReferences root r
      Run.write root r.source r.stub.toList
      Run.note (.moved r.oldConstant r.newConstant)
      return written ++ redirected ++ [r.source]
    (∃ text e failure w', r.redirect text = .error e ∧ Run.exec finish w = (.error failure, w')) ∨
    ∃ redirected notices, Run.exec finish w = (.ok (written ++ redirected ++ [r.source]),
      w.done (redirections root r w.tree ++ [stubWrite root r]) notices) := by
  intro finish
  have hnames : Path.AreNames source := ⟨hnamed.source_ne, hnamed.source_names⟩
  rcases exec_editAll root (redirection r) ht (arePaths_referencePaths root r ht) with
    ⟨text, failure, w', hfails, hedit⟩ | ⟨notices, hedit⟩
  · rw [← exec_updateReferences] at hedit
    cases hnew : r.redirect text with
    | error e => exact .inl ⟨text, e, failure, w', hnew, Run.exec_bind_of_error hedit⟩
    | ok new =>
      rw [redirection, hnew] at hfails
      cases hfails
  -- References are redirected in files that are there, so the source is still there for its stub.
  · rw [← exec_updateReferences, ← redirections] at hedit
    have hwrites : ∀ x ∈ redirections root r w.tree, (w.tree.file? x.place).isSome :=
      fun x => file?_isSome_of_mem_redirections
    have hthere := (Tree.isSome_file?_putAll hwrites (root.place ++ source)).trans hsource
    obtain ⟨bytes, hbytes⟩ := Option.isSome_iff_exists.mp hthere
    have hlook := Tree.look_of_file? (ht.putAll hwrites) hnames.ne_nil hbytes
    have hne : (Path.Lexical.parse (Path.ofNames source)).names ≠ [] := by
      rw [Path.parse_ofNames hnames.ne_nil hnames.isName]
      exact hnames.ne_nil
    have hwrite := Tree.write_of_look (ht.putAll hwrites) hne hlook r.stub.toList
    rw [← hnamed.source_eq] at hwrite
    have hstub : stubWrite root r = ⟨root.place ++ source, Text.encode r.stub.toList⟩ := by
      rw [stubWrite, hnamed.source_eq, Path.namesOf_ofNames hnames.ne_nil hnames.isName]
    have hall : ∀ x ∈ redirections root r w.tree ++ [stubWrite root r],
        (w.tree.file? x.place).isSome := by
      intro x hx
      obtain hx | hx := List.mem_append.mp hx
      · exact hwrites x hx
      · rw [List.mem_singleton.mp hx, hstub]
        exact hsource
    generalize (referencePaths root r w.tree).filter _ = redirected at hedit
    refine .inr ⟨redirected, notices ++ [.moved r.oldConstant r.newConstant], ?_⟩
    rw [Workspace.done, Tree.performAll_eq_putAll ht hall, ← Workspace.after]
    rw [Run.exec_bind_of_ok hedit, Run.exec_bind_of_ok (Run.exec_write_ok hwrite),
      Run.exec_note_bind, Run.exec_pure, hstub, Workspace.after_concat]
    simp only [Workspace.after]

/-- The first half of a move: the class is in its new file, because there was one or because it was
written. -/
theorem exec_writeTarget (ht : w.tree.WellFormed) (hnamed : r.Named source target)
    {text : List Char} {c : ClassText} (hmovable : Movable root r w.tree text c) :
    (∃ failure, Run.exec (writeTarget root r c) w = (.error failure, w) ∧
      moveWrites root r w.tree = []) ∨
    ∃ written notices new, Run.exec (writeTarget root r c) w = (.ok written, w.done new notices) ∧
      (w.tree.performAll new).WellFormed ∧ Movable root r (w.tree.performAll new) text c ∧
      (∀ q, q ≠ root.place ++ target → (w.tree.performAll new).file? q = w.tree.file? q) ∧
      moveWrites root r w.tree =
        new ++ (redirections root r (w.tree.performAll new) ++ [stubWrite root r]) := by
  rw [moveWrites_of_movable hmovable, writeTarget, Run.exec_tree_bind]
  cases hexists : w.tree.existsAt root r.target with
  -- A target that is there is kept. Otherwise it is written, if it can be.
  | true =>
    refine .inr ⟨[], w.notices ++ [.targetKept r.target], [], ?_, ht, hmovable, fun _ _ => rfl, rfl⟩
    rw [if_pos rfl, Run.exec_note_bind, Run.exec_pure]
    simp [Workspace.done, Tree.performAll]
  | false =>
    simp only [Bool.false_eq_true, if_false]
    cases hwrite : w.tree.write root r.target (r.movedClass c).toList with
    | error fault =>
      refine .inl ⟨.cannotWrite (Path.Lexical.parse r.target).text fault, ?_, rfl⟩
      apply Run.exec_bind_of_error
      rw [Run.write, Run.exec_tree_bind, hwrite]
      rfl
    | ok made =>
      obtain ⟨t₁, place⟩ := made
      obtain ⟨ht₁, -, hmovable₁, -, hplace, hperform, hfiles⟩ :=
        movable_of_write ht hnamed hmovable hexists hwrite
      have hnew : w.tree.performAll [classWrite root r c] = t₁ := hperform
      refine .inr ⟨[r.target], w.notices, [classWrite root r c], ?_, hnew ▸ ht₁, hnew ▸ hmovable₁,
        hnew ▸ hfiles, ?_⟩
      · rw [Run.exec_bind_of_ok (Run.exec_write_ok hwrite), Workspace.done, hnew, hplace]
        rfl
      · rw [hnew]
        rfl

variable (root) in
/-- How a move ends. It writes what `moveWrites` says, and tells its old file if that is anything.
Else its new name is no template, or its new file cannot be written and nothing has happened. -/
theorem exec_relocate (ht : w.tree.WellFormed) (hnamed : r.Named source target) :
    (∃ failure w', Run.exec (relocate root r) w = (.error failure, w') ∧
      ((∃ text e, r.redirect text = .error e) ∨ w' = w ∧ moveWrites root r w.tree = [])) ∨
    ∃ written notices, Run.exec (relocate root r) w =
        (.ok written, w.done (moveWrites root r w.tree) notices) ∧
      (r.source ∈ written ↔ moveWrites root r w.tree ≠ []) := by
  rcases relocate_idle root r w with ⟨text, c, hmovable⟩ | ⟨hnone, notices, hidle⟩
  · rw [relocate_of_movable hmovable]
    rcases exec_writeTarget ht hnamed hmovable with
      ⟨failure, hfails, hnone⟩ | ⟨written, notices, new, hrun, ht₁, hmovable₁, -, hwrites⟩
    · exact .inl ⟨failure, w, Run.exec_bind_of_error hfails, .inr ⟨rfl, hnone⟩⟩
    · rw [Run.exec_bind_of_ok hrun]
      rcases exec_redirect_stub (w := w.done new notices) ht₁ hnamed
        (source_isSome_of_movable ht₁ hnamed hmovable₁) written with
        ⟨text, e, failure, w', he, hfails⟩ | ⟨redirected, others, hdone⟩
      · exact .inl ⟨failure, w', hfails, .inl ⟨text, e, he⟩⟩
      · rw [Workspace.done_done] at hdone
        have hall : moveWrites root r w.tree = new ++ (redirections root r (w.done new notices).tree ++
          [stubWrite root r]) := hwrites
        rw [hall]
        exact .inr ⟨_, others, hdone, by simp⟩
  · refine .inr ⟨[], notices, ?_, by simp [hnone]⟩
    rw [hidle, hnone]
    simp [Workspace.done, Tree.performAll]

end Project

end RailsUpgrade
