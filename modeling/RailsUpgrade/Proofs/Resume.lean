import RailsUpgrade.Proofs.Jobs
import RailsUpgrade.Proofs.MoveWrites

/-!
# `RailsUpgrade.Proofs.Resume`: a move that was interrupted

A move writes the new file, redirects the references, and leaves a stub in the old file last. As long as
the stub is not written the old file is as it was, so the move can be started again, and the references
that were redirected before are not found a second time.

* `Run.editsOf_putAll_of_append`: edits that were interrupted write what was left of them;
* `moveWrites_resume_of_exists`: a move whose new file is there writes what was left of it;
* `moveWrites_resume`: so does a move that was interrupted at any point;
* `settles_redirection`: the references of planned jobs in lower case settle in this way;
* `relocate_resumes`: a planned move that is started again writes the rest and ends in the same tree.
-/

set_option autoImplicit false

namespace RailsUpgrade

/-! ### Edits that were interrupted -/

namespace Run

variable {root : Root} {change : List Char → Except Failure (List Char)} {t : Tree}

/-- A second edit finds nothing to change. -/
def Settles (change : List Char → Except Failure (List Char)) : Prop :=
  ∀ bytes new, edited? change bytes = some new → edited? change new = none

/-- Edits that were interrupted write, when they are started again, what was left of them. -/
theorem editsOf_putAll_of_append (hsettles : Settles change) (ht : t.WellFormed)
    {paths : List String} (hpaths : ArePaths paths) {part rest : List Write}
    (h : editsOf root change t paths = part ++ rest) :
    editsOf root change (t.putAll part) paths = rest := by
  obtain ⟨before, after, rfl, rfl, rfl⟩ := List.filterMap_eq_append_iff.mp h
  have hbefore : ArePaths before := hpaths.of_sublist (List.sublist_append_left _ _)
  have hthere : ∀ x ∈ editsOf root change t before, (t.file? x.place).isSome :=
    fun x => file?_isSome_of_mem_editsOf
  have ht' := ht.putAll hthere
  -- What was written once stays as it is, as the change settles; the other files were not touched.
  have hdone : ∀ path ∈ before, editOf root change (t.putAll (editsOf root change t before)) path =
      none := by
    intro path hpath
    obtain ⟨names, hnames, rfl⟩ := hbefore.isNames path hpath
    rw [editOf_ofNames ht' hnames, file?_putAll_editsOf ht hbefore hnames, if_pos hpath]
    cases t.file? (root.place ++ names) with
    | none => rfl
    | some bytes =>
      rw [Option.map_some, Option.bind_some, Option.map_eq_none_iff]
      cases hnew : edited? change bytes with
      | none => exact hnew
      | some new => exact hsettles bytes new hnew
  have hleft : ∀ path ∈ after, editOf root change (t.putAll (editsOf root change t before)) path =
      editOf root change t path := by
    intro path hpath
    obtain ⟨names, hnames, rfl⟩ := hpaths.isNames path (List.mem_append_right _ hpath)
    refine editOf_putAll ht hthere hnames fun hmem => ?_
    obtain ⟨hfirst, -⟩ := (mem_places_editsOf ht hbefore hnames).mp hmem
    exact (List.nodup_append.mp hpaths.nodup).2.2 _ hfirst _ hpath rfl
  show (before ++ after).filterMap (editOf root change (t.putAll (editsOf root change t before))) =
    after.filterMap (editOf root change t)
  rw [List.filterMap_append, List.filterMap_congr hleft, List.filterMap_eq_nil_iff.mpr hdone,
    List.nil_append]

end Run

namespace Project

variable {root : Root} {r : Relocation} {t : Tree} {w : Workspace} {source target : List String}
  {text : List Char} {c : ClassText} {part rest : List Write}

/-- Files that get new bytes are found at the same paths as before. -/
theorem existsAt_putAll {writes : List Write} (h : ∀ x ∈ writes, (t.file? x.place).isSome)
    (path : String) : (t.putAll writes).existsAt root path = t.existsAt root path := by
  induction writes generalizing t with
  | nil => rfl
  | cons x writes ih =>
    have hx := h x (by simp)
    have hput : (t.put x.place x.bytes).existsAt root path = t.existsAt root path := by
      rw [Tree.existsAt, Tree.existsAt, Tree.look_put hx]
      cases t.look root path <;> rfl
    refine (ih fun y hy => ?_).trans hput
    rw [Tree.file?_put]
    split
    · rfl
    · exact h y (by simp [hy])

/-- A move whose new file is there, interrupted in its references: the old file is as it was, and the
rest of its writes is what it writes when it is started again. -/
theorem moveWrites_resume_of_exists (hsettles : Run.Settles (redirection r)) (ht : t.WellFormed)
    (hnamed : r.Named source target) (hmovable : Movable root r t text c)
    (hexists : t.existsAt root r.target = true)
    (hwrites : redirections root r t ++ [stubWrite root r] = part ++ rest) (hrest : rest ≠ []) :
    t.performAll part = t.putAll part ∧ (t.putAll part).WellFormed ∧
      (t.putAll part).look root r.source = t.look root r.source ∧
      moveWrites root r (t.putAll part) = rest := by
  obtain ⟨others, last, rfl⟩ := (List.eq_nil_or_concat' rest).resolve_left hrest
  rw [← List.append_assoc] at hwrites
  obtain ⟨hparts, hlast⟩ := List.append_inj' hwrites rfl
  have hthere : ∀ x ∈ part, (t.file? x.place).isSome := fun x hx =>
    file?_isSome_of_mem_redirections (by rw [hparts]; exact List.mem_append_left _ hx)
  have ht' := ht.putAll hthere
  obtain ⟨place, bytes, hlook, hdecode⟩ := Tree.look_of_read hmovable.read
  have hnames : Path.AreNames source := ⟨hnamed.source_ne, hnamed.source_names⟩
  rw [hnamed.source_eq] at hlook
  obtain rfl := Tree.place_of_look ht hnames hlook
  -- The writes go to the referring files, and the source is not among them.
  have hsource : (t.putAll part).file? (root.place ++ source) = some bytes := by
    rw [Tree.file?_putAll_of_notMem, Tree.file?_of_look hlook]
    intro hmem
    apply source_notMem_redirections root ht hnamed
    rw [hparts, List.map_append]
    exact List.mem_append_left _ hmem
  have hlook' := Tree.look_of_file? ht' hnames.ne_nil hsource
  have hread : (t.putAll part).read root r.source = .ok text := by
    rw [← hmovable.read, hnamed.source_eq, Tree.read_of_look hlook', Tree.read_of_look hlook]
  refine ⟨Tree.performAll_eq_putAll ht hthere, ht', by rw [hnamed.source_eq, hlook', hlook], ?_⟩
  have hmovable' : Movable root r (t.putAll part) text c := ⟨hread, hmovable.isOpen, hmovable.found⟩
  have hleft : redirections root r (t.putAll part) = others := by
    rw [redirections, referencePaths_putAll ht hthere]
    exact Run.editsOf_putAll_of_append hsettles ht (arePaths_referencePaths root r ht) hparts
  rw [moveWrites_of_movable hmovable', existsAt_putAll hthere, hexists, if_pos rfl, hleft, hlast]

/-- A move that is interrupted at any point: the old file is as it was, and the rest of its writes is
what it writes when it is started again. -/
theorem moveWrites_resume (hsettles : Run.Settles (redirection r)) (ht : t.WellFormed)
    (hnamed : r.Named source target) (hwrites : moveWrites root r t = part ++ rest)
    (hrest : rest ≠ []) :
    (t.performAll part).WellFormed ∧
      (t.performAll part).look root r.source = t.look root r.source ∧
      moveWrites root r (t.performAll part) = rest := by
  rcases relocate_idle root r ⟨t, [], []⟩ with ⟨text, c, hmovable⟩ | ⟨hnone, -⟩
  · have hall := hwrites
    rw [moveWrites_of_movable hmovable] at hall
    -- With the target there, what is left are redirections and the stub; else its write comes first.
    cases hexists : t.existsAt root r.target with
    | true =>
      rw [hexists, if_pos rfl] at hall
      obtain ⟨hperform, hlater⟩ :=
        moveWrites_resume_of_exists hsettles ht hnamed hmovable hexists hall hrest
      rw [hperform]
      exact hlater
    | false =>
      rw [hexists, if_neg (by simp)] at hall
      cases part with
      | nil => exact ⟨ht, rfl, hwrites⟩
      | cons x part =>
        split at hall
        · cases hall
        · rename_i t₁ place hwrite
          obtain ⟨rfl, hleft⟩ := List.cons_eq_cons.mp hall
          obtain ⟨ht₁, hlook, hmovable₁, hexists₁, -, hperform, -⟩ :=
            movable_of_write ht hnamed hmovable hexists hwrite
          obtain ⟨hperform', ht', hlook', hwrites'⟩ :=
            moveWrites_resume_of_exists hsettles ht₁ hnamed hmovable₁ hexists₁ hleft hrest
          rw [Tree.performAll, List.foldl_cons, hperform, ← Tree.performAll, hperform']
          exact ⟨ht', hlook'.trans hlook, hwrites'⟩
  · have hnil : part ++ rest = [] := hwrites.symm.trans hnone
    exact absurd (List.append_eq_nil_iff.mp hnil).2 hrest

/-- References that were redirected are not found again. -/
theorem settles_redirection {first lead : List Char} {olds news : List (List Char)}
    (h : r.Apart first olds lead news) : Run.Settles (redirection r) := by
  intro bytes new hnew
  obtain ⟨text, hdecode, hedit⟩ := Option.bind_eq_some_iff.mp hnew
  obtain ⟨redirected, hredirect⟩ := h.exists_redirect text
  have hreturn : '\r' ∉ redirected := h.notMem_redirect (by decide) (by decide)
    (Text.return_notMem_of_decode? hdecode) hredirect
  simp only [redirection, hredirect, Except.mapError] at hedit
  split at hedit
  · cases hedit
  · cases hedit
    simp [Run.edited?, Text.decode?_encode_of_notMem hreturn, redirection,
      h.redirect_redirect hredirect, Except.mapError]

/-- A planned move of a job in lower case can be interrupted after any of its writes. The old file is
as it was then, and if the move is started again, it writes the rest and ends in the same tree. The
new name has to differ from the words that the two constants begin with. -/
theorem relocate_resumes (ht : w.tree.WellFormed) (hr : r ∈ planned w.tree root)
    (hsnake : isSnake (stem r.source) = true)
    (hsegment : (Relocation.segments r.oldConstant).head? ≠ some r.newName)
    (hnew : r.newName ≠ "Sidekiq") :
    (Run.exec (relocate root r) w).2.writes = w.writes ++ moveWrites root r w.tree ∧
    (Run.exec (relocate root r) w).2.tree = w.tree.performAll (moveWrites root r w.tree) ∧
    ∀ part rest, moveWrites root r w.tree = part ++ rest → rest ≠ [] →
      (w.tree.performAll part).look root r.source = w.tree.look root r.source ∧
      ∀ notices writes, ∃ written w',
        Run.exec (relocate root r) ⟨w.tree.performAll part, notices, writes⟩ = (.ok written, w') ∧
        w'.writes = writes ++ rest ∧ w'.tree = (Run.exec (relocate root r) w).2.tree := by
  obtain ⟨source, target, hnamed⟩ := exists_named_of_planned ht hr
  obtain ⟨first, olds, lead, news, hapart⟩ := exists_apart_of_planned ht hr hsnake hsegment hnew
  -- A move of this kind fails only if its new file cannot be written, before all other writes.
  have hruns : ∀ w : Workspace, w.tree.WellFormed →
      (moveWrites root r w.tree = [] ∧ (Run.exec (relocate root r) w).2 = w) ∨
      ∃ written notices, Run.exec (relocate root r) w =
        (.ok written, w.done (moveWrites root r w.tree) notices) := by
    intro w ht
    rcases exec_relocate root ht hnamed with
      ⟨failure, w', hrun, ⟨text, e, he⟩ | ⟨rfl, hnone⟩⟩ | ⟨written, notices, hrun, -⟩
    · obtain ⟨new, hredirect⟩ := hapart.exists_redirect text
      rw [he] at hredirect
      cases hredirect
    · exact .inl ⟨hnone, by rw [hrun]⟩
    · exact .inr ⟨written, notices, hrun⟩
  have htree : (Run.exec (relocate root r) w).2.writes = w.writes ++ moveWrites root r w.tree ∧
      (Run.exec (relocate root r) w).2.tree = w.tree.performAll (moveWrites root r w.tree) := by
    rcases hruns w ht with ⟨hnone, hrun⟩ | ⟨written, notices, hrun⟩
    · rw [hrun, hnone]
      exact ⟨(List.append_nil _).symm, rfl⟩
    · rw [hrun]
      exact ⟨rfl, rfl⟩
  refine ⟨htree.1, htree.2, fun part rest hwrites hrest => ?_⟩
  obtain ⟨ht', hlook, hleft⟩ :=
    moveWrites_resume (settles_redirection hapart) ht hnamed hwrites hrest
  refine ⟨hlook, fun notices writes => ?_⟩
  rcases hruns ⟨w.tree.performAll part, notices, writes⟩ ht' with ⟨hnone, -⟩ | ⟨written, others, hrun⟩
  · exact absurd (hleft.symm.trans hnone) hrest
  · rw [hleft] at hrun
    refine ⟨written, _, hrun, rfl, ?_⟩
    rw [htree.2, hwrites, Tree.performAll_append]
    rfl

/-- The move of a class is interrupted once the class is in its new file. -/
theorem relocate_resumes_check : ∃ first rest,
    moveWrites ⟨[], "."⟩ posRelocation checkSpace.tree = first :: rest ∧ rest ≠ [] ∧
      ∃ written w', Run.exec (relocate ⟨[], "."⟩ posRelocation)
          ⟨checkSpace.tree.performAll [first], [], []⟩ = (.ok written, w') ∧ w'.writes = rest ∧
        w'.tree = (Run.exec (relocate ⟨[], "."⟩ posRelocation) checkSpace).2.tree := by
  have hmovable : Movable ⟨[], "."⟩ posRelocation checkSpace.tree checkFile.toList checkClass :=
    ⟨read_checkSpace, by decide, classIn?_checkFile⟩
  have hadmits : (checkSpace.tree.write ⟨[], "."⟩ posRelocation.target
      (posRelocation.movedClass checkClass).toList).toOption.isSome = true := by decide
  obtain ⟨rest, hwrites, hrest⟩ : ∃ rest, moveWrites ⟨[], "."⟩ posRelocation checkSpace.tree =
      classWrite ⟨[], "."⟩ posRelocation checkClass :: rest ∧ rest ≠ [] := by
    rw [moveWrites_of_movable hmovable, existsAt_target_checkSpace, if_neg (by simp)]
    split
    · rename_i fault hwrite
      rw [hwrite] at hadmits
      cases hadmits
    · exact ⟨_, rfl, by simp⟩
  obtain ⟨-, -, hresumes⟩ := relocate_resumes (by decide) mem_planned_checkSpace (by decide)
    (by decide) (by decide)
  obtain ⟨-, hagain⟩ := hresumes [classWrite ⟨[], "."⟩ posRelocation checkClass] rest hwrites hrest
  obtain ⟨written, w', hrun, hleft, htree⟩ := hagain [] []
  exact ⟨_, rest, hwrites, hrest, written, w', hrun, by simpa using hleft, htree⟩

end Project

end RailsUpgrade
