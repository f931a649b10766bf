import Mathlib.Data.List.Basic
import RailsUpgrade.Proofs.Path
import RailsUpgrade.Tree.Access

/-!
# `RailsUpgrade.Proofs.Tree`: reading and writing one file

A tree is well formed if its names are names of files and no directory stands where a file is; every
file system gives such trees. The laws of a tree are those of its view `Tree.file?`:

* `file?_put`: putting a file changes this file and no other;
* `walk_of_file?`: in a well formed tree names lead to the file that is at them;
* `read_of_look`: what a path reads is the text of the bytes that it leads to;
* `write_eq_ok`: a write puts a text at its names, changes no other file, and keeps the tree well
  formed.
-/

set_option autoImplicit false

namespace RailsUpgrade

namespace Tree

/-- Names are names of files, and a file has nothing below it. -/
structure WellFormed (t : Tree) : Prop where
  names : ∀ p ∈ t.listed, ∀ name ∈ p, Path.IsName name
  leaves : ∀ p, (t.file? p).isSome → t.isDir p = false

/-- The files of a tree tell whether it is well formed. -/
theorem wellFormed_iff {t : Tree} : t.WellFormed ↔
    (∀ p ∈ t.listed, ∀ name ∈ p, Path.IsName name) ∧ ∀ e ∈ t.files, t.isDir e.1 = false := by
  constructor
  · intro ht
    refine ⟨ht.names, fun e he => ht.leaves e.1 ?_⟩
    rw [file?, Option.isSome_iff_ne_none, ne_eq, List.lookup_eq_none_iff]
    exact fun hnone => by simpa using hnone e he
  · rintro ⟨hnames, hleaves⟩
    refine ⟨hnames, fun p hp => ?_⟩
    obtain ⟨bytes, hbytes⟩ := Option.isSome_iff_exists.mp hp
    obtain ⟨l₁, l₂, hfiles, -⟩ := List.lookup_eq_some_iff.mp hbytes
    exact hleaves (p, bytes) (by simp [hfiles])

instance (t : Tree) : Decidable t.WellFormed := decidable_of_iff _ wellFormed_iff.symm

theorem mem_listed_of_file? {t : Tree} {p : Place} {bytes : ByteArray}
    (h : t.file? p = some bytes) : p ∈ t.listed := by
  obtain ⟨l₁, l₂, hl, -⟩ := List.lookup_eq_some_iff.mp h
  simp [listed, hl]

/-- A listed place makes every place on the way to it a directory. -/
theorem isDir_of_lt {t : Tree} {p q : Place} (hq : q ∈ t.listed) (hpre : p <+: q)
    (hlt : p.length < q.length) : t.isDir p = true := by
  simp only [isDir, Bool.or_eq_true, List.any_eq_true, Bool.and_eq_true, decide_eq_true_eq,
    List.isPrefixOf_iff_prefix]
  exact .inr ⟨q, hq, hpre, hlt⟩

/-! ### Putting bytes into a file -/

theorem lookup_map_replace (files : List (Place × ByteArray)) (p q : Place) (bytes : ByteArray) :
    (files.map fun e => if e.1 == p then (p, bytes) else e).lookup q
      = if q = p then (files.lookup p).map fun _ => bytes else files.lookup q := by
  induction files with
  | nil => simp
  | cons e files ih =>
    obtain ⟨r, old⟩ := e
    rw [List.map_cons, List.lookup_cons, List.lookup_cons, List.lookup_cons, ih]
    by_cases hq : q = p
    · subst hq
      by_cases hr : r = q
      · simp [hr]
      · have hne : (q == r) = false := by simpa using Ne.symm hr
        simp [hr, hne]
    · by_cases hr : r = p
      · have hne : (q == p) = false := by simpa using hq
        simp [hq, hr, hne]
      · simp [hq, hr]

/-- Putting a file changes this file and no other. -/
theorem file?_put (t : Tree) (p q : Place) (bytes : ByteArray) :
    (t.put p bytes).file? q = if q = p then some bytes else t.file? q := by
  unfold put
  split
  · rename_i hsome
    obtain ⟨old, hold⟩ := Option.isSome_iff_exists.mp hsome
    have hlookup : t.files.lookup p = some old := hold
    rw [file?, lookup_map_replace, hlookup]
    rfl
  · rename_i hnone
    have hlookup : t.files.lookup p = none := Option.not_isSome_iff_eq_none.mp hnone
    rw [file?, List.lookup_append, List.lookup_cons]
    by_cases hq : q = p
    · simp [hq, hlookup]
    · have hne : (q == p) = false := by simpa using hq
      simp [hq, hne, file?]

theorem dirs_put (t : Tree) (p : Place) (bytes : ByteArray) : (t.put p bytes).dirs = t.dirs := by
  unfold put
  split <;> rfl

theorem listed_put {t : Tree} {p : Place} (bytes : ByteArray) (hp : (t.file? p).isSome) :
    (t.put p bytes).listed = t.listed := by
  have hplaces : (t.put p bytes).files.map (·.1) = t.files.map (·.1) := by
    rw [put, if_pos hp, List.map_map]
    apply List.map_congr_left
    intro e _
    by_cases he : e.1 = p <;> simp [he]
  rw [listed, hplaces, dirs_put]
  rfl

/-! ### Paths of files -/

/-- What stands on the way to a file is a directory, and no file. -/
theorem isDir_above_of_file? {t : Tree} (ht : t.WellFormed) {here : Place} {names : List String}
    {bytes : ByteArray} (hne : names ≠ []) (h : t.file? (here ++ names) = some bytes) :
    t.isDir here = true ∧ t.file? here = none := by
  have hdir : t.isDir here = true :=
    isDir_of_lt (mem_listed_of_file? h) (List.prefix_append _ _)
      (by simpa using List.length_pos_iff.mpr hne)
  refine ⟨hdir, ?_⟩
  cases hfile : t.file? here with
  | none => rfl
  | some found =>
    have hleaf := ht.leaves here (by simp [hfile])
    rw [hdir] at hleaf
    cases hleaf

/-- In a well formed tree names lead to the file that is at them. -/
theorem walk_of_file? {t : Tree} (ht : t.WellFormed) {here : Place} {names : List String}
    {bytes : ByteArray} (h : t.file? (here ++ names) = some bytes) :
    t.walk here names = .file (here ++ names) bytes := by
  induction names generalizing here with
  | nil =>
    rw [List.append_nil] at h
    rw [walk, h, List.append_nil]
  | cons name rest ih =>
    obtain ⟨hdir, hfile⟩ := isDir_above_of_file? ht (by simp) h
    have hname : name ≠ ".." := (ht.names _ (mem_listed_of_file? h) name (by simp)).2.2.1
    have hrest : t.file? ((here ++ [name]) ++ rest) = some bytes := by simpa using h
    rw [walk, hfile, hdir]
    simpa [hname] using ih hrest

variable {t : Tree} {root : Root} {names : List String} {bytes : ByteArray}

/-- The names below a place at which a file is. -/
theorem WellFormed.names_of_file? (ht : t.WellFormed)
    (h : t.file? (root.place ++ names) = some bytes) : ∀ name ∈ names, Path.IsName name :=
  fun name hname => ht.names _ (mem_listed_of_file? h) name (by simp [hname])

theorem look_ofNames (hne : names ≠ []) (hnames : ∀ name ∈ names, Path.IsName name) :
    t.look root (Path.ofNames names) = t.walk root.place names := by
  rw [look, Path.parse_ofNames hne hnames]
  rfl

/-- The path of a file is looked up at its place. -/
theorem look_of_file? (ht : t.WellFormed) (hne : names ≠ [])
    (h : t.file? (root.place ++ names) = some bytes) :
    t.look root (Path.ofNames names) = .file (root.place ++ names) bytes := by
  rw [look_ofNames hne (ht.names_of_file? h), walk_of_file? ht h]

/-- Reading is looking and decoding. -/
theorem read_of_look {path : String} {place : Place} (h : t.look root path = .file place bytes) :
    t.read root path = match Text.decode? bytes with
      | some text => .ok text
      | none => .error .undecodable := by
  cases hdecode : Text.decode? bytes with
  | none => simp only [read, h, hdecode]
  | some text => simp only [read, h, hdecode]

theorem look_of_read {path : String} {text : List Char} (h : t.read root path = .ok text) :
    ∃ place bytes, t.look root path = .file place bytes ∧ Text.decode? bytes = some text := by
  rw [read] at h
  split at h
  · cases h
  · cases h
  · cases h
  · rename_i place bytes hlook
    split at h
    · rename_i text' hdecode
      cases h
      exact ⟨place, bytes, hlook, hdecode⟩
    · cases h

/-! ### Writing a file -/

/-- A directory lies on no file. -/
theorem WellFormed.file?_of_isDir (ht : t.WellFormed) {p q : Place} (h : t.isDir q = true)
    (hpre : p <+: q) (hq : t.file? q = none) : t.file? p = none := by
  cases hfile : t.file? p with
  | none => rfl
  | some found =>
    have hleaf := ht.leaves p (by simp [hfile])
    by_cases heq : p = q
    · rw [heq, hq] at hfile
      cases hfile
    have hlt : p.length < q.length := by
      have hle := hpre.length_le
      have hne : p.length ≠ q.length := fun hlen => heq (hpre.eq_of_length hlen)
      omega
    simp only [isDir, Bool.or_eq_true, List.isEmpty_iff, List.contains_iff_mem, List.any_eq_true,
      Bool.and_eq_true, decide_eq_true_eq, List.isPrefixOf_iff_prefix] at h
    obtain (rfl | hlisted) | ⟨r, hr, hpre', hlt'⟩ := h
    · simp at hlt
    · rw [isDir_of_lt (List.mem_append_right _ hlisted) hpre hlt] at hleaf
      cases hleaf
    · rw [isDir_of_lt hr (hpre.trans hpre') (by omega)] at hleaf
      cases hleaf

/-- The names of a directory are names. -/
theorem WellFormed.names_of_isDir (ht : t.WellFormed) {p : Place} (h : t.isDir p = true) :
    ∀ name ∈ p, Path.IsName name := by
  simp only [isDir, Bool.or_eq_true, List.isEmpty_iff, List.contains_iff_mem, List.any_eq_true,
    Bool.and_eq_true, decide_eq_true_eq, List.isPrefixOf_iff_prefix] at h
  obtain (rfl | hlisted) | ⟨q, hq, hpre, -⟩ := h
  · simp
  · exact ht.names p (List.mem_append_right _ hlisted)
  · exact fun name hname => ht.names q hq name (hpre.subset hname)

/-- Names that do not lead back lead to the directory that is at them. -/
theorem dir_of_walk {here p : Place} {names : List String} (hback : ".." ∉ names)
    (h : t.walk here names = .dir p) :
    p = here ++ names ∧ t.isDir p = true ∧ t.file? p = none := by
  induction names generalizing here with
  | nil =>
    rw [walk] at h
    cases hfile : t.file? here with
    | some found => simp [hfile] at h
    | none =>
      cases hdir : t.isDir here with
      | false => simp [hfile, hdir] at h
      | true =>
        obtain rfl : here = p := by simpa [hfile, hdir] using h
        exact ⟨by simp, hdir, hfile⟩
  | cons name rest ih =>
    have hname : name ≠ ".." := fun hname => hback (by simp [hname])
    rw [walk] at h
    split at h
    · cases h
    · split at h
      · simp only [beq_iff_eq, hname, if_false] at h
        obtain ⟨hp, hdir, hfile⟩ := ih (fun hmem => hback (by simp [hmem])) h
        exact ⟨by simpa using hp, hdir, hfile⟩
      · cases h

/-- A place that becomes listed makes the places on the way to it directories, and no others. -/
theorem isDir_of_listed {t t' : Tree} {p q : Place} (hlisted : ∀ r ∈ t'.listed, r ∈ t.listed ∨ r = q)
    (hdirs : ∀ r ∈ t'.dirs, r ∈ t.dirs ∨ r = q) (h : t'.isDir p = true) :
    t.isDir p = true ∨ (p ∈ t'.dirs ∧ p = q) ∨ (p <+: q ∧ p.length < q.length) := by
  simp only [isDir, Bool.or_eq_true, List.isEmpty_iff, List.contains_iff_mem, List.any_eq_true,
    Bool.and_eq_true, decide_eq_true_eq, List.isPrefixOf_iff_prefix] at h ⊢
  obtain (rfl | hmem) | ⟨r, hr, hpre, hlt⟩ := h
  · exact .inl (.inl (.inl rfl))
  · obtain hold | heq := hdirs p hmem
    · exact .inl (.inl (.inr hold))
    · exact .inr (.inl ⟨hmem, heq⟩)
  · obtain hold | rfl := hlisted r hr
    · exact .inl (.inr ⟨r, hold, hpre, hlt⟩)
    · exact .inr (.inr ⟨hpre, hlt⟩)

/-- A new directory in a directory. -/
theorem WellFormed.addDir (ht : t.WellFormed) {dir : Place} {name : String}
    (hdir : t.isDir dir = true) (hfile : t.file? dir = none) (hname : Path.IsName name)
    (hnew : t.file? (dir ++ [name]) = none) : (t.addDir (dir ++ [name])).WellFormed := by
  have hdirs : ∀ r ∈ (t.addDir (dir ++ [name])).dirs, r ∈ t.dirs ∨ r = dir ++ [name] := by
    intro r hr
    unfold Tree.addDir at hr
    split at hr
    · exact .inl hr
    · simpa using hr
  have hfiles : (t.addDir (dir ++ [name])).files = t.files := by
    unfold Tree.addDir
    split <;> rfl
  have hlisted : ∀ r ∈ (t.addDir (dir ++ [name])).listed, r ∈ t.listed ∨ r = dir ++ [name] := by
    intro r hr
    rw [listed, hfiles] at hr
    obtain hr | hr := List.mem_append.mp hr
    · exact .inl (List.mem_append_left _ hr)
    · exact (hdirs r hr).imp_left fun hr => List.mem_append_right _ hr
  constructor
  -- Names: only those of the new directory are new.
  · intro p hp name' hname'
    obtain hold | rfl := hlisted p hp
    · exact ht.names p hold name' hname'
    · obtain hmem | hmem := List.mem_append.mp hname'
      · exact ht.names_of_isDir hdir name' hmem
      · exact List.mem_singleton.mp hmem ▸ hname
  -- Leaves: a file does not become a directory, as nothing new lies below one.
  · intro p hp
    have hp' : (t.file? p).isSome := by
      rwa [file?, hfiles] at hp
    cases hisdir : (t.addDir (dir ++ [name])).isDir p with
    | false => rfl
    | true =>
      obtain hold | ⟨-, rfl⟩ | ⟨hpre, hlt⟩ := isDir_of_listed hlisted hdirs hisdir
      · rw [ht.leaves p hp'] at hold
        cases hold
      · simp [hnew] at hp'
      · obtain hpre | heq := List.prefix_concat_iff.mp hpre |>.symm
        · simp [ht.file?_of_isDir hdir hpre hfile] at hp'
        · rw [heq] at hlt
          simp at hlt

/-- A file in a directory. -/
theorem WellFormed.put_of_isDir (ht : t.WellFormed) {dir : Place} {name : String}
    (bytes : ByteArray) (hdir : t.isDir dir = true) (hfile : t.file? dir = none)
    (hname : Path.IsName name) (hnew : t.isDir (dir ++ [name]) = false) :
    (t.put (dir ++ [name]) bytes).WellFormed := by
  have hlisted : ∀ r ∈ (t.put (dir ++ [name]) bytes).listed, r ∈ t.listed ∨ r = dir ++ [name] := by
    intro r hr
    by_cases hsome : (t.file? (dir ++ [name])).isSome
    · rw [listed_put bytes hsome] at hr
      exact .inl hr
    · rw [listed, Tree.put, if_neg hsome] at hr
      simp only [List.map_append, List.map_cons, List.map_nil, List.mem_append,
        List.mem_singleton] at hr
      obtain (hr | hr) | hr := hr
      · exact .inl (List.mem_append_left _ hr)
      · exact .inr hr
      · exact .inl (List.mem_append_right _ hr)
  constructor
  -- Names: only those of the new file are new.
  · intro p hp name' hname'
    obtain hold | rfl := hlisted p hp
    · exact ht.names p hold name' hname'
    · obtain hmem | hmem := List.mem_append.mp hname'
      · exact ht.names_of_isDir hdir name' hmem
      · exact List.mem_singleton.mp hmem ▸ hname
  -- Leaves: the new file is no directory, and nothing new lies below an old one.
  · intro p hp
    have hkept : (t.put (dir ++ [name]) bytes).dirs = t.dirs := dirs_put t _ bytes
    cases hisdir : (t.put (dir ++ [name]) bytes).isDir p with
    | false => rfl
    | true =>
      rw [file?_put] at hp
      obtain hold | ⟨hmem, rfl⟩ | ⟨hpre, hlt⟩ :=
        isDir_of_listed hlisted (fun r hr => .inl (hkept ▸ hr)) hisdir
      · split at hp
        · rename_i heq
          rw [heq, hnew] at hold
          cases hold
        · rw [ht.leaves p hp] at hold
          cases hold
      · have hold : t.isDir (dir ++ [name]) = true := by
          rw [hkept] at hmem
          simp [isDir, hmem]
        rw [hnew] at hold
        cases hold
      · have hne : p ≠ dir ++ [name] := by
          rintro rfl
          exact Nat.lt_irrefl _ hlt
        obtain heq | hpre := List.prefix_concat_iff.mp hpre
        · exact absurd heq hne
        · rw [if_neg hne, ht.file?_of_isDir hdir hpre hfile] at hp
          cases hp

/-- Making directories changes no file, and leads to the directory that the names say. -/
theorem makeDirs_eq_ok (ht : t.WellFormed) {start dir : Place} {above : List String} {t' : Tree}
    (hnames : ∀ name ∈ above, Path.IsName name) (h : t.makeDirs start above = .ok (t', dir)) :
    dir = start ++ above.reverse ∧ t'.WellFormed ∧ (∀ q, t'.file? q = t.file? q) ∧
      t'.isDir dir = true ∧ t'.file? dir = none := by
  induction above generalizing dir t' with
  | nil =>
    rw [makeDirs] at h
    split at h
    · rename_i p hwalk
      cases h
      obtain ⟨rfl, hdir, hfile⟩ := dir_of_walk (by simp) hwalk
      exact ⟨by simp, ht, fun _ => rfl, hdir, hfile⟩
    · cases h
    · cases h
    · cases h
  | cons name above ih =>
    have hback : ".." ∉ (name :: above).reverse := by
      intro hmem
      exact (hnames ".." (List.mem_reverse.mp hmem)).2.2.1 rfl
    rw [makeDirs] at h
    split at h
    · rename_i p hwalk
      cases h
      obtain ⟨rfl, hdir, hfile⟩ := dir_of_walk hback hwalk
      exact ⟨rfl, ht, fun _ => rfl, hdir, hfile⟩
    · cases h
    · cases h
    · rename_i hmissing
      split at h
      · cases h
      · rename_i t₁ p hmade
        obtain ⟨rfl, ht₁, hfiles, hdir, hfile⟩ :=
          ih (fun name' hname' => hnames name' (by simp [hname'])) hmade
        have hname := hnames name (by simp)
        rw [if_neg (by simpa using hname.2.2.1)] at h
        cases h
        -- What the walk misses is no file.
        have hnone : t₁.file? (start ++ above.reverse ++ [name]) = none := by
          rw [hfiles]
          cases hfound : t.file? (start ++ above.reverse ++ [name]) with
          | none => rfl
          | some found =>
            rw [List.append_assoc, ← List.reverse_cons] at hfound
            rw [walk_of_file? ht hfound] at hmissing
            cases hmissing
        have hsame : ∀ q, (t₁.addDir (start ++ above.reverse ++ [name])).file? q = t.file? q := by
          intro q
          rw [← hfiles q]
          unfold addDir
          split <;> rfl
        refine ⟨by simp, ht₁.addDir hdir hfile hname hnone, hsame, ?_, ?_⟩
        · unfold addDir
          split
          · rename_i hmem
            rw [isDir, hmem, Bool.or_true, Bool.true_or]
          · simp [isDir]
        · rw [hsame, ← hfiles]
          exact hnone

/-- A write puts the text at its names and changes no other file. -/
theorem write_eq_ok (ht : t.WellFormed) {place : Place} {text : List Char} {t' : Tree}
    (hne : names ≠ []) (hnames : ∀ name ∈ names, Path.IsName name)
    (h : t.write root (Path.ofNames names) text = .ok (t', place)) :
    t'.WellFormed ∧ ∀ q, t'.file? q =
      if q = root.place ++ names then some (Text.encode text) else t.file? q := by
  -- The directories above are made first, and only then is the last name put in the last of them.
  obtain ⟨above, name, rfl⟩ := (List.eq_nil_or_concat' names).resolve_left hne
  rw [write, Path.parse_ofNames hne hnames, List.reverse_append] at h
  simp only [List.reverse_cons, List.reverse_nil, List.nil_append, List.cons_append] at h
  split at h
  · cases h
  · rename_i t₁ dir hmade
    obtain ⟨rfl, ht₁, hfiles, hdir, hfile⟩ := makeDirs_eq_ok ht
      (fun name' hname' => hnames name' (by simp [List.mem_reverse.mp hname'])) hmade
    split at h
    · cases h
    · rename_i hnew
      cases h
      have hplace : startOf root ⟨0, above ++ [name]⟩ ++ above.reverse.reverse =
          root.place ++ above := by
        rw [List.reverse_reverse]
        rfl
      rw [hplace] at hdir hfile hnew ⊢
      have hleaf : t₁.isDir (root.place ++ above ++ [name]) = false := by
        simp only [Bool.or_eq_true, not_or, Bool.not_eq_true] at hnew
        exact hnew.2
      refine ⟨ht₁.put_of_isDir _ hdir hfile (hnames name (by simp)) hleaf, fun q => ?_⟩
      rw [file?_put, List.append_assoc, hfiles]

/-- Directories that are there are not made again. -/
theorem makeDirs_of_walk {start dir : Place} {above : List String}
    (h : t.walk start above.reverse = .dir dir) : t.makeDirs start above = .ok (t, dir) := by
  cases above with
  | nil =>
    rw [List.reverse_nil] at h
    rw [makeDirs, h]
  | cons name above => rw [makeDirs, h]

end Tree

end RailsUpgrade
