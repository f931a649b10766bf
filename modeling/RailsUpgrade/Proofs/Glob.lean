import RailsUpgrade.Glob.Basic
import RailsUpgrade.Proofs.Ordered
import RailsUpgrade.Proofs.Tree

/-!
# `RailsUpgrade.Proofs.Glob`: which files a glob stands for

`Glob.files?` walks through a tree. `Glob.covers` looks at the names of one file only, and no tree:

* `mem_follow`: segments are followed to exactly those files whose names they stand for;
* `mem_files?_iff_covers`: a glob lists a file if and only if it covers the names of the file;
* `exists_names_of_mem_files?`: a glob lists nothing else;
* `files?_congr`: trees with the same files have the same lists;
* `exists_of_covers`: what a glob covers that leads along fixed names.

A plain glob is one whose alternatives are relative and never lead back.
-/

set_option autoImplicit false

namespace RailsUpgrade.Glob

/-- Whether a segment that is not two stars stands for a name. -/
def nameFits (segment : List Char) (name : String) : Bool :=
  if isMagic segment then segmentFits segment name else name == String.ofList segment

/-- Whether segments stand for names, one after the other. Two stars stand for any number of names
that are not hidden, and for at least one if they come last. -/
def stands : List (List Char) → List String → Bool
  | [], names => names.isEmpty
  | segment :: rest, names =>
    if segment == deep then
      if rest.isEmpty then !names.isEmpty && isOpen names
      else (List.range (names.length + 1)).any fun n =>
        isOpen (names.take n) && stands rest (names.drop n)
    else names.head?.any (nameFits segment) && stands rest names.tail

/-- The segments of a glob that say something. -/
def segmentsOf (glob : String) : List (List Char) :=
  (Text.splitChar '/' glob.toList).filter fun s => !s.isEmpty && s != ['.']

/-- Whether a glob without braces stands for names. One that ends with a slash or a dot stands for
no file. -/
def alternativeCovers (names : List String) (glob : String) : Bool :=
  match (Text.splitChar '/' glob.toList).getLast? with
  | none | some [] | some ['.'] => false
  | _ => stands (segmentsOf glob) names

/-- Whether a glob covers the file that names lead to: one of its alternatives stands for the names,
and none of them is one that fails. -/
def covers (glob : String) (names : List String) : Bool :=
  (Braces.expand glob).all (fun g => !hasBadLead (Text.splitChar '/' g.toList))
    && (Braces.expand glob).any (alternativeCovers names)

/-- Whether every alternative of a glob is relative and never leads back. -/
def isPlain (glob : String) : Bool :=
  (Braces.expand glob).all fun g =>
    (Path.Lexical.parse g).slashes == 0 && !(segmentsOf g).contains ['.', '.']

variable {t : Tree}

/-- Segments that say something stand for at least one name. -/
theorem ne_nil_of_stands {segments : List (List Char)} (hne : segments ≠ []) {names : List String}
    (h : stands segments names = true) : names ≠ [] := by
  induction segments generalizing names with
  | nil => exact absurd rfl hne
  | cons segment rest ih =>
    rintro rfl
    rw [stands] at h
    split at h
    · split at h
      · simp at h
      · rename_i hrest
        simp only [List.length_nil, List.any_eq_true, List.take_nil, List.drop_nil,
          Bool.and_eq_true] at h
        obtain ⟨-, -, -, hstands⟩ := h
        exact ih (by simpa using hrest) hstands rfl
    · simp at h

/-! ### Directories and names on the way -/

theorem mem_namesBelow {here : Place} {name : String} {rest : List String}
    (h : here ++ name :: rest ∈ t.listed) : name ∈ t.namesBelow here := by
  rw [Tree.namesBelow, mem_distinct, List.mem_filterMap]
  refine ⟨_, h, ?_⟩
  rw [if_pos (List.isPrefixOf_iff_prefix.mpr (List.prefix_append _ _))]
  simp

theorem mem_dirsBelow {here : Place} {more rest : List String} (hne : rest ≠ [])
    (h : here ++ (more ++ rest) ∈ t.listed) : more ∈ t.dirsBelow here := by
  have hlt : (here ++ more).length < (here ++ (more ++ rest)).length := by
    have := List.length_pos_iff.mpr hne
    simp only [List.length_append]
    omega
  have hdir : t.isDir (here ++ more) = true :=
    Tree.isDir_of_lt h (by rw [← List.append_assoc]; exact List.prefix_append _ _) hlt
  rw [Tree.dirsBelow, mem_distinct, List.mem_cons, List.mem_filter]
  refine .inr ⟨?_, hdir⟩
  rw [List.mem_flatMap]
  refine ⟨more ++ rest, ?_, ?_⟩
  · rw [List.mem_map]
    refine ⟨_, List.mem_filter.mpr ⟨h, ?_⟩, by simp⟩
    exact List.isPrefixOf_iff_prefix.mpr (List.prefix_append _ _)
  · exact List.mem_map.mpr ⟨more.length, List.mem_range.mpr (by rw [List.length_append]; omega), by simp⟩

theorem mem_filesBelow {here : Place} {names : List String} :
    names ∈ t.filesBelow here ↔ (t.file? (here ++ names)).isSome := by
  rw [Tree.filesBelow, List.mem_filterMap]
  constructor
  · rintro ⟨e, he, hnames⟩
    split at hnames
    · rename_i hpre
      obtain ⟨tail, htail⟩ := List.isPrefixOf_iff_prefix.mp hpre
      cases hnames
      rw [← htail, List.drop_left, htail, Tree.file?]
      cases hl : t.files.lookup e.1 with
      | some _ => rfl
      | none => exact absurd (List.lookup_eq_none_iff.mp hl e he) (by simp)
    · cases hnames
  · intro h
    obtain ⟨bytes, hbytes⟩ := Option.isSome_iff_exists.mp h
    obtain ⟨l₁, l₂, hl, -⟩ := List.lookup_eq_some_iff.mp hbytes
    refine ⟨(here ++ names, bytes), by simp [hl], ?_⟩
    rw [if_pos (List.isPrefixOf_iff_prefix.mpr (List.prefix_append _ _))]
    simp

/-- Where something is below, a directory is. -/
theorem isDir_of_file? {here : Place} {names : List String} (hne : names ≠ [])
    (h : (t.file? (here ++ names)).isSome) : t.isDir here = true := by
  obtain ⟨bytes, hbytes⟩ := Option.isSome_iff_exists.mp h
  refine Tree.isDir_of_lt (Tree.mem_listed_of_file? hbytes) (List.prefix_append _ _) ?_
  have := List.length_pos_iff.mpr hne
  rw [List.length_append]
  omega

/-! ### Following segments -/

/-- What the first segment asks of names: some of them are taken, and the other segments stand for
the rest. -/
theorem stands_cons {segment : List Char} {rest : List (List Char)} {names : List String} :
    stands (segment :: rest) names = true ↔
      (segment = deep ∧ rest = [] ∧ names ≠ [] ∧ isOpen names = true) ∨
      (segment = deep ∧ rest ≠ [] ∧ ∃ more others, names = more ++ others ∧ isOpen more = true ∧
        stands rest others = true) ∨
      (segment ≠ deep ∧ ∃ name others, names = name :: others ∧ nameFits segment name = true ∧
        stands rest others = true) := by
  rw [stands]
  by_cases hdeep : segment = deep
  · by_cases hrest : rest = []
    · simp [hdeep, hrest]
    · rw [if_pos (by simpa using hdeep), if_neg (by simpa using hrest)]
      simp only [List.any_eq_true, List.mem_range, Bool.and_eq_true]
      constructor
      · rintro ⟨n, -, hopen, hstands⟩
        exact .inr (.inl ⟨hdeep, hrest, _, _, (List.take_append_drop n names).symm, hopen, hstands⟩)
      · rintro (⟨-, h, -⟩ | ⟨-, -, more, others, rfl, hopen, hstands⟩ | ⟨h, -⟩)
        · exact absurd h hrest
        · refine ⟨more.length, by rw [List.length_append]; omega, ?_⟩
          simpa using ⟨hopen, hstands⟩
        · exact absurd hdeep h
  · cases names with
    | nil => simp [hdeep]
    | cons name others => simp [hdeep]

/-- Segments are followed to exactly those files whose names they stand for. -/
theorem mem_follow (ht : t.WellFormed) {segments : List (List Char)}
    (hplain : ['.', '.'] ∉ segments) (here : Place) (path result : List String) :
    result ∈ follow t segments here path ↔
      ∃ names, result = path ++ names ∧ (t.file? (here ++ names)).isSome ∧
        stands segments names = true := by
  induction segments generalizing here path with
  | nil =>
    rw [follow]
    constructor
    · intro h
      split at h
      · rename_i hfile
        exact ⟨[], by simpa using h, by simpa using hfile, rfl⟩
      · cases h
    · rintro ⟨names, rfl, hfile, hnames⟩
      obtain rfl : names = [] := by simpa [stands] using hnames
      rw [List.append_nil] at hfile
      simp [hfile]
  | cons segment rest ih =>
    obtain ⟨hsegment, hrest⟩ : ['.', '.'] ≠ segment ∧ ['.', '.'] ∉ rest := by simpa using hplain
    have hname : String.ofList segment ≠ ".." := by
      intro h
      apply hsegment
      rw [← String.toList_ofList (l := segment), h]
      rfl
    rw [follow]
    constructor
    · intro h
      split at h
      · cases h
      · rename_i hdir
        split at h
        · rename_i hdeep
          split at h
          · rename_i hlast
            obtain ⟨names, hmem, rfl⟩ := List.mem_map.mp h
            obtain ⟨hmem, hopen⟩ := List.mem_filter.mp hmem
            have hfile := mem_filesBelow.mp hmem
            refine ⟨names, rfl, hfile, stands_cons.mpr (.inl ⟨by simpa using hdeep,
              by simpa using hlast, ?_, hopen⟩)⟩
            -- A file at the place itself would stand where a directory is.
            rintro rfl
            rw [List.append_nil] at hfile
            simp [ht.leaves here hfile] at hdir
          · rename_i hlast
            obtain ⟨more, hmem, hresult⟩ := List.mem_flatMap.mp h
            obtain ⟨names, rfl, hfile, hstands⟩ := (ih hrest _ _).mp hresult
            refine ⟨more ++ names, by simp, by simpa using hfile, stands_cons.mpr (.inr (.inl
              ⟨by simpa using hdeep, by simpa using hlast, more, names, rfl, ?_, hstands⟩))⟩
            exact (List.mem_filter.mp hmem).2
        · rename_i hdeep
          split at h
          · rename_i hmagic
            obtain ⟨name, hmem, hresult⟩ := List.mem_flatMap.mp h
            obtain ⟨names, rfl, hfile, hstands⟩ := (ih hrest _ _).mp hresult
            refine ⟨name :: names, by simp, by simpa using hfile, stands_cons.mpr (.inr (.inr
              ⟨by simpa using hdeep, name, names, rfl, ?_, hstands⟩))⟩
            rw [nameFits, if_pos hmagic]
            exact (List.mem_filter.mp hmem).2
          · rename_i hmagic
            obtain ⟨names, rfl, hfile, hstands⟩ := (ih hrest _ _).mp h
            simp only [beq_iff_eq, hname, if_false] at hfile
            refine ⟨String.ofList segment :: names, by simp, by simpa using hfile,
              stands_cons.mpr (.inr (.inr ⟨by simpa using hdeep, _, names, rfl, ?_, hstands⟩))⟩
            simp [nameFits, hmagic]
    · rintro ⟨names, rfl, hfile, hstands⟩
      have hdir := isDir_of_file? (ne_nil_of_stands (by simp) hstands) hfile
      obtain ⟨bytes, hbytes⟩ := Option.isSome_iff_exists.mp hfile
      have hlisted := Tree.mem_listed_of_file? hbytes
      rw [if_neg (by simp [hdir])]
      obtain ⟨rfl, rfl, -, hopen⟩ | ⟨rfl, hne, more, others, rfl, hopen, hothers⟩ |
        ⟨hdeep, name, others, rfl, hfits, hothers⟩ := stands_cons.mp hstands
      · exact List.mem_map.mpr ⟨names, List.mem_filter.mpr ⟨mem_filesBelow.mpr hfile, hopen⟩, rfl⟩
      · rw [if_pos (by simp), if_neg (by simpa using hne)]
        have hmore := mem_dirsBelow (ne_nil_of_stands hne hothers) hlisted
        refine List.mem_flatMap.mpr ⟨more, List.mem_filter.mpr ⟨hmore, hopen⟩, ?_⟩
        exact (ih hrest _ _).mpr ⟨others, by simp, by simpa using hfile, hothers⟩
      · rw [if_neg (by simpa using hdeep)]
        by_cases hmagic : isMagic segment = true
        · rw [nameFits, if_pos hmagic] at hfits
          rw [if_pos hmagic]
          have hmem := List.mem_filter.mpr ⟨mem_namesBelow hlisted, hfits⟩
          refine List.mem_flatMap.mpr ⟨name, hmem, ?_⟩
          exact (ih hrest _ _).mpr ⟨others, by simp, by simpa using hfile, hothers⟩
        · obtain rfl : name = String.ofList segment := by simpa [nameFits, hmagic] using hfits
          rw [if_neg hmagic]
          refine (ih hrest _ _).mpr ⟨others, by simp, ?_, hothers⟩
          simpa [hname] using hfile

/-! ### The files of a glob -/

variable {root : Root}

/-- The alternatives of a plain glob. -/
theorem isPlain_iff {glob : String} :
    isPlain glob = true ↔ ∀ g ∈ Braces.expand glob,
      (Path.Lexical.parse g).slashes = 0 ∧ ['.', '.'] ∉ segmentsOf g := by
  simp [isPlain]

/-- Whether a glob ends with a segment that says something. -/
def endsWithName (glob : String) : Bool :=
  (Text.splitChar '/' glob.toList).getLast?.any fun s => !s.isEmpty && s != ['.']

/-- A last segment that says nothing is missing, empty or a dot. -/
theorem match_last {α : Type} (last : Option (List Char)) (a b : α) :
    (match last with
      | none | some [] | some ['.'] => a
      | _ => b) = if last.any (fun s => !s.isEmpty && s != ['.']) then b else a := by
  rcases last with _ | _ | ⟨c, _ | ⟨d, rest⟩⟩
  · rfl
  · rfl
  · by_cases hc : c = '.'
    · subst hc
      rfl
    · simp [hc]
  · simp

theorem alternativeCovers_eq (names : List String) (glob : String) :
    alternativeCovers names glob = (endsWithName glob && stands (segmentsOf glob) names) := by
  have h := match_last (Text.splitChar '/' glob.toList).getLast? false
    (stands (segmentsOf glob) names)
  rw [← endsWithName] at h
  refine Eq.trans h ?_
  cases endsWithName glob <;> rfl

theorem filesOf?_eq {t : Tree} {root : Root} (glob : String) :
    filesOf? t root glob =
      if hasBadLead (Text.splitChar '/' glob.toList) then none
      else if endsWithName glob then
        some ((follow t (segmentsOf glob) (Tree.startOf root (.parse glob)) []).map fun names =>
          (Path.Lexical.mk (Path.Lexical.parse glob).slashes names).text)
      else some [] := by
  have h := match_last (Text.splitChar '/' glob.toList).getLast? (some [])
    (some ((follow t (segmentsOf glob) (Tree.startOf root (.parse glob)) []).map fun names =>
      (Path.Lexical.mk (Path.Lexical.parse glob).slashes names).text))
  rw [← endsWithName] at h
  rw [← h]
  rfl

/-- A glob that ends with a name has a segment. -/
theorem segmentsOf_ne_nil {glob : String} (h : endsWithName glob = true) :
    segmentsOf glob ≠ [] := by
  obtain ⟨segment, hlast, hsays⟩ := (Option.any_eq_true _ _).mp h
  have hmem : segment ∈ segmentsOf glob :=
    List.mem_filter.mpr ⟨List.mem_of_getLast? hlast, hsays⟩
  exact List.ne_nil_of_mem hmem

/-- What an alternative lists are the paths of the files whose names it stands for. -/
theorem mem_filesOf? (ht : t.WellFormed) {glob : String}
    (hslashes : (Path.Lexical.parse glob).slashes = 0) (hback : ['.', '.'] ∉ segmentsOf glob)
    {files : List String} (hfiles : filesOf? t root glob = some files) (file : String) :
    file ∈ files ↔ ∃ names, file = Path.ofNames names ∧ names ≠ [] ∧
      (t.file? (root.place ++ names)).isSome ∧ alternativeCovers names glob = true := by
  have hstart : Tree.startOf root (.parse glob) = root.place := by simp [Tree.startOf, hslashes]
  rw [filesOf?_eq, hstart, hslashes] at hfiles
  simp only [alternativeCovers_eq, Bool.and_eq_true]
  split at hfiles
  · cases hfiles
  -- A last segment without a name lists no file, and covers none.
  · split at hfiles
    · rename_i hname
      cases hfiles
      simp only [List.mem_map]
      constructor
      · rintro ⟨names, hnames, rfl⟩
        obtain ⟨_, rfl, hfile, hstands⟩ := (mem_follow ht hback _ _ _).mp hnames
        exact ⟨names, rfl, ne_nil_of_stands (segmentsOf_ne_nil hname) hstands, hfile, hname, hstands⟩
      · rintro ⟨names, rfl, -, hfile, -, hstands⟩
        exact ⟨names, (mem_follow ht hback _ _ _).mpr ⟨names, by simp, hfile, hstands⟩, rfl⟩
    · rename_i hname
      cases hfiles
      constructor
      · rintro ⟨⟩
      · rintro ⟨_, -, -, -, hname', -⟩
        exact absurd hname' hname

/-- An alternative fails exactly if it has a bad lead. -/
theorem filesOf?_eq_none {glob : String} :
    filesOf? t root glob = none ↔ hasBadLead (Text.splitChar '/' glob.toList) = true := by
  rw [filesOf?_eq]
  split
  · rename_i h
    simp [h]
  · rename_i h
    split <;> simp [h]

/-- The files of a glob whose alternatives all succeed are those of its alternatives. -/
theorem files?_eq_some {glob : String} {files : List String}
    (h : files? t root glob = some files) :
    ∃ found, (Braces.expand glob).mapM (filesOf? t root) = some found ∧
      files = sortedTexts (distinct found.flatten) := by
  obtain ⟨found, hfound, rfl⟩ := Option.map_eq_some_iff.mp h
  exact ⟨found, hfound, rfl⟩

theorem nodup_files? {glob : String} {files : List String} (h : files? t root glob = some files) :
    files.Nodup := by
  obtain ⟨found, -, rfl⟩ := files?_eq_some h
  exact nodup_sortedTexts _ (nodup_distinct _)

/-- The files of a glob come in order, and each of them once. -/
theorem pairwise_files? {glob : String} {files : List String} (h : files? t root glob = some files) :
    files.Pairwise fun path path' => path.toList < path'.toList := by
  have hnodup := nodup_files? h
  obtain ⟨found, -, rfl⟩ := files?_eq_some h
  refine (hnodup.and (pairwise_sortedTexts _)).imp fun hne => ?_
  exact lt_of_le_of_ne hne.2 fun heq => hne.1 (String.toList_inj.mp heq)

/-- A list of alternatives that are tried one after the other. -/
theorem mem_flatten_of_mapM {α β : Type} {f : α → Option (List β)} {xs : List α}
    {found : List (List β)} (h : xs.mapM f = some found) (y : β) :
    y ∈ found.flatten ↔ ∃ x ∈ xs, ∃ ys, f x = some ys ∧ y ∈ ys := by
  induction xs generalizing found with
  | nil =>
    cases h
    simp
  | cons x xs ih =>
    simp only [List.mapM_cons, Option.bind_eq_bind, Option.bind_eq_some_iff,
      Option.pure_def, Option.some.injEq] at h
    obtain ⟨ys, hys, rest, hrest, rfl⟩ := h
    rw [List.flatten_cons, List.mem_append, ih hrest]
    simp [hys]

theorem mapM_eq_none_iff {α β : Type} {f : α → Option β} {xs : List α} :
    xs.mapM f = none ↔ ∃ x ∈ xs, f x = none := by
  induction xs with
  | nil => simp
  | cons x xs ih =>
    cases hx : f x with
    | none => simp [List.mapM_cons, hx]
    | some y =>
      cases hxs : xs.mapM f with
      | none => simp [List.mapM_cons, hx, hxs, ih.mp hxs]
      | some ys =>
        have := fun h => Option.some_ne_none ys (hxs.symm.trans (ih.mpr h))
        simpa [List.mapM_cons, hx, hxs] using this

/-- What a plain glob lists are the paths of the files that it covers. -/
theorem mem_files? (ht : t.WellFormed) {glob : String} (hplain : isPlain glob = true)
    {files : List String} (hfiles : files? t root glob = some files) (file : String) :
    file ∈ files ↔ ∃ names, file = Path.ofNames names ∧ names ≠ [] ∧
      (t.file? (root.place ++ names)).isSome ∧ covers glob names = true := by
  obtain ⟨found, hfound, rfl⟩ := files?_eq_some hfiles
  have hgood : ∀ g ∈ Braces.expand glob, filesOf? t root g ≠ none := by
    intro g hg hnone
    simp [mapM_eq_none_iff.mpr ⟨g, hg, hnone⟩] at hfound
  have hlead : (Braces.expand glob).all (fun g => !hasBadLead (Text.splitChar '/' g.toList)) = true := by
    rw [List.all_eq_true]
    intro g hg
    simpa [filesOf?_eq_none] using hgood g hg
  rw [mem_sortedTexts, mem_distinct, mem_flatten_of_mapM hfound]
  simp only [covers, hlead, Bool.true_and, List.any_eq_true]
  constructor
  · rintro ⟨g, hg, ys, hys, hmem⟩
    obtain ⟨hslashes, hback⟩ := isPlain_iff.mp hplain g hg
    obtain ⟨names, hnames, hne, hfile, hcovers⟩ := (mem_filesOf? ht hslashes hback hys file).mp hmem
    exact ⟨names, hnames, hne, hfile, g, hg, hcovers⟩
  · rintro ⟨names, hnames, hne, hfile, g, hg, hcovers⟩
    obtain ⟨hslashes, hback⟩ := isPlain_iff.mp hplain g hg
    obtain ⟨ys, hys⟩ := Option.ne_none_iff_exists'.mp (hgood g hg)
    exact ⟨g, hg, ys, hys, (mem_filesOf? ht hslashes hback hys file).mpr
      ⟨names, hnames, hne, hfile, hcovers⟩⟩

/-- A plain glob lists a file if and only if it covers the names of the file. -/
theorem mem_files?_iff_covers (ht : t.WellFormed) {glob : String} (hplain : isPlain glob = true)
    {names : List String} (hne : names ≠ []) (hfile : (t.file? (root.place ++ names)).isSome) :
    Path.ofNames names ∈ (files? t root glob).getD [] ↔ covers glob names = true := by
  cases hfiles : files? t root glob with
  | none =>
    have hnone : (Braces.expand glob).mapM (filesOf? t root) = none := by simpa [files?] using hfiles
    obtain ⟨g, hg, hbad⟩ := mapM_eq_none_iff.mp hnone
    have hfails : covers glob names = false := by
      rw [covers, Bool.and_eq_false_iff, List.all_eq_false]
      exact .inl ⟨g, hg, by simp [filesOf?_eq_none.mp hbad]⟩
    simp [hfails]
  | some files =>
    rw [Option.getD_some, mem_files? ht hplain hfiles]
    constructor
    · rintro ⟨others, hothers, hne', hfile', hcovers⟩
      obtain ⟨bytes, hbytes⟩ := Option.isSome_iff_exists.mp hfile
      obtain ⟨bytes', hbytes'⟩ := Option.isSome_iff_exists.mp hfile'
      rw [Path.ofNames_inj hne hne' (ht.names_of_file? hbytes) (ht.names_of_file? hbytes') hothers]
      exact hcovers
    · intro hcovers
      exact ⟨names, rfl, hne, hfile, hcovers⟩

/-- A plain glob lists nothing but paths of names that it covers. -/
theorem exists_names_of_mem_files? (ht : t.WellFormed) {glob path : String}
    (hplain : isPlain glob = true) (h : path ∈ (files? t root glob).getD []) :
    ∃ names, Path.AreNames names ∧ path = Path.ofNames names ∧ covers glob names = true := by
  cases hfiles : files? t root glob with
  | none => simp [hfiles] at h
  | some files =>
    rw [hfiles, Option.getD_some] at h
    obtain ⟨names, rfl, hne, hfile, hcovers⟩ := (mem_files? ht hplain hfiles path).mp h
    obtain ⟨bytes, hbytes⟩ := Option.isSome_iff_exists.mp hfile
    exact ⟨names, ⟨hne, ht.names_of_file? hbytes⟩, rfl, hcovers⟩

/-- A glob fails exactly if one of its alternatives has a bad lead, whatever the tree is. -/
theorem files?_eq_none {glob : String} : files? t root glob = none ↔
    ∃ g ∈ Braces.expand glob, hasBadLead (Text.splitChar '/' g.toList) = true := by
  rw [files?, Option.map_eq_none_iff, mapM_eq_none_iff]
  simp only [filesOf?_eq_none]

/-- What a plain glob lists is up to which of the files that it covers are there. -/
theorem files?_congr {t' : Tree} (ht : t.WellFormed) (ht' : t'.WellFormed) {glob : String}
    (hplain : isPlain glob = true) (h : ∀ names, Path.AreNames names → covers glob names = true →
      (t.file? (root.place ++ names)).isSome = (t'.file? (root.place ++ names)).isSome) :
    files? t root glob = files? t' root glob := by
  have areNames : ∀ {t : Tree} {names : List String}, t.WellFormed → names ≠ [] →
      (t.file? (root.place ++ names)).isSome → Path.AreNames names := by
    intro t names ht hne hfile
    obtain ⟨bytes, hbytes⟩ := Option.isSome_iff_exists.mp hfile
    exact ⟨hne, ht.names_of_file? hbytes⟩
  cases hfiles : files? t root glob with
  | none => exact (files?_eq_none.mpr (files?_eq_none.mp hfiles)).symm
  | some files =>
    cases hfiles' : files? t' root glob with
    | none =>
      rw [files?_eq_none.mpr (files?_eq_none.mp hfiles')] at hfiles
      cases hfiles
    | some files' =>
      -- Each tree lists what the glob covers in it, and the lists are sorted.
      have hmem : ∀ file, file ∈ files ↔ file ∈ files' := by
        intro file
        rw [mem_files? ht hplain hfiles, mem_files? ht' hplain hfiles']
        apply exists_congr
        intro names
        constructor
        · rintro ⟨rfl, hne, hfile, hcovers⟩
          exact ⟨rfl, hne, by rwa [← h names (areNames ht hne hfile) hcovers], hcovers⟩
        · rintro ⟨rfl, hne, hfile, hcovers⟩
          exact ⟨rfl, hne, by rwa [h names (areNames ht' hne hfile) hcovers], hcovers⟩
      obtain ⟨found, -, rfl⟩ := files?_eq_some hfiles
      obtain ⟨found', -, rfl⟩ := files?_eq_some hfiles'
      simp only [mem_sortedTexts] at hmem
      rw [sortedTexts_congr (nodup_distinct _) (nodup_distinct _) hmem]

/-- A glob of names and one last segment covers files of one directory, by their last name. -/
theorem exists_of_covers {glob : String} {dirs : List String} {last : List Char}
    {names : List String} (hone : Braces.expand glob = [glob])
    (hsegments : segmentsOf glob = dirs.map String.toList ++ [last])
    (hdirs : ∀ dir ∈ dirs, isMagic dir.toList = false) (hlast : last ≠ deep)
    (h : covers glob names = true) :
    ∃ name, names = dirs ++ [name] ∧ nameFits last name = true := by
  have hstands : stands (dirs.map String.toList ++ [last]) names = true := by
    simp only [covers, hone, List.any_cons, List.any_nil, Bool.or_false, Bool.and_eq_true,
      alternativeCovers_eq, hsegments] at h
    exact h.2.2
  clear h hone hsegments
  -- Each segment of a directory has one name that fits, as it holds no wildcard.
  induction dirs generalizing names with
  | nil =>
    obtain ⟨hdeep, -⟩ | ⟨hdeep, -⟩ | ⟨-, name, others, rfl, hfits, hothers⟩ := stands_cons.mp hstands
    · exact absurd hdeep hlast
    · exact absurd hdeep hlast
    · obtain rfl : others = [] := by simpa [stands] using hothers
      exact ⟨name, rfl, hfits⟩
  | cons dir dirs ih =>
    have hdir := hdirs dir (by simp)
    have hshallow : dir.toList ≠ deep := by
      rintro hdeep
      rw [hdeep] at hdir
      cases hdir
    obtain ⟨hdeep, -⟩ | ⟨hdeep, -⟩ | ⟨-, name, others, rfl, hfits, hothers⟩ := stands_cons.mp hstands
    · exact absurd hdeep hshallow
    · exact absurd hdeep hshallow
    · obtain rfl : name = dir := by simpa [nameFits, hdir] using hfits
      obtain ⟨file, rfl, hfile⟩ := ih (fun d hd => hdirs d (by simp [hd])) hothers
      exact ⟨file, rfl, hfile⟩

end RailsUpgrade.Glob
