import RailsUpgrade.Path.Relative

/-!
# `RailsUpgrade.Proofs.Path`: paths and the names on them

Names of files hold no slash and are neither empty nor dots. A list of such names and the relative
path that is written from it are two views of one thing:

* `Text.splitChar_eq_splitOn`, `Text.join_eq_intercalate`: cutting and joining are the library's;
* `Path.parse_ofNames`: the path of some names is read back as these names;
* `Path.ofNames_inj`: different names have different paths.
-/

set_option autoImplicit false

namespace RailsUpgrade

namespace Text

theorem splitChar_eq_splitOn (sep : Char) (s : List Char) : splitChar sep s = s.splitOn sep := by
  induction s with
  | nil => rfl
  | cons c rest ih =>
    rw [splitChar, List.splitOn_cons_eq_if_modifyHead, ih]
    split
    · rfl
    · obtain ⟨piece, pieces, hpieces⟩ := List.exists_cons_of_ne_nil (List.splitOn_ne_nil sep rest)
      rw [hpieces]
      rfl

theorem splitChar_ne_nil (sep : Char) (s : List Char) : splitChar sep s ≠ [] := by
  rw [splitChar_eq_splitOn]
  exact List.splitOn_ne_nil sep s

/-- The pieces do not hold what lies between them. -/
theorem notMem_of_mem_splitChar {sep : Char} {s piece : List Char} (h : piece ∈ splitChar sep s) :
    sep ∉ piece := by
  fun_induction splitChar sep s generalizing piece with
  | case1 => simp_all
  | case2 c rest hc ih =>
    rcases List.mem_cons.mp h with rfl | hmem
    · simp
    · exact ih hmem
  | case3 c rest hc hnil ih => exact absurd hnil (splitChar_ne_nil sep rest)
  | case4 c rest hc first pieces hpieces ih =>
    rw [hpieces] at ih
    rcases List.mem_cons.mp h with rfl | hmem
    · have hne : sep ≠ c := fun heq => hc (by simp [heq])
      simpa [hne] using ih List.mem_cons_self
    · exact ih (List.mem_cons_of_mem _ hmem)

theorem splitChar_of_notMem {sep : Char} {s : List Char} (h : sep ∉ s) : splitChar sep s = [s] := by
  rw [splitChar_eq_splitOn]
  have hone : ∀ piece ∈ [s], sep ∉ piece := by simpa using h
  simpa using List.splitOn_intercalate sep hone (by simp)

theorem splitChar_append_cons (sep : Char) (s t : List Char) :
    splitChar sep (s ++ sep :: t) = splitChar sep s ++ splitChar sep t := by
  induction s with
  | nil => simp [splitChar]
  | cons c s ih =>
    rw [List.cons_append, splitChar, splitChar, ih]
    split
    · rfl
    · obtain ⟨piece, pieces, hpieces⟩ := List.exists_cons_of_ne_nil (List.splitOn_ne_nil sep s)
      rw [splitChar_eq_splitOn sep s, hpieces]
      rfl

theorem join_eq_intercalate (sep : List Char) (pieces : List (List Char)) :
    join sep pieces = sep.intercalate pieces := by
  induction pieces with
  | nil => rfl
  | cons piece pieces ih =>
    cases pieces with
    | nil => simp [join]
    | cons next more =>
      rw [join, ih, List.intercalate_cons_cons]
      simp

end Text

namespace Path

/-- What the name of a file or a directory may be. -/
def IsName (name : String) : Prop := name ≠ "" ∧ name ≠ "." ∧ name ≠ ".." ∧ '/' ∉ name.toList

instance (name : String) : Decidable (IsName name) := by
  unfold IsName
  infer_instance

/-- Names that lead to a file: at least one, and each of them a name. -/
structure AreNames (names : List String) : Prop where
  ne_nil : names ≠ []
  isName : ∀ name ∈ names, IsName name

/-- The relative path that leads along names. -/
def ofNames (names : List String) : String := (Lexical.mk 0 names).text

variable {names : List String}

theorem toList_ofNames (hne : names ≠ []) :
    (ofNames names).toList = ['/'].intercalate (names.map String.toList) := by
  simp [ofNames, Lexical.text, hne]

theorem splitChar_ofNames (hne : names ≠ []) (hnames : ∀ name ∈ names, IsName name) :
    Text.splitChar '/' (ofNames names).toList = names.map String.toList := by
  rw [toList_ofNames hne, Text.splitChar_eq_splitOn]
  apply List.splitOn_intercalate
  · intro piece hpiece
    obtain ⟨name, hname, rfl⟩ := List.mem_map.mp hpiece
    exact (hnames name hname).2.2.2
  · simpa using hne

/-- Names that say something are all kept. -/
theorem namesOf_ofNames (hne : names ≠ []) (hnames : ∀ name ∈ names, IsName name) :
    namesOf (ofNames names) = names := by
  have hkept : ∀ piece ∈ names.map String.toList, (!piece.isEmpty && piece != ['.']) = true := by
    intro piece hpiece
    obtain ⟨name, hname, rfl⟩ := List.mem_map.mp hpiece
    obtain ⟨hempty, hdot, -, -⟩ := hnames name hname
    have hdot' : name.toList ≠ ['.'] := fun h => hdot (String.toList_inj.mp (by simpa using h))
    simp [hempty, hdot']
  rw [namesOf, splitChar_ofNames hne hnames, List.filter_eq_self.mpr hkept, List.map_map]
  simp

/-- The path of a name does not start with a slash. -/
theorem takeWhile_ofNames (hne : names ≠ []) (hnames : ∀ name ∈ names, IsName name) :
    (ofNames names).toList.takeWhile (· == '/') = [] := by
  obtain ⟨name, rest, rfl⟩ := List.exists_cons_of_ne_nil hne
  obtain ⟨hempty, -, -, hslash⟩ := hnames name (by simp)
  cases hname : name.toList with
  | nil => exact absurd (String.toList_eq_nil_iff.mp hname) hempty
  | cons c cs =>
    have hc : c ≠ '/' := fun h => hslash (by simp [hname, h])
    rw [toList_ofNames hne, List.map_cons, hname]
    cases rest <;> simp [hc]

/-- A path that was written from names is read back as these names. -/
theorem parse_ofNames (hne : names ≠ []) (hnames : ∀ name ∈ names, IsName name) :
    Lexical.parse (ofNames names) = ⟨0, names⟩ := by
  simp [Lexical.parse, takeWhile_ofNames hne hnames, namesOf_ofNames hne hnames]

/-- The path tells the names. -/
theorem ofNames_inj {others : List String} (hne : names ≠ []) (hne' : others ≠ [])
    (hnames : ∀ name ∈ names, IsName name) (hothers : ∀ name ∈ others, IsName name)
    (h : ofNames names = ofNames others) : names = others := by
  rw [← namesOf_ofNames hne hnames, h, namesOf_ofNames hne' hothers]

end Path

end RailsUpgrade
