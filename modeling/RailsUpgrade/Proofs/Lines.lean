import Mathlib.Data.List.Basic
import Mathlib.Data.List.DropRight
import Mathlib.Data.List.Induction
import Mathlib.Data.List.TakeWhile
import RailsUpgrade.Proofs.Path

/-!
# `RailsUpgrade.Proofs.Lines`: margins change no line

`solidLines` are the lines of a text that hold something, without the blanks around them. They are
what is left of a text if margins do not count:

* `solidLines_append`: where a line ends, the lines on both sides stand for themselves;
* `solidLines_dedent`, `solidLines_trimNewlines`, `solidLines_indent`: taking a margin off, putting
  one in front and dropping empty lines change no solid line.
-/

set_option autoImplicit false

namespace RailsUpgrade.Text

/-- The lines of a text that hold something, without the blanks around them. -/
def solidLines (s : List Char) : List (List Char) :=
  ((s.splitOnP isLineBreak).map trim).filter (!·.isEmpty)

/-! ### Blanks at the ends -/

@[simp] theorem trim_nil : trim [] = [] := rfl

/-- Blanks in front do not count. -/
theorem trim_append_left {margin : List Char} (h : margin.all isBlank = true) (s : List Char) :
    trim (margin ++ s) = trim s := by
  have hdrop : (margin ++ s).dropWhile isBlank = s.dropWhile isBlank := by
    rw [List.dropWhile_append, List.dropWhile_eq_nil_iff.mpr (List.all_eq_true.mp h)]
    rfl
  rw [trim, hdrop, trim]

theorem trim_eq (s : List Char) : trim s = (s.dropWhile isBlank).rdropWhile isBlank := rfl

/-- A text in front of which blanks stand starts with what is no blank. -/
theorem trim_append_cons {margin : List Char} {x : Char} (hmargin : margin.all isBlank = true)
    (hx : isBlank x = false) (t : List Char) :
    trim (margin ++ x :: t) = (x :: t).rdropWhile isBlank := by
  rw [trim_append_left hmargin, trim_eq, List.dropWhile_cons_of_neg (by simp [hx])]

/-- Of what follows a character that is no blank only the blanks at the end are dropped. -/
theorem rdropWhile_append_cons {x : Char} (hx : isBlank x = false) (s t : List Char) :
    (s ++ x :: t).rdropWhile isBlank = s ++ x :: t.rdropWhile isBlank := by
  induction t using List.reverseRecOn with
  | nil => simpa using List.rdropWhile_concat_neg isBlank s x (by simp [hx])
  | append_singleton t y ih =>
    have hassoc : s ++ x :: (t ++ [y]) = (s ++ x :: t) ++ [y] := by simp
    by_cases hy : isBlank y = true
    · rw [hassoc, List.rdropWhile_concat_pos _ _ _ hy, ih, List.rdropWhile_concat_pos _ _ _ hy]
    · rw [hassoc, List.rdropWhile_concat_neg _ _ _ hy, List.rdropWhile_concat_neg _ _ _ hy, hassoc]

/-- A run of characters and what follows it are determined by the text. -/
theorem span_unique {p : Char → Bool} {s s' t t' : List Char} (hs : s.all p = true)
    (hs' : s'.all p = true) (ht : t.head?.any p = false) (ht' : t'.head?.any p = false)
    (h : s ++ t = s' ++ t') : s = s' ∧ t = t' := by
  have htake : ∀ {s t : List Char}, s.all p = true → t.head?.any p = false →
      (s ++ t).takeWhile p = s := by
    intro s t hs ht
    rw [List.takeWhile_append_of_pos (List.all_eq_true.mp hs)]
    cases t with
    | nil => simp
    | cons x t =>
      have hx : p x = false := ht
      simp [hx]
  have hsame : s = s' := by rw [← htake hs ht, h, htake hs' ht']
  exact ⟨hsame, List.append_cancel_left (hsame ▸ h)⟩

/-- The code points of blanks. -/
def blankCodes : List Nat :=
  [9, 10, 11, 12, 13, 28, 29, 30, 31, 32, 133, 160, 5760, 8192, 8193, 8194, 8195, 8196, 8197, 8198,
   8199, 8200, 8201, 8202, 8232, 8233, 8239, 8287, 12288]

theorem exists_of_inRuns {n : Nat} {runs : List (Nat × Nat)} (h : inRuns n runs = true) :
    ∃ run ∈ runs, run.1 ≤ n ∧ n ≤ run.2 := by
  induction runs with
  | nil => cases h
  | cons run runs ih =>
    rw [inRuns] at h
    split at h
    · cases h
    · obtain hhi | hrest := Bool.or_eq_true_iff.mp h
      · exact ⟨run, by simp, by omega, by simpa using hhi⟩
      · obtain ⟨other, hother, hin⟩ := ih hrest
        exact ⟨other, by simp [hother], hin⟩

theorem mem_blankCodes {c : Char} (h : isBlank c = true) : c.toNat ∈ blankCodes := by
  simp only [isBlank, Bool.or_eq_true, Bool.and_eq_true, decide_eq_true_eq] at h
  simp only [blankCodes, List.mem_cons, List.not_mem_nil, or_false]
  obtain (h | h) | ⟨-, h⟩ := h
  · omega
  · omega
  · obtain ⟨run, hrun, hlo, hhi⟩ := exists_of_inRuns h
    simp only [wideBlankRuns, List.mem_cons, List.not_mem_nil, or_false] at hrun
    obtain rfl | rfl | rfl | rfl | rfl | rfl | rfl | rfl := hrun <;> simp only at hlo hhi <;> omega

/-- No blank belongs to a word. -/
theorem isWord_eq_false_of_isBlank {c : Char} (h : isBlank c = true) : isWord c = false := by
  have hall : ∀ n ∈ blankCodes, isWord (Char.ofNat n) = false := by decide +kernel
  rw [← Char.ofNat_toNat c]
  exact hall _ (mem_blankCodes h)

/-- A space or a tab is a blank and ends no line. -/
theorem isBlank_of_isSpaceOrTab {c : Char} (h : isSpaceOrTab c = true) :
    isBlank c = true ∧ isLineBreak c = false := by
  obtain rfl | rfl : c = ' ' ∨ c = '\t' := by simpa [isSpaceOrTab] using h
  · decide
  · decide

/-! ### Cutting where a line ends -/

@[simp] theorem solidLines_nil : solidLines [] = [] := rfl

/-- Where a line ends, the lines on both sides stand for themselves. -/
theorem solidLines_append_cons {c : Char} (hc : isLineBreak c = true) (s t : List Char) :
    solidLines (s ++ c :: t) = solidLines s ++ solidLines t := by
  rw [solidLines, List.splitOnP_append_cons s t hc, List.map_append, List.filter_append]
  rfl

theorem solidLines_cons {c : Char} (hc : isLineBreak c = true) (s : List Char) :
    solidLines (c :: s) = solidLines s := by
  simpa using solidLines_append_cons hc [] s

theorem solidLines_concat {c : Char} (hc : isLineBreak c = true) (s : List Char) :
    solidLines (s ++ [c]) = solidLines s := by
  simpa using solidLines_append_cons hc s []

/-- A text whose last character ends a line. -/
def EndsLine (s : List Char) : Prop := ∃ lead c, s = lead ++ [c] ∧ isLineBreak c = true

theorem EndsLine.cons {s : List Char} (hs : EndsLine s) (c : Char) : EndsLine (c :: s) := by
  obtain ⟨lead, last, rfl, hlast⟩ := hs
  exact ⟨c :: lead, last, rfl, hlast⟩

/-- At the start of a line the lines on both sides stand for themselves. -/
theorem solidLines_append {s : List Char} (hs : s = [] ∨ EndsLine s) (t : List Char) :
    solidLines (s ++ t) = solidLines s ++ solidLines t := by
  obtain rfl | ⟨lead, c, rfl, hc⟩ := hs
  · rfl
  · rw [List.append_assoc, List.singleton_append, solidLines_append_cons hc, solidLines_concat hc]

/-- A margin in front of a text changes none of its lines. -/
theorem solidLines_margin {margin : List Char} (h : margin.all isSpaceOrTab = true)
    (s : List Char) : solidLines (margin ++ s) = solidLines s := by
  have hmargin : ∀ c ∈ margin, isBlank c = true ∧ isLineBreak c = false := fun c hc =>
    isBlank_of_isSpaceOrTab (List.all_eq_true.mp h c hc)
  obtain ⟨first, rest, hsplit⟩ := List.exists_cons_of_ne_nil (List.splitOnP_ne_nil isLineBreak s)
  have hpieces : (margin ++ s).splitOnP isLineBreak = (margin ++ first) :: rest := by
    clear h
    induction margin with
    | nil => exact hsplit
    | cons c margin ih =>
      rw [List.cons_append, List.splitOnP_cons_eq_if_modifyHead, (hmargin c (by simp)).2,
        ih fun c hc => hmargin c (by simp [hc])]
      rfl
  have hblank : margin.all isBlank = true := List.all_eq_true.mpr fun c hc => (hmargin c hc).1
  rw [solidLines, hpieces, solidLines, hsplit, List.map_cons, List.map_cons,
    trim_append_left hblank]

/-- Spaces and tabs alone are no line. -/
theorem solidLines_of_margin {s : List Char} (h : s.all isSpaceOrTab = true) :
    solidLines s = [] := by
  simpa using solidLines_margin h []

/-- The lines of pieces with line feeds between them are those of the pieces. -/
theorem solidLines_join (pieces : List (List Char)) :
    solidLines (join ['\n'] pieces) = pieces.flatMap solidLines := by
  induction pieces with
  | nil => rfl
  | cons piece pieces ih =>
    cases pieces with
    | nil => simp [join]
    | cons next more =>
      have hjoin : join ['\n'] (piece :: next :: more) = piece ++ '\n' :: join ['\n'] (next :: more) := by
        simp [join]
      rw [hjoin, solidLines_append_cons (by decide), ih]
      rfl

theorem solidLines_splitChar (s : List Char) :
    (splitChar '\n' s).flatMap solidLines = solidLines s := by
  rw [← solidLines_join, join_eq_intercalate, splitChar_eq_splitOn, List.intercalate_splitOn]

/-! ### Taking a margin off -/

theorem sharedStart_prefix_left (s t : List Char) : sharedStart s t <+: s := by
  induction s generalizing t with
  | nil => simp [sharedStart]
  | cons x s ih =>
    cases t with
    | nil => simp [sharedStart]
    | cons y t =>
      rw [sharedStart]
      split
      · exact List.cons_prefix_cons.mpr ⟨rfl, ih t⟩
      · exact List.nil_prefix

theorem sharedStart_prefix_right (s t : List Char) : sharedStart s t <+: t := by
  induction s generalizing t with
  | nil => simp [sharedStart]
  | cons x s ih =>
    cases t with
    | nil => simp [sharedStart]
    | cons y t =>
      rw [sharedStart]
      split
      · rename_i hxy
        exact List.cons_prefix_cons.mpr ⟨by simpa using hxy, ih t⟩
      · exact List.nil_prefix

/-- What is shared with every text of a list starts each of them. -/
theorem foldl_sharedStart_isPrefix (first : List Char) (rest : List (List Char)) :
    rest.foldl sharedStart first <+: first ∧ ∀ s ∈ rest, rest.foldl sharedStart first <+: s := by
  induction rest generalizing first with
  | nil => simp
  | cons s rest ih =>
    obtain ⟨hfirst, hrest⟩ := ih (sharedStart first s)
    refine ⟨hfirst.trans (sharedStart_prefix_left first s), ?_⟩
    intro t ht
    obtain rfl | ht := List.mem_cons.mp ht
    · exact hfirst.trans (sharedStart_prefix_right first t)
    · exact hrest t ht

/-- The shared margin starts every line that is not empty, and has spaces and tabs only. -/
theorem sharedMargin_prefix {lines : List (List Char)} {line : List Char} (hline : line ∈ lines)
    (hne : line ≠ []) : sharedMargin lines <+: line.takeWhile isSpaceOrTab := by
  have hmem : line.takeWhile isSpaceOrTab ∈
      (lines.filter (!·.isEmpty)).map (·.takeWhile isSpaceOrTab) :=
    List.mem_map.mpr ⟨line, List.mem_filter.mpr ⟨hline, by simpa using hne⟩, rfl⟩
  unfold sharedMargin
  split
  · exact List.nil_prefix
  · rename_i first rest hmargins
    rw [hmargins] at hmem
    obtain heq | hmem := List.mem_cons.mp hmem
    · rw [heq]
      exact (foldl_sharedStart_isPrefix first rest).1
    · exact (foldl_sharedStart_isPrefix first rest).2 _ hmem

/-- Taking the shared margin off a line leaves its text. -/
theorem solidLines_drop_sharedMargin {lines : List (List Char)} {line : List Char}
    (hline : line ∈ lines) :
    solidLines (line.drop (sharedMargin lines).length) = solidLines line := by
  by_cases hne : line = []
  · simp [hne]
  have hpre := sharedMargin_prefix hline hne
  have hstart : sharedMargin lines <+: line := hpre.trans (List.takeWhile_prefix _)
  have hspaces : (sharedMargin lines).all isSpaceOrTab = true := by
    rw [List.all_eq_true]
    intro c hc
    exact List.mem_takeWhile_imp (hpre.subset hc)
  obtain ⟨text, rfl⟩ := hstart
  rw [List.drop_left, solidLines_margin hspaces]

theorem solidLines_dedent (s : List Char) : solidLines (dedent s) = solidLines s := by
  have hempty : ∀ line : List Char,
      solidLines (if line.all isSpaceOrTab then [] else line) = solidLines line := by
    intro line
    split
    · rename_i h
      rw [solidLines_of_margin h, solidLines_nil]
    · rfl
  rw [dedent, solidLines_join, List.flatMap_map]
  calc List.flatMap _ _
      = ((splitChar '\n' s).map fun line => if line.all isSpaceOrTab then [] else line).flatMap
          solidLines := by
        apply List.flatMap_congr
        intro line hline
        exact solidLines_drop_sharedMargin hline
    _ = (splitChar '\n' s).flatMap solidLines := by
        rw [List.flatMap_map]
        apply List.flatMap_congr
        intro line _
        exact hempty line
    _ = solidLines s := solidLines_splitChar s

/-! ### Empty lines at the ends -/

theorem solidLines_dropWhile (s : List Char) :
    solidLines (s.dropWhile (· == '\n')) = solidLines s := by
  induction s with
  | nil => rfl
  | cons c s ih =>
    rw [List.dropWhile_cons]
    split
    · rename_i hc
      obtain rfl : c = '\n' := by simpa using hc
      rw [ih, solidLines_cons (by decide)]
    · rfl

theorem solidLines_dropWhile_reverse (s : List Char) :
    solidLines (s.reverse.dropWhile (· == '\n')).reverse = solidLines s := by
  induction s using List.reverseRecOn with
  | nil => rfl
  | append_singleton s c ih =>
    rw [List.reverse_append, List.reverse_singleton, List.singleton_append, List.dropWhile_cons]
    split
    · rename_i hc
      obtain rfl : c = '\n' := by simpa using hc
      rw [ih, solidLines_concat (by decide)]
    · simp

theorem solidLines_trimNewlines (s : List Char) : solidLines (trimNewlines s) = solidLines s := by
  rw [trimNewlines, solidLines_dropWhile_reverse, solidLines_dropWhile]

/-! ### Putting a margin in front -/

/-- The kept lines are the text. -/
theorem flatten_keptLines (s : List Char) : (keptLines s).flatten = s := by
  fun_induction keptLines s with
  | case1 => rfl
  | case2 rest ih => simp [ih]
  | case3 c rest _ hc ih => simp [ih]
  | case4 c rest _ hc hnone ih =>
    rw [hnone] at ih
    simp [← ih]
  | case5 c rest _ hc line lines hsome ih =>
    rw [hsome] at ih
    simp [← ih]

/-- A line that ends may stand in front of other lines. -/
theorem endsLine_cons {first : List Char} {lines : List (List Char)} (hfirst : EndsLine first)
    (hlines : ∀ line ∈ lines.dropLast, EndsLine line) :
    ∀ line ∈ (first :: lines).dropLast, EndsLine line := by
  cases lines with
  | nil => simp
  | cons next more =>
    rw [List.dropLast_cons_cons, List.forall_mem_cons]
    exact ⟨hfirst, hlines⟩

/-- Every kept line but the last ends with what ends a line. -/
theorem endsLine_of_mem_dropLast (s : List Char) :
    ∀ line ∈ (keptLines s).dropLast, EndsLine line := by
  fun_induction keptLines s with
  | case1 => simp
  | case2 rest ih => exact endsLine_cons ⟨['\r'], '\n', rfl, by decide⟩ ih
  | case3 c rest _ hc ih => exact endsLine_cons ⟨[], c, rfl, hc⟩ ih
  | case4 c rest _ hc hnone ih => simp
  | case5 c rest _ hc first more hsome ih =>
    rw [hsome] at ih
    cases more with
    | nil => simp
    | cons next more =>
      rw [List.dropLast_cons_cons, List.forall_mem_cons] at ih ⊢
      exact ⟨ih.1.cons c, ih.2⟩

/-- Lines that all end, the last one perhaps not, stand for themselves, whatever `f` makes of them
without changing them or where they end. -/
theorem solidLines_flatMap {f : List Char → List Char} {lines : List (List Char)}
    (hf : ∀ line, solidLines (f line) = solidLines line)
    (hends : ∀ line ∈ lines.dropLast, EndsLine (f line)) :
    solidLines (lines.flatMap f) = lines.flatMap solidLines := by
  induction lines with
  | nil => rfl
  | cons line lines ih =>
    cases lines with
    | nil => simp [hf]
    | cons next more =>
      rw [List.flatMap_cons, solidLines_append (.inr (hends line (by simp))), hf,
        ih fun other hother => hends other (by simp [hother])]
      rfl

/-- A margin in front of the lines that are not blank changes none of them. -/
theorem solidLines_indent {margin : List Char} (h : margin.all isSpaceOrTab = true)
    (s : List Char) : solidLines (indent margin s) = solidLines s := by
  have hlines : solidLines ((keptLines s).flatMap id) = (keptLines s).flatMap solidLines :=
    solidLines_flatMap (fun _ => rfl) (endsLine_of_mem_dropLast s)
  rw [List.flatMap_id, flatten_keptLines] at hlines
  rw [hlines, indent]
  apply solidLines_flatMap
  · intro line
    split
    · rfl
    · exact solidLines_margin h line
  · intro line hline
    obtain ⟨lead, c, rfl, hc⟩ := endsLine_of_mem_dropLast s line hline
    split
    · exact ⟨lead, c, rfl, hc⟩
    · exact ⟨margin ++ lead, c, by simp, hc⟩

end RailsUpgrade.Text
