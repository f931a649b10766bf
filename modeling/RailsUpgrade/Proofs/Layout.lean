import RailsUpgrade.Proofs.Scores
import RailsUpgrade.Report.Wrap

/-!
# `RailsUpgrade.Proofs.Layout`: lines that are laid out as they are

A line that fits into a width is not broken, and only blanks at its end can be lost. Conversely a line
that comes out as it went in fits:

* `flatten_spacedWords`: the words of a line, with their blanks, are the line;
* `breaks_of_fits`: words that fit together break no line;
* `wrapLine_eq_singleton`: what one line that is not broken comes out as;
* `count_shown_le`: no character but the blank is ever put in;
* `shown_eq_self_iff`: a line without tabs comes out as it is exactly if it `Fits`;
* `wrap_eq_singleton_iff`: so does a whole text.
-/

set_option autoImplicit false

namespace RailsUpgrade.Report

variable {width : Nat} {s line : List Char}

/-! ### Cells -/

theorem cells_append (s t : List Char) : cells (s ++ t) = cells s + cells t := by
  induction s with
  | nil => simp [cells]
  | cons c s ih => rw [List.cons_append, cells, cells, ih, Nat.add_assoc]

theorem cells_reverse (s : List Char) : cells s.reverse = cells s := by
  induction s with
  | nil => rfl
  | cons c s ih =>
    rw [List.reverse_cons, cells_append, ih, cells, cells, cells, Nat.add_zero, Nat.add_comm]

/-- The blanks after a word do not count. -/
theorem wordCells_le (word : List Char) : wordCells word ≤ cells word := by
  have hsplit := List.takeWhile_append_dropWhile (p := Text.isBlank) (l := word.reverse)
  rw [← cells_reverse word, ← hsplit, cells_append, wordCells]
  exact Nat.le_add_left _ _

/-! ### Words -/

/-- Cutting a line into words loses nothing. -/
theorem flatten_cutWords (inWord pastWord : Bool) (line : List Char) :
    (cutWords inWord pastWord line).flatten = line := by
  induction line generalizing inWord pastWord with
  | nil => rfl
  | cons c line ih =>
    rw [cutWords]
    split
    · have hrest := ih true false
      split <;> simp_all
    · have hrest := ih (inWord || !Text.isBlank c) (inWord && Text.isBlank c)
      split <;> simp_all

/-- The words of a line, with their blanks, are the line, unless there are none. -/
theorem flatten_spacedWords (line : List Char) :
    spacedWords line = [] ∨ (spacedWords line).flatten = line := by
  unfold spacedWords
  split
  · exact .inl rfl
  · exact .inr (flatten_cutWords _ _ _)

/-- Words that fit behind each other break no line. -/
theorem breaks_of_fits (overflow : Overflow) {words : List (List Char)} {b : Breaking}
    (h : b.column + cells words.flatten ≤ width) :
    (words.foldl (Breaking.word overflow width) b).breaks = b.breaks := by
  induction words generalizing b with
  | nil => rfl
  | cons word words ih =>
    rw [List.flatten_cons, cells_append] at h
    have hword := wordCells_le word
    have hfits : b.word overflow width word =
        { b with start := b.start + word.length, column := b.column + cells word } := by
      rw [Breaking.word, if_pos (by omega)]
    rw [List.foldl_cons, hfits]
    exact ih (by simp only; omega)

theorem length_divide (start : Nat) (places : List Nat) (s : List Char) :
    (divide start places s).length = places.length + 1 := by
  induction places generalizing start s with
  | nil => rfl
  | cons place places ih => rw [divide, List.length_cons, ih, List.length_cons]

/-! ### One line -/

/-- What a line without breaks comes out as. -/
def shown (width : Nat) (line : List Char) : List Char :=
  crop .fold width (trimEnd width (untabbed line))

/-- A line that comes out as one line is not broken. -/
theorem wrapLine_eq_singleton {out : List Char} (h : wrapLine .fold width line = [out]) :
    out = shown width line := by
  simp only [wrapLine] at h
  have hlength := congrArg List.length h
  simp only [List.length_map, length_divide, List.length_reverse, List.length_singleton] at hlength
  rw [List.eq_nil_of_length_eq_zero (Nat.succ.inj hlength)] at h
  exact (List.singleton_inj.mp h).symm

/-- And a line whose cells fit is not broken. -/
theorem wrapLine_of_fits (h : cells (untabbed line) ≤ width) :
    wrapLine .fold width line = [shown width line] := by
  have hbreaks : ((spacedWords (untabbed line)).foldl (Breaking.word .fold width) {}).breaks = [] := by
    obtain hnone | hwords := flatten_spacedWords (untabbed line)
    · rw [hnone]
      rfl
    · exact breaks_of_fits .fold (by rw [hwords]; simpa using h)
  simp only [wrapLine, hbreaks]
  rfl

theorem wrapLine_ne_nil (overflow : Overflow) (width : Nat) (line : List Char) :
    wrapLine overflow width line ≠ [] := by
  intro h
  have hlength := congrArg List.length h
  simp [wrapLine, length_divide] at hlength

/-! ### What is lost on the way -/

/-- A text that is too wide is cut off in front of some character, and a blank may stand in for that
character if it is none itself. -/
theorem cutTo_cases {fuel low high : Nat} (hlow : low < s.length) (hhigh : high ≤ s.length)
    (hwide : width < cells s) :
    ∃ n < s.length, cutTo width s fuel low high = s.take n ∨
      s[n]? ≠ some ' ' ∧ cutTo width s fuel low high = s.take n ++ [' '] := by
  induction fuel generalizing low high with
  | zero => exact ⟨low, hlow, .inl rfl⟩
  | succ fuel ih =>
    have hmiddle : (low + high) / 2 < s.length := by omega
    simp only [cutTo]
    -- The half of the last cell is given to a blank, unless a blank stands there.
    split
    · rename_i hhalf
      refine ⟨(low + high) / 2, hmiddle, .inr ⟨fun hblank => ?_, rfl⟩⟩
      have hlast : (s.take ((low + high) / 2 + 1)).getLast? = some ' ' := by
        rw [List.getLast?_take, if_neg (by omega), Nat.add_sub_cancel, hblank]
        rfl
      rw [hlast] at hhalf
      simp [cellsOf] at hhalf
    · split
      -- The text cannot be cut at its end, since it is too wide.
      · rename_i hsize
        refine ⟨(low + high) / 2 + 1, Nat.lt_of_le_of_ne hmiddle fun hall => ?_, .inl rfl⟩
        rw [hall, List.take_length] at hsize
        simp only [beq_iff_eq] at hsize
        omega
      · split
        · exact ih hlow (by omega)
        · exact ih hmiddle hhigh

theorem crop_of_fits (h : cells line ≤ width) : crop .fold width line = line := by
  rw [crop, if_pos h]

theorem crop_of_wide (h : width < cells line) : ∃ n < line.length, crop .fold width line = line.take n ∨
    (line)[n]? ≠ some ' ' ∧ crop .fold width line = line.take n ++ [' '] := by
  have hne : 0 < line.length := by
    cases line with
    | nil => simp [cells] at h
    | cons => simp
  rw [crop, if_neg (by omega)]
  simp only [fit]
  split
  · exact ⟨0, hne, .inl rfl⟩
  · rw [if_neg (by omega)]
    exact cutTo_cases hne (Nat.le_refl _) h

/-- A line that is cut off is no longer the whole line, and nothing is put in but a blank. -/
theorem crop_props (width : Nat) (line : List Char) :
    (crop .fold width line).length ≤ line.length ∧
      (crop .fold width line = line → cells line ≤ width) ∧
      ∀ c ≠ ' ', (crop .fold width line).count c ≤ line.count c := by
  by_cases h : cells line ≤ width
  · rw [crop_of_fits h]
    exact ⟨Nat.le_refl _, fun _ => h, fun _ _ => Nat.le_refl _⟩
  · obtain ⟨n, hn, hcrop⟩ := crop_of_wide (Nat.lt_of_not_le h)
    have htake : ∀ c, (line.take n).count c ≤ line.count c := fun c =>
      (List.take_sublist n line).count_le c
    obtain hcrop | ⟨hblank, hcrop⟩ := hcrop
    · refine ⟨by rw [hcrop]; simp, fun hsame => ?_, fun c _ => by rw [hcrop]; exact htake c⟩
      have hlength := congrArg List.length (hcrop.symm.trans hsame)
      rw [List.length_take] at hlength
      omega
    · refine ⟨by rw [hcrop]; simp; omega, fun hsame => ?_, fun c hc => ?_⟩
      · refine absurd ?_ hblank
        rw [← hcrop.symm.trans hsame, List.getElem?_append_right (by simp), List.length_take]
        simp [Nat.min_eq_left hn.le]
      · rw [hcrop, List.count_append, List.count_singleton, if_neg (by simpa using hc.symm)]
        exact htake c

/-- Blanks stay at the end of a line if it is short enough, or if there are none. -/
theorem trimEnd_eq_self_iff : trimEnd width line = line ↔
    line.length ≤ width ∨ ∀ c ∈ line.getLast?, Text.isBlank c = false := by
  have hblanks : (line.reverse.takeWhile Text.isBlank).length = 0 ↔
      ∀ c ∈ line.getLast?, Text.isBlank c = false := by
    rw [← List.head?_reverse]
    cases line.reverse with
    | nil => simp
    | cons c rest => by_cases hc : Text.isBlank c = true <;> simp [hc]
  have hle : (line.reverse.takeWhile Text.isBlank).length ≤ line.length := by
    simpa using (List.takeWhile_sublist (p := Text.isBlank) (l := line.reverse)).length_le
  have hwhole : trimEnd width line = line ↔ line.length ≤
      line.length - min (line.reverse.takeWhile Text.isBlank).length (line.length - width) := by
    refine ⟨fun h => ?_, List.take_of_length_le⟩
    have hlength := congrArg List.length h
    rw [trimEnd, List.length_take] at hlength
    omega
  rw [hwhole, ← hblanks]
  omega

theorem trimEnd_sublist (width : Nat) (line : List Char) : (trimEnd width line).Sublist line :=
  List.take_sublist _ _

/-- Tabs become blanks, and nothing else changes. -/
theorem count_expandTabs_le {c : Char} (hc : c ≠ ' ') (column : Nat) (line : List Char) :
    (expandTabs column line).count c ≤ line.count c := by
  induction line generalizing column with
  | nil => rfl
  | cons x line ih =>
    rw [expandTabs]
    split
    · rw [List.count_append, List.count_replicate, if_neg (by simpa using hc.symm), Nat.zero_add]
      exact (ih _).trans ((List.sublist_cons_self x line).count_le c)
    · rw [List.count_cons, List.count_cons]
      exact Nat.add_le_add_right (ih _) _

theorem tab_notMem_expandTabs (column : Nat) (line : List Char) : '\t' ∉ expandTabs column line := by
  induction line generalizing column with
  | nil => simp [expandTabs]
  | cons x line ih =>
    rw [expandTabs]
    split
    · simp [ih]
    · rename_i hx
      simp only [List.mem_cons, not_or]
      exact ⟨by simpa using Ne.symm (by simpa using hx), ih _⟩

theorem count_untabbed_le {c : Char} (hc : c ≠ ' ') (line : List Char) :
    (untabbed line).count c ≤ line.count c := by
  unfold untabbed
  split
  · exact count_expandTabs_le hc 0 line
  · exact Nat.le_refl _

theorem tab_notMem_untabbed (line : List Char) : '\t' ∉ untabbed line := by
  unfold untabbed
  split
  · exact tab_notMem_expandTabs 0 line
  · rename_i h
    simpa using h

theorem untabbed_of_notMem (h : '\t' ∉ line) : untabbed line = line := by
  rw [untabbed, if_neg (by simpa using h)]

/-- No character but the blank is ever put in. -/
theorem count_shown_le {c : Char} (hc : c ≠ ' ') (width : Nat) (line : List Char) :
    (shown width line).count c ≤ line.count c := by
  have hcrop := (crop_props width (trimEnd width (untabbed line))).2.2 c hc
  exact hcrop.trans (((trimEnd_sublist _ _).count_le c).trans (count_untabbed_le hc line))

/-- No tab is left. -/
theorem tab_notMem_shown (width : Nat) (line : List Char) : '\t' ∉ shown width line := by
  have hcrop := (crop_props width (trimEnd width (untabbed line))).2.2 '\t' (by decide)
  have htrim := (trimEnd_sublist width (untabbed line)).count_le '\t'
  have hnone := List.count_eq_zero.mpr (tab_notMem_untabbed line)
  refine List.count_eq_zero.mp ?_
  rw [shown]
  omega

theorem length_shown_le (htab : '\t' ∉ line) : (shown width line).length ≤ line.length := by
  rw [shown, untabbed_of_notMem htab]
  exact (crop_props width (trimEnd width line)).1.trans (trimEnd_sublist width line).length_le

/-- A line fits into a width: its cells do, and so do its characters if there are blanks at its end. -/
structure Fits (width : Nat) (line : List Char) : Prop where
  cells : cells line ≤ width
  last : line.length ≤ width ∨ ∀ c ∈ line.getLast?, Text.isBlank c = false

instance (width : Nat) (line : List Char) : Decidable (Fits width line) :=
  decidable_of_iff (Report.cells line ≤ width ∧
    (line.length ≤ width ∨ line.getLast?.all (! Text.isBlank ·) = true))
    ⟨fun h => ⟨h.1, by simpa [Option.all_eq_true] using h.2⟩,
      fun h => ⟨h.cells, by simpa [Option.all_eq_true] using h.last⟩⟩

/-- A line without tabs is shown as it is exactly if it fits. -/
theorem shown_eq_self_iff (htab : '\t' ∉ line) : shown width line = line ↔ Fits width line := by
  rw [shown, untabbed_of_notMem htab]
  constructor
  · intro h
    obtain ⟨hlength, hfits, -⟩ := crop_props width (trimEnd width line)
    rw [h] at hlength
    -- Cutting off and trimming both make a line shorter if they change it.
    have htrim : trimEnd width line = line :=
      (trimEnd_sublist width line).eq_of_length_le hlength
    rw [htrim] at h hfits
    exact ⟨hfits h, trimEnd_eq_self_iff.mp htrim⟩
  · intro h
    rw [trimEnd_eq_self_iff.mpr h.last, crop_of_fits h.cells]

/-! ### Whole texts -/

/-- A text that comes out as one line has no line breaks. -/
theorem wrap_eq_singleton {out : List Char} (h : wrap .fold width s = [out]) :
    '\n' ∉ s ∧ out = shown width s := by
  have hwidth : width ≠ 0 := by
    rintro rfl
    exact List.cons_ne_nil _ _ h.symm
  rw [wrap, if_neg (by simpa using hwidth)] at h
  obtain ⟨piece, pieces, hpieces⟩ := List.exists_cons_of_ne_nil (Text.splitChar_ne_nil '\n' s)
  rw [hpieces, List.flatMap_cons] at h
  -- Every piece gives a line of its own, so there is only one.
  have hnone : pieces = [] := by
    cases pieces with
    | nil => rfl
    | cons next rest =>
      have hlength := congrArg List.length h
      have hfirst := List.length_pos_of_ne_nil (wrapLine_ne_nil .fold width piece)
      have hnext := List.length_pos_of_ne_nil (wrapLine_ne_nil .fold width next)
      rw [List.flatMap_cons, List.length_append, List.length_append, List.length_singleton] at hlength
      omega
  subst hnone
  have hwhole : piece = s := by
    have hjoin := Text.join_splitChar '\n' s
    rwa [hpieces] at hjoin
  subst hwhole
  rw [List.flatMap_nil, List.append_nil] at h
  exact ⟨Text.notMem_of_mem_splitChar (by rw [hpieces]; exact List.mem_singleton_self _),
    wrapLine_eq_singleton h⟩

/-- A text without tabs and line breaks comes out as one line, and as it is, exactly if it fits. -/
theorem wrap_eq_singleton_iff (hwidth : width ≠ 0) (htab : '\t' ∉ s) :
    wrap .fold width s = [s] ↔ '\n' ∉ s ∧ Fits width s := by
  constructor
  · intro h
    obtain ⟨hbreak, hshown⟩ := wrap_eq_singleton h
    exact ⟨hbreak, (shown_eq_self_iff htab).mp hshown.symm⟩
  · rintro ⟨hbreak, hfits⟩
    rw [wrap, if_neg (by simpa using hwidth), Text.splitChar_of_notMem hbreak, List.flatMap_cons,
      wrapLine_of_fits (by rw [untabbed_of_notMem htab]; exact hfits.cells),
      (shown_eq_self_iff htab).mpr hfits]
    rfl

/-- No text is lost altogether. -/
theorem wrap_ne_nil (overflow : Overflow) (hwidth : width ≠ 0) (s : List Char) :
    wrap overflow width s ≠ [] := by
  rw [wrap, if_neg (by simpa using hwidth)]
  obtain ⟨piece, pieces, hpieces⟩ := List.exists_cons_of_ne_nil (Text.splitChar_ne_nil '\n' s)
  rw [hpieces, List.flatMap_cons]
  exact List.append_ne_nil_of_left_ne_nil (wrapLine_ne_nil overflow width piece) _

end RailsUpgrade.Report
