import RailsUpgrade.Proofs.Lines
import RailsUpgrade.Proofs.Scores

/-!
# `RailsUpgrade.Proofs.Margins`: margins that are put in front and taken off again

`dedent` takes off what all lines share, and `indent` puts a margin in front of the lines that are not
blank. Each undoes the other on lines that are flush.

* `inset` puts a margin in front of a line, unless the line is empty;
* `AreFlush`: lines that share no margin and are empty or hold something. `dedent` leaves such lines;
* `dedent_join_inset`: whatever margin is put in front of flush lines, `dedent` takes it off;
* `trimNewlines_dedent_inset`: the same with the line feeds at the ends;
* `indent_join`: `indent` puts its margin in front of flush lines.
-/

set_option autoImplicit false

namespace RailsUpgrade.Text

variable {margin line s : List Char} {lines : List (List Char)}

theorem splitChar_join {sep : Char} (hne : lines ≠ []) (hlines : ∀ line ∈ lines, sep ∉ line) :
    splitChar sep (join [sep] lines) = lines := by
  rw [splitChar_eq_splitOn, join_eq_intercalate]
  exact List.splitOn_intercalate sep hlines hne

/-! ### Margins in front of lines -/

/-- Puts a margin in front of a line, unless the line is empty. -/
def inset (margin line : List Char) : List Char := if line.isEmpty then [] else margin ++ line

@[simp] theorem inset_nil (margin : List Char) : inset margin [] = [] := rfl

theorem inset_of_ne (margin : List Char) (h : line ≠ []) : inset margin line = margin ++ line := by
  rw [inset, if_neg (by simpa using h)]

@[simp] theorem inset_eq_nil_iff : inset margin line = [] ↔ line = [] := by
  by_cases h : line = []
  · simp [h]
  · simp [inset_of_ne margin h, h]

theorem inset_inset (margin margin' line : List Char) :
    inset margin (inset margin' line) = inset (margin ++ margin') line := by
  by_cases h : line = []
  · simp [h]
  · rw [inset_of_ne margin' h, inset_of_ne _ h, inset_of_ne _ (by simp [h]), List.append_assoc]

theorem notMem_inset (hmargin : margin.all isSpaceOrTab = true) (hline : '\n' ∉ line) :
    '\n' ∉ inset margin line := by
  intro hmem
  unfold inset at hmem
  split at hmem
  · cases hmem
  · rcases List.mem_append.mp hmem with hmem | hmem
    · exact absurd (List.all_eq_true.mp hmargin _ hmem) (by decide)
    · exact hline hmem

/-- A margin in front of texts is shared by them. -/
theorem sharedStart_append (margin s t : List Char) :
    sharedStart (margin ++ s) (margin ++ t) = margin ++ sharedStart s t := by
  induction margin with
  | nil => rfl
  | cons x margin ih => simp [sharedStart, ih]

theorem foldl_sharedStart_append (margin first : List Char) (rest : List (List Char)) :
    (rest.map (margin ++ ·)).foldl sharedStart (margin ++ first) =
      margin ++ rest.foldl sharedStart first := by
  induction rest generalizing first with
  | nil => rfl
  | cons s rest ih => rw [List.map_cons, List.foldl_cons, List.foldl_cons, sharedStart_append, ih]

theorem filter_map_inset (margin : List Char) (lines : List (List Char)) :
    (lines.map (inset margin)).filter (!·.isEmpty) = (lines.filter (!·.isEmpty)).map (margin ++ ·) := by
  induction lines with
  | nil => rfl
  | cons line lines ih =>
    by_cases h : line = []
    · simpa [h] using ih
    · simpa [h, inset_of_ne] using ih

/-- Lines that all have a margin in front share it, and what they shared before. -/
theorem sharedMargin_inset (hmargin : margin.all isSpaceOrTab = true) (hsome : ∃ line ∈ lines, line ≠ []) :
    sharedMargin (lines.map (inset margin)) = margin ++ sharedMargin lines := by
  have hmargins : ((lines.filter (!·.isEmpty)).map (margin ++ ·)).map (·.takeWhile isSpaceOrTab) =
      ((lines.filter (!·.isEmpty)).map (·.takeWhile isSpaceOrTab)).map (margin ++ ·) := by
    rw [List.map_map, List.map_map]
    exact List.map_congr_left fun line _ => List.takeWhile_append_of_pos (List.all_eq_true.mp hmargin)
  unfold sharedMargin
  rw [filter_map_inset, hmargins]
  cases hlines : (lines.filter (!·.isEmpty)).map (·.takeWhile isSpaceOrTab) with
  | nil =>
    obtain ⟨line, hline, hne⟩ := hsome
    have hmem : line ∈ lines.filter (!·.isEmpty) := List.mem_filter.mpr ⟨hline, by simpa using hne⟩
    rw [List.map_eq_nil_iff.mp hlines] at hmem
    cases hmem
  | cons first rest => exact foldl_sharedStart_append margin first rest

/-- Empty lines share nothing. -/
theorem sharedMargin_of_empty (h : ∀ line ∈ lines, line = []) : sharedMargin lines = [] := by
  have hnone : lines.filter (!·.isEmpty) = [] :=
    List.filter_eq_nil_iff.mpr fun line hline => by simp [h line hline]
  rw [sharedMargin, hnone]
  rfl

theorem all_sharedMargin (lines : List (List Char)) : (sharedMargin lines).all isSpaceOrTab = true := by
  by_cases h : ∀ line ∈ lines, line = []
  · rw [sharedMargin_of_empty h]
    rfl
  · push Not at h
    obtain ⟨line, hline, hne⟩ := h
    have hbegins := sharedMargin_prefix hline hne
    exact List.all_eq_true.mpr fun c hc => List.mem_takeWhile_imp (hbegins.subset hc)

/-! ### Flush lines -/

/-- Lines that share no margin, and each of which is empty or holds something. -/
structure AreFlush (lines : List (List Char)) : Prop where
  solid : ∀ line ∈ lines, line ≠ [] → line.all isSpaceOrTab = false
  margin : sharedMargin lines = []

/-- Empty lines have no say. -/
theorem AreFlush.of_filter {lines' : List (List Char)} (h : AreFlush lines)
    (hsame : lines'.filter (!·.isEmpty) = lines.filter (!·.isEmpty)) : AreFlush lines' where
  solid line hline hne := by
    have hmem : line ∈ lines'.filter (!·.isEmpty) := List.mem_filter.mpr ⟨hline, by simpa using hne⟩
    rw [hsame] at hmem
    exact h.solid line (List.mem_filter.mp hmem).1 hne
  margin := by
    rw [sharedMargin, hsame]
    exact h.margin

/-- The shared margin stands in front of what is left of lines once it is taken off. -/
theorem map_inset_drop (hsolid : ∀ line ∈ lines, line ≠ [] → line.all isSpaceOrTab = false) :
    (lines.map (·.drop (sharedMargin lines).length)).map (inset (sharedMargin lines)) = lines := by
  rw [List.map_map]
  refine (List.map_congr_left fun line hline => ?_).trans (List.map_id lines)
  by_cases hne : line = []
  · simp [hne]
  · have hmargin := sharedMargin_prefix hline hne
    obtain ⟨rest, hrest⟩ := hmargin.trans (List.takeWhile_prefix _)
    have hrestNe : rest ≠ [] := by
      rintro rfl
      have hall := all_sharedMargin lines
      rw [List.append_nil] at hrest
      rw [hrest, hsolid line hline hne] at hall
      cases hall
    have hdrop : line.drop (sharedMargin lines).length = rest := by rw [← hrest, List.drop_left]
    show inset (sharedMargin lines) (line.drop (sharedMargin lines).length) = line
    rw [hdrop, inset_of_ne _ hrestNe, hrest]

/-- What is left of lines that hold something is flush once the shared margin is taken off. -/
theorem areFlush_drop (hsolid : ∀ line ∈ lines, line ≠ [] → line.all isSpaceOrTab = false) :
    AreFlush (lines.map (·.drop (sharedMargin lines).length)) := by
  have hinset := map_inset_drop hsolid
  set rests := lines.map (·.drop (sharedMargin lines).length)
  have hmargin := all_sharedMargin lines
  refine ⟨fun line hline hne => ?_, ?_⟩
  · have hmem : inset (sharedMargin lines) line ∈ rests.map (inset (sharedMargin lines)) :=
      List.mem_map_of_mem hline
    have hall := hsolid _ (hinset ▸ hmem) (by simpa using hne)
    rwa [inset_of_ne _ hne, List.all_append, hmargin, Bool.true_and] at hall
  · by_cases hsome : ∃ line ∈ rests, line ≠ []
    · have hshared := sharedMargin_inset hmargin hsome
      rw [hinset] at hshared
      simpa using hshared
    · push Not at hsome
      exact sharedMargin_of_empty hsome

/-- The lines of a text, emptied if they hold nothing. -/
def solidOrEmpty (s : List Char) : List (List Char) :=
  (splitChar '\n' s).map fun line => if line.all isSpaceOrTab then [] else line

theorem dedent_eq (s : List Char) : dedent s =
    join ['\n'] ((solidOrEmpty s).map (·.drop (sharedMargin (solidOrEmpty s)).length)) := rfl

theorem solid_of_mem_solidOrEmpty : ∀ line ∈ solidOrEmpty s, line ≠ [] → line.all isSpaceOrTab = false := by
  intro line hline hne
  obtain ⟨line', -, rfl⟩ := List.mem_map.mp hline
  split
  · rename_i hall
    exact absurd (if_pos hall) hne
  · rename_i hall
    simpa using hall

/-- The lines that `dedent` leaves. -/
theorem splitChar_dedent (s : List Char) : splitChar '\n' (dedent s) =
    (solidOrEmpty s).map (·.drop (sharedMargin (solidOrEmpty s)).length) := by
  rw [dedent_eq]
  refine splitChar_join (by simp [solidOrEmpty, splitChar_ne_nil]) fun line hline hmem => ?_
  obtain ⟨_, hemptied, rfl⟩ := List.mem_map.mp hline
  obtain ⟨piece, hpiece, rfl⟩ := List.mem_map.mp hemptied
  have hbreak := List.mem_of_mem_drop hmem
  split at hbreak
  · cases hbreak
  · exact notMem_of_mem_splitChar hpiece hbreak

theorem areFlush_dedent (s : List Char) : AreFlush (splitChar '\n' (dedent s)) := by
  rw [splitChar_dedent]
  exact areFlush_drop solid_of_mem_solidOrEmpty

/-- Whatever margin is put in front of flush lines, `dedent` takes it off. -/
theorem dedent_join_inset (h : AreFlush lines) (hne : lines ≠ []) (hlines : ∀ line ∈ lines, '\n' ∉ line)
    (hmargin : margin.all isSpaceOrTab = true) :
    dedent (join ['\n'] (lines.map (inset margin))) = join ['\n'] lines := by
  have hsolid : ∀ line ∈ lines, '\n' ∉ inset margin line := fun line hline =>
    notMem_inset hmargin (hlines line hline)
  have hempty : solidOrEmpty (join ['\n'] (lines.map (inset margin))) = lines.map (inset margin) := by
    rw [solidOrEmpty, splitChar_join (by simpa using hne) (by simpa using hsolid)]
    refine (List.map_congr_left fun line hline => ?_).trans (List.map_id _)
    obtain ⟨line, hmem, rfl⟩ := List.mem_map.mp hline
    by_cases hnil : line = []
    · simp [hnil]
    · rw [inset_of_ne _ hnil, List.all_append, hmargin, h.solid line hmem hnil]
      rfl
  rw [dedent_eq, hempty]
  -- The margin is shared by the lines, unless all of them are empty.
  by_cases hsome : ∃ line ∈ lines, line ≠ []
  · rw [sharedMargin_inset hmargin hsome, h.margin, List.append_nil, List.map_map]
    refine congrArg _ ((List.map_congr_left fun line _ => ?_).trans (List.map_id _))
    by_cases hnil : line = []
    · simp [hnil]
    · simp [inset_of_ne _ hnil]
  · push Not at hsome
    have hsame : lines.map (inset margin) = lines :=
      (List.map_congr_left fun line hline => by rw [hsome line hline, inset_nil]; rfl).trans
        (List.map_id _)
    rw [hsame, sharedMargin_of_empty hsome]
    simp

/-! ### Line feeds at the ends -/

theorem filter_splitChar_dropWhile (s : List Char) :
    (splitChar '\n' (s.dropWhile (· == '\n'))).filter (!·.isEmpty) =
      (splitChar '\n' s).filter (!·.isEmpty) := by
  induction s with
  | nil => rfl
  | cons c s ih =>
    rw [List.dropWhile_cons]
    split
    · rename_i hc
      rw [ih, splitChar, if_pos hc]
      rfl
    · rfl

theorem splitChar_concat (s : List Char) : splitChar '\n' (s ++ ['\n']) = splitChar '\n' s ++ [[]] := by
  rw [splitChar_eq_splitOn, splitChar_eq_splitOn, List.splitOn_append_cons_self, List.splitOn_nil]

/-- Line feeds at the end only end empty lines. -/
theorem filter_splitChar_rdropWhile (s : List Char) :
    (splitChar '\n' (s.rdropWhile (· == '\n'))).filter (!·.isEmpty) =
      (splitChar '\n' s).filter (!·.isEmpty) := by
  induction s using List.reverseRecOn with
  | nil => rfl
  | append_singleton s c ih =>
    by_cases hc : c = '\n'
    · subst hc
      rw [List.rdropWhile_concat_pos _ _ _ (by simp), ih, splitChar_concat, List.filter_append]
      simp
    · rw [List.rdropWhile_concat_neg _ _ _ (by simpa using hc)]

theorem trimNewlines_eq (s : List Char) :
    trimNewlines s = (s.dropWhile (· == '\n')).rdropWhile (· == '\n') := rfl

theorem areFlush_trimNewlines (h : AreFlush (splitChar '\n' s)) :
    AreFlush (splitChar '\n' (trimNewlines s)) := by
  refine h.of_filter ?_
  rw [trimNewlines_eq, filter_splitChar_rdropWhile, filter_splitChar_dropWhile]

/-- A line feed that is added at the end is dropped again. -/
theorem trimNewlines_concat (s : List Char) : trimNewlines (trimNewlines s ++ ['\n']) = trimNewlines s := by
  rw [trimNewlines_eq s]
  set front := s.dropWhile (· == '\n') with hfront
  cases hrest : front.rdropWhile (· == '\n') with
  | nil => rfl
  | cons x rest =>
    have hx : x ≠ '\n' := by
      rintro rfl
      have hhead := List.head?_dropWhile_not (· == '\n') s
      have hprefix := List.rdropWhile_prefix (· == '\n') (l := front)
      rw [hrest] at hprefix
      obtain ⟨more, hmore⟩ := hprefix
      rw [← hfront, ← hmore] at hhead
      simp at hhead
    rw [trimNewlines_eq, List.cons_append, List.dropWhile_cons_of_neg (by simpa using hx), ← List.cons_append,
      List.rdropWhile_concat_pos _ _ _ (by simp), ← hrest, List.rdropWhile_idempotent]

/-- What `dedent` has left of a text is found again behind any margin, with a line feed at the end. -/
theorem trimNewlines_dedent_inset (s : List Char) (hmargin : margin.all isSpaceOrTab = true) :
    trimNewlines (dedent (join ['\n'] ((splitChar '\n' (trimNewlines (dedent s))).map (inset margin)) ++
      ['\n'])) = trimNewlines (dedent s) := by
  have hflush := areFlush_trimNewlines (areFlush_dedent s)
  set body := trimNewlines (dedent s) with hbody
  have hlast : AreFlush (splitChar '\n' body ++ [[]]) := hflush.of_filter (by simp)
  have hjoin : join ['\n'] ((splitChar '\n' body).map (inset margin)) ++ ['\n'] =
      join ['\n'] ((splitChar '\n' body ++ [[]]).map (inset margin)) := by
    rw [List.map_append, join_append (by simp [splitChar_ne_nil]) (by simp)]
    rfl
  have hsolid : ∀ line ∈ splitChar '\n' body ++ [[]], '\n' ∉ line := by
    intro line hline
    rcases List.mem_append.mp hline with hline | hline
    · exact notMem_of_mem_splitChar hline
    · simp [List.mem_singleton.mp hline]
  rw [hjoin, dedent_join_inset hlast (by simp) hsolid hmargin,
    join_append (splitChar_ne_nil _ _) (by simp), join_splitChar, hbody]
  exact trimNewlines_concat (dedent s)

/-! ### Putting a margin in front -/

theorem isBlank_of_isLineBreak {c : Char} (h : isLineBreak c = true) : isBlank c = true := by
  simp only [isLineBreak, Bool.or_eq_true, Bool.and_eq_true, decide_eq_true_eq, beq_iff_eq] at h
  have hwide : ∀ n ∈ [133, 8232, 8233], inRuns n wideBlankRuns = true := by decide
  simp only [isBlank, Bool.or_eq_true, Bool.and_eq_true, decide_eq_true_eq]
  rcases h with (((h | h) | h) | h) | h
  · exact .inl (.inl ⟨by omega, h.2⟩)
  · exact .inl (.inr ⟨h.1, by omega⟩)
  · exact .inr ⟨by omega, h ▸ hwide 133 (by simp)⟩
  · exact .inr ⟨by omega, h ▸ hwide 8232 (by simp)⟩
  · exact .inr ⟨by omega, h ▸ hwide 8233 (by simp)⟩

/-- A text without what ends a line is one line. -/
theorem keptLines_of_plain (hline : ∀ c ∈ line, isLineBreak c = false) (hne : line ≠ []) :
    keptLines line = [line] := by
  induction line with
  | nil => exact absurd rfl hne
  | cons c line ih =>
    have hc := hline c List.mem_cons_self
    have hreturn : c ≠ '\r' := by
      rintro rfl
      exact absurd hc (by decide)
    rw [keptLines, if_neg (by simp [hc])]
    · by_cases hlast : line = []
      · simp [hlast, keptLines]
      · rw [ih (fun c hc => hline c (List.mem_cons_of_mem _ hc)) hlast]
    · exact fun _ h => absurd h hreturn

/-- A line feed ends the first line. -/
theorem keptLines_append (hline : ∀ c ∈ line, isLineBreak c = false) (rest : List Char) :
    keptLines (line ++ '\n' :: rest) = (line ++ ['\n']) :: keptLines rest := by
  induction line with
  | nil => rfl
  | cons c line ih =>
    have hc := hline c List.mem_cons_self
    have hreturn : c ≠ '\r' := by
      rintro rfl
      exact absurd hc (by decide)
    rw [List.cons_append, keptLines, if_neg (by simp [hc]),
      ih fun c hc => hline c (List.mem_cons_of_mem _ hc)]
    · rfl
    · exact fun _ h => absurd h hreturn

/-- On lines that hold something but spaces and tabs, `indent` puts its margin in front of each. -/
theorem indent_join (hsolid : ∀ line ∈ lines, line ≠ [] → line.all isSpaceOrTab = false)
    (hblank : ∀ line ∈ lines, ∀ c ∈ line, isBlank c = true → isSpaceOrTab c = true) :
    indent margin (join ['\n'] lines) = join ['\n'] (lines.map (inset margin)) := by
  induction lines with
  | nil => rfl
  | cons line lines ih =>
    rw [List.forall_mem_cons] at hsolid hblank
    -- The only line breaks are those between the lines.
    have hplain : ∀ c ∈ line, isLineBreak c = false := by
      intro c hc
      cases hbreak : isLineBreak c with
      | false => rfl
      | true =>
        have hspace := hblank.1 c hc (isBlank_of_isLineBreak hbreak)
        rw [(isBlank_of_isSpaceOrTab hspace).2] at hbreak
        cases hbreak
    have hall : line ≠ [] → line.all isBlank = false := by
      intro hne
      rw [← Bool.not_eq_true, List.all_eq_true]
      intro hall
      have hspaces : line.all isSpaceOrTab = true :=
        List.all_eq_true.mpr fun c hc => hblank.1 c hc (hall c hc)
      rw [hsolid.1 hne] at hspaces
      cases hspaces
    by_cases hlast : lines = []
    · subst hlast
      by_cases hne : line = []
      · subst hne
        rfl
      · rw [List.map_singleton, inset_of_ne margin hne, join, join, indent, keptLines_of_plain hplain hne,
          List.flatMap_singleton, hall hne, if_neg Bool.false_ne_true]
    · have hrest := ih hsolid.2 hblank.2
      rw [indent] at hrest
      rw [List.map_cons, join_cons _ _ hlast, join_cons _ _ (by simpa using hlast), ← hrest, indent,
        List.append_assoc, List.singleton_append, keptLines_append hplain, List.flatMap_cons]
      by_cases hne : line = []
      · subst hne
        rfl
      · have hend : isBlank '\n' = true := by decide
        simp [inset_of_ne margin hne, hall hne, hend]

end RailsUpgrade.Text
