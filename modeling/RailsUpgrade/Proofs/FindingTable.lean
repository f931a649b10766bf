import RailsUpgrade.Proofs.Layout
import RailsUpgrade.Report.Terminal

/-!
# `RailsUpgrade.Proofs.FindingTable`: findings in a table on a terminal

The table of an upgrade has 40 cells for a file, at least 40 for a message, and 8 for a mark. With the
blanks and the strokes around them these take up 98 columns. A wider window leaves more room for the
messages. In a narrower one every line is cut off, and the marks are the first to go.

* `cells_fit_le`, `cells_le_of_mem_wrap`: what is laid out is no wider than its place;
* `rowLine`, `rowText`: the lines of a row, spelled out;
* `map_cropped_rowLines`: they are what a row is printed as, if they fit;
* `countP_rowText`: one of them shows the mark;
* `columnWidths_findingColumns`: how wide the columns are;
* `terminalPrintout_lines`: the rows of all findings among the lines of the report.
-/

set_option autoImplicit false

namespace RailsUpgrade.Report

variable {width : Nat} {s line : List Char}

/-! ### Cells -/

theorem cells_replicate {c : Char} (hc : cellsOf c = 1) (n : Nat) : cells (List.replicate n c) = n := by
  induction n with
  | zero => rfl
  | succ n ih => rw [List.replicate_succ, cells, ih, hc, Nat.add_comm]

/-- The stroke between cells and the ellipsis take up one cell. -/
theorem cellsOf_drawn : cellsOf '│' = 1 ∧ cellsOf '…' = 1 := by decide +kernel

theorem cells_padTo (h : cells line ≤ width) : cells (padTo width line) = width := by
  rw [padTo, cells_append, cells_replicate (by decide)]
  omega

/-- The start that is searched for is never too wide. -/
theorem cells_cutTo_le {fuel low high : Nat} (hlow : low < s.length) (hhigh : high ≤ s.length)
    (hfits : cells (s.take low) ≤ width) : cells (cutTo width s fuel low high) ≤ width := by
  induction fuel generalizing low high with
  | zero => exact hfits
  | succ fuel ih =>
    have hmiddle : (low + high) / 2 < s.length := by omega
    have hnext : s.take ((low + high) / 2 + 1) = s.take ((low + high) / 2) ++ [s[(low + high) / 2]] :=
      List.take_succ_eq_append_getElem hmiddle
    have hcells : cells (s.take ((low + high) / 2 + 1)) =
        cells (s.take ((low + high) / 2)) + cellsOf s[(low + high) / 2] := by
      rw [hnext, cells_append, cells, cells, Nat.add_zero]
    simp only [cutTo]
    split
    -- Of the character that stands half outside one cell is left, and the blank takes it.
    · rename_i hhalf
      rw [Bool.and_eq_true, hcells, hnext, List.getLast?_concat, Option.any_some, beq_iff_eq,
        beq_iff_eq] at hhalf
      rw [cells_append, show cells [' '] = 1 by decide]
      omega
    · split
      · rename_i hsize
        exact Nat.le_of_eq (by simpa using hsize)
      · split
        · exact ih hlow (by omega) hfits
        · exact ih hmiddle hhigh (by omega)

theorem cells_fit_le (width : Nat) (s : List Char) : cells (fit width s) ≤ width := by
  rw [fit]
  split
  · exact Nat.zero_le _
  · split
    · rename_i hfits
      exact Nat.le_of_eq (cells_padTo hfits)
    · rename_i hwide
      have hne : s ≠ [] := by
        rintro rfl
        exact hwide (Nat.zero_le _)
      exact cells_cutTo_le (List.length_pos_of_ne_nil hne) (Nat.le_refl _) (Nat.zero_le _)

theorem cells_crop_ellipsis_le (hwidth : 0 < width) (line : List Char) :
    cells (crop .ellipsis width line) ≤ width := by
  rw [crop]
  split
  · assumption
  · have hfit := cells_fit_le (width - 1) line
    have hellipsis : cells ['…'] = 1 := by rw [cells, cellsOf_drawn.2, cells]
    rw [cells_append, hellipsis]
    omega

theorem cells_le_of_mem_wrap (h : line ∈ wrap .ellipsis width s) : cells line ≤ width := by
  rw [wrap] at h
  split at h
  · cases h
  · rename_i hwidth
    obtain ⟨part, -, hpart⟩ := List.mem_flatMap.mp h
    obtain ⟨broken, -, rfl⟩ := List.mem_map.mp hpart
    exact cells_crop_ellipsis_le (Nat.pos_of_ne_zero (by simpa using hwidth)) _

/-! ### Rows -/

/-- What a cell shows in one of the lines of its row. -/
def shownAt (width : Nat) (s : List Char) (i : Nat) : List Char :=
  padTo width ((wrap .ellipsis width s).getD i [])

theorem cells_shownAt (width : Nat) (s : List Char) (i : Nat) : cells (shownAt width s i) = width := by
  refine cells_padTo ?_
  rw [List.getD_eq_getElem?_getD]
  cases hline : (wrap .ellipsis width s)[i]? with
  | none => exact Nat.zero_le _
  | some line => exact cells_le_of_mem_wrap (List.mem_of_getElem? hline)

/-- A line of a row of the table, with so many cells for the message. -/
def rowLine (issue : Nat) (file message mark : List Char) (i : Nat) : List Char :=
  ['│', ' '] ++ shownAt 40 file i ++ [' ', '│', ' '] ++ shownAt issue message i ++ [' ', '│', ' ']
    ++ shownAt 8 mark i ++ [' ', '│']

/-- The lines of a row of the table. The file or the message sets the height. -/
def rowText (issue : Nat) (file message mark : List Char) : List (List Char) :=
  (List.range (max (wrap .ellipsis 40 file).length (wrap .ellipsis issue message).length)).map
    (rowLine issue file message mark)

theorem cells_rowLine (issue : Nat) (file message mark : List Char) (i : Nat) :
    cells (rowLine issue file message mark i) = issue + 58 := by
  have hstroke : cellsOf '│' = 1 := cellsOf_drawn.1
  have hblank : cellsOf ' ' = 1 := by decide
  simp only [rowLine, cells_append, cells_shownAt, cells, hstroke, hblank]
  omega

/-- A cell is its line with a blank on each side, or blank if the other cells are taller. -/
theorem flatten_getD_cellLines (width : Nat) (s : List Char) (i : Nat) :
    ((cellLines (width + 2) s).getD i [List.replicate (width + 2) ' ']).flatten =
      ' ' :: shownAt width s i ++ [' '] := by
  rw [cellLines, Nat.add_sub_cancel, shownAt, List.getD_eq_getElem?_getD, List.getD_eq_getElem?_getD,
    List.getElem?_map]
  cases (wrap .ellipsis width s)[i]? with
  | none =>
    rw [Option.map_none, Option.getD_none, Option.getD_none, List.flatten_singleton,
      List.replicate_succ, List.replicate_succ']
    rfl
  | some line => simp

/-- A row whose mark takes one line is printed as its lines, if they fit. -/
theorem map_cropped_rowLines {issue : Nat} {file message mark : List Char} (hissue : issue ≠ 0)
    (hwidth : issue + 58 ≤ width) (hmark : (wrap .ellipsis 8 mark).length = 1) :
    (rowLines ⟨'│', ' ', '│', '│'⟩ [42, issue + 2, 10] [file, message, mark]).map (cropped width) =
      rowText issue file message mark := by
  have hfile := List.length_pos_of_ne_nil (wrap_ne_nil .ellipsis (show 40 ≠ 0 by decide) file)
  have hmessage := List.length_pos_of_ne_nil (wrap_ne_nil .ellipsis hissue message)
  have hlength : ∀ inner s, (cellLines (inner + 2) s).length = (wrap .ellipsis inner s).length := by
    simp [cellLines]
  have hheight : ([cellLines 42 file, cellLines (issue + 2) message, cellLines 10 mark].map
      List.length).foldl max 1 =
        max (wrap .ellipsis 40 file).length (wrap .ellipsis issue message).length := by
    simp only [List.map_cons, List.map_nil, List.foldl_cons, List.foldl_nil, hlength 40, hlength 8,
      hlength issue, hmark]
    omega
  rw [rowLines, rowText, List.map_map]
  simp only [List.zipWith_cons_cons, List.zipWith_nil_left, hheight]
  refine List.map_congr_left fun i _ => ?_
  have hline : (Border.around ⟨'│', ' ', '│', '│'⟩
      [(cellLines 42 file).getD i [List.replicate 42 ' '],
        (cellLines (issue + 2) message).getD i [List.replicate (issue + 2) ' '],
        (cellLines 10 mark).getD i [List.replicate 10 ' ']]).flatten =
      rowLine issue file message mark i := by
    simp only [Border.around, joinParts, List.flatten_append, List.flatten_cons, List.flatten_nil,
      List.cons_append, flatten_getD_cellLines 40, flatten_getD_cellLines 8,
      flatten_getD_cellLines issue]
    simp [rowLine]
  rw [Function.comp_apply, cropped, hline, if_pos (by rw [cells_rowLine]; exact hwidth)]

/-! ### Marks -/

/-- The mark of a finding that was fixed, or is open. -/
def markText (fixed : Bool) : List Char := (if fixed then "fixed" else "open").toList

/-- How a line of the table ends that shows the mark of an open finding. -/
def openEnd : List Char := "│ open     │".toList

theorem wrap_markText (fixed : Bool) : wrap .ellipsis 8 (markText fixed) = [markText fixed] := by
  cases fixed <;> decide

/-- The first line of a row shows the mark, and the others are blank there. -/
theorem isSuffixOf_rowLine (issue : Nat) (file message : List Char) (fixed : Bool) (i : Nat) :
    openEnd.isSuffixOf (rowLine issue file message (markText fixed) i) = (!fixed && i == 0) := by
  have hends : ∀ lead last : List Char, last.length = openEnd.length →
      openEnd.isSuffixOf (lead ++ last) = (openEnd == last) := by
    intro lead last hlength
    rw [Bool.eq_iff_iff, List.isSuffixOf_iff_suffix, beq_iff_eq]
    refine ⟨fun h => ?_, fun h => h ▸ List.suffix_append lead last⟩
    exact (List.suffix_of_suffix_length_le h (List.suffix_append lead last) hlength.ge).eq_of_length
      hlength.symm
  have hline : rowLine issue file message (markText fixed) i =
      ['│', ' '] ++ shownAt 40 file i ++ [' ', '│', ' '] ++ shownAt issue message i ++ [' '] ++
        (['│', ' '] ++ shownAt 8 (markText fixed) i ++ [' ', '│']) := by
    simp [rowLine]
  rw [hline]
  cases i with
  | zero =>
    rw [shownAt, shownAt, shownAt, wrap_markText]
    cases fixed <;> exact hends _ _ (by decide)
  | succ i =>
    rw [shownAt, shownAt, shownAt, wrap_markText, show [markText fixed].getD (i + 1) [] = [] from rfl]
    refine (hends _ _ (by decide)).trans ?_
    rw [show (i + 1 == 0) = false from rfl, Bool.and_false]
    decide

/-- One line of the row of an open finding shows that it is open. -/
theorem countP_rowText (issue : Nat) (file message : List Char) (fixed : Bool) :
    (rowText issue file message (markText fixed)).countP openEnd.isSuffixOf =
      if fixed then 0 else 1 := by
  have hfile := List.length_pos_of_ne_nil (wrap_ne_nil .ellipsis (show 40 ≠ 0 by decide) file)
  obtain ⟨height, hheight⟩ : ∃ height,
      max (wrap .ellipsis 40 file).length (wrap .ellipsis issue message).length = height + 1 :=
    Nat.exists_eq_add_one_of_ne_zero (by omega)
  have hlater : (List.range height).countP
      ((openEnd.isSuffixOf ∘ rowLine issue file message (markText fixed)) ∘ Nat.succ) = 0 := by
    rw [List.countP_eq_zero]
    intro i _
    simp [isSuffixOf_rowLine]
  rw [rowText, hheight, List.range_succ_eq_map, List.countP_map, List.countP_cons, List.countP_map,
    hlater, Function.comp_apply, isSuffixOf_rowLine]
  cases fixed <;> rfl

end RailsUpgrade.Report

namespace RailsUpgrade.Outcome

open Report

variable (o : Outcome)

/-! ### The table of an upgrade -/

theorem width_of_fixed {c : Column} {inner bound : Nat} (hfixed : c.fixed = some inner)
    (h : inner + 2 ≤ bound) : c.width bound = inner + 2 := by
  rw [Column.width, if_neg (by simp only [beq_iff_eq]; omega), hfixed]
  exact Nat.min_eq_left h

/-- In 98 columns, or more, the columns have their widths, and the messages take what is left. -/
theorem columnWidths_findingColumns {limit : Nat} (hlimit : 94 ≤ limit) :
    ∃ issue, 40 ≤ issue ∧ issue + 54 ≤ limit ∧
      columnWidths limit (o.findingColumns false) = [42, issue + 2, 10] := by
  have hpos : ¬ limit = 0 := by omega
  -- What the messages ask for, and what is left when they have to give way.
  obtain ⟨widest, hissue⟩ : ∃ widest, ∀ bound ≠ 0, Column.width
      { header := "Issue".toList, least := 40, entries := o.findings.map fun f =>
          printable f.message.toList } bound = max (min (widest + 2) bound) 42 :=
    ⟨_, fun bound hbound => by rw [Column.width, if_neg (by simpa using hbound)]⟩
  have hfile : ∀ bound entries, 42 ≤ bound → Column.width
      { header := "File".toList, fixed := some 40, entries } bound = 42 :=
    fun _ _ => width_of_fixed rfl
  have hstatus : ∀ bound entries, 10 ≤ bound → Column.width
      { header := "Status".toList, fixed := some 8, entries } bound = 10 :=
    fun _ _ => width_of_fixed rfl
  by_cases hfits : max (min (widest + 2) limit) 42 + 52 ≤ limit
  · refine ⟨max (min (widest + 2) limit) 42 - 2, by omega, by omega, ?_⟩
    simp only [columnWidths, findingColumns, Bool.false_eq_true, if_false, List.cons_append,
      List.nil_append, List.map_cons, List.map_nil, hissue limit hpos, hfile limit _ (by omega),
      hstatus limit _ (by omega), totalWidth]
    rw [if_pos (by omega)]
    simp only [List.cons.injEq, and_true]
    omega
  · refine ⟨limit - 54, by omega, by omega, ?_⟩
    have hcut : max 1 (max (min (widest + 2) limit) 42) -
        min (max 1 42 + (max 1 (max (min (widest + 2) limit) 42) + (max 1 10 + 0)) - limit)
          (max 1 (max (min (widest + 2) limit) 42)) = limit - 52 := by omega
    simp only [columnWidths, findingColumns, Bool.false_eq_true, if_false, List.cons_append,
      List.nil_append, List.map_cons, List.map_nil, hissue limit hpos, hfile limit _ (by omega),
      hstatus limit _ (by omega), totalWidth]
    rw [if_neg (by omega)]
    simp only [List.zip_cons_cons, List.zip_nil_left, giveWay, Option.isSome_some, Option.isSome_none,
      Bool.false_eq_true, if_true, if_false, hcut, totalWidth, Nat.sub_zero]
    rw [if_pos (by omega)]
    simp only [List.zipWith_cons_cons, List.zipWith_nil_left, hfile (max 1 42) _ (by decide),
      hissue (limit - 52) (by omega), hstatus (max 1 10) _ (by decide), List.cons.injEq, and_true,
      true_and]
    omega

/-- The lines of the report above the rows: the summary in its panel and the head of the table. -/
def linesAbove (width : Nat) : List (List Char) :=
  [[]] ++ panelLines width (" upshift " ++ title false ++ " ").toList (o.summary false).toList ++
    [] :: ([Border.across ⟨'┏', '━', '┳', '┓'⟩ (columnWidths (width - 4) (o.findingColumns false))]
      ++ rowLines ⟨'┃', ' ', '┃', '┃'⟩ (columnWidths (width - 4) (o.findingColumns false))
        ((o.findingColumns false).map Column.header)
      ++ [Border.across ⟨'┡', '━', '╇', '┩'⟩
        (columnWidths (width - 4) (o.findingColumns false))]).map (cropped width)

/-- The lines of one row of the table, cut off at the width of the window. -/
def rowPrinted (width : Nat) (row : List (List Char)) : List (List Char) :=
  (rowLines ⟨'│', ' ', '│', '│'⟩ (columnWidths (width - 4) (o.findingColumns false)) row).map
    (cropped width)

/-- The lines of the report below the rows: the edge of the table and the changed files. -/
def linesBelow (width : Nat) : List (List Char) :=
  cropped width (Border.across ⟨'└', '─', '┴', '┘'⟩ (columnWidths (width - 4) (o.findingColumns false)))
    :: (printMessages width o.changedMessages).lines

/-- The lines of the report. -/
theorem terminalPrintout_lines {o : Outcome} {width : Nat} (hwidth : width ≠ 0)
    (hne : o.findings ≠ []) : (o.terminalPrintout false width).lines =
      o.linesAbove width ++ (rowsOf (o.findingColumns false)).flatMap (o.rowPrinted width) ++
        o.linesBelow width := by
  have hsome : o.findings.isEmpty = false := by simpa using hne
  have hcolumns : (o.findingColumns false).length + 1 = 4 := rfl
  simp only [terminalPrintout, Printout.after, terminalBody, beq_eq_false_iff_ne.mpr hwidth, hsome,
    Bool.false_eq_true, if_false, tableLines, hcolumns, linesAbove, linesBelow, List.map_append,
    List.map_flatMap, List.map_cons, List.map_nil, List.append_assoc, List.cons_append,
    List.nil_append]
  rfl

end RailsUpgrade.Outcome
