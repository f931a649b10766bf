import RailsUpgrade.Decimal.Binary64
import RailsUpgrade.Report.Wrap

/-!
# `RailsUpgrade.Report.Table`: panels and tables

A line of a panel or a table is a list of parts, so that a line that is too wide can be cut off.

* `Border` are the characters of one horizontal or vertical stroke pattern.
* `columnWidths` finds how wide the columns of a table are.
* `tableLines` lays out rows of cells under columns, `panelLines` a text in a frame with a title.
-/

set_option autoImplicit false

namespace RailsUpgrade.Report

/-- A line of a table between its left and its right edge. -/
structure Border where
  left : Char
  fill : Char
  joint : Char
  right : Char

/-- A stroke across columns of the given widths. -/
def Border.across (b : Border) (widths : List Nat) : List (List Char) :=
  [b.left :: Text.join [b.joint] (widths.map fun w => List.replicate w b.fill) ++ [b.right]]

/-- Lists of parts with a part between them. -/
def joinParts (between : List Char) : List (List (List Char)) → List (List Char)
  | [] => []
  | [parts] => parts
  | parts :: rest => parts ++ between :: joinParts between rest

/-- The parts of cells between the edges. -/
def Border.around (b : Border) (cells : List (List (List Char))) : List (List Char) :=
  [b.left] :: joinParts [b.joint] cells ++ [[b.right]]

/-! ## Columns -/

/-- A column of a table. -/
structure Column where
  header : List Char
  /-- The width of a column that does not depend on its cells. -/
  fixed : Option Nat := none
  /-- The least width of a column that depends on its cells. -/
  least : Nat := 0
  /-- The cells under the header. -/
  entries : List (List Char) := []

/-- The width of the widest line of a text. -/
def widestLine (s : List Char) : Nat :=
  ((Text.keptLines s).map fun line => cells (line.filter fun c => !Text.isLineBreak c)).foldl max 0

/-- The width that a column asks for within a limit, with a blank on each side of its cells. -/
def Column.width (c : Column) (limit : Nat) : Nat :=
  if limit == 0 then 0
  else match c.fixed with
    | some width => min (width + 2) limit
    | none =>
      let widest := ((c.header :: c.entries).map widestLine).foldl max 0
      max (min (widest + 2) limit) (c.least + 2)

/-- Takes `excess` off the widths of the columns that depend on their cells, as far as they go. -/
def giveWay (excess : Nat) : List (Column × Nat) → List Nat
  | [] => []
  | (c, w) :: rest =>
    let cut := if c.fixed.isSome then 0 else min excess w
    (w - cut) :: giveWay (excess - cut) rest

/-- Takes `excess` off widths evenly. `shares` counts the widths that are not zero. -/
def reduceEvenly (excess shares : Nat) : List Nat → List Nat
  | [] => []
  | w :: rest =>
    if w == 0 then 0 :: reduceEvenly excess shares rest
    else
      let cut := min w (Binary64.roundDiv excess shares)
      (w - cut) :: reduceEvenly (excess - cut) (shares - 1) rest

/-- The width of several columns together. -/
def totalWidth : List Nat → Nat
  | [] => 0
  | w :: rest => w + totalWidth rest

/-- The widths of columns within a limit. If they ask for too much, columns that depend on their
cells give way first and then all do, but a column keeps its least width as long as it has any. -/
def columnWidths (limit : Nat) (columns : List Column) : List Nat :=
  let asked := columns.map fun c => max 1 (c.width limit)
  if totalWidth asked ≤ limit then asked
  else
    let widths := giveWay (totalWidth asked - limit) (columns.zip asked)
    let widths :=
      if totalWidth widths ≤ limit then widths
      else reduceEvenly (totalWidth widths - limit) (widths.filter (· != 0)).length widths
    List.zipWith (fun c w => c.width w) columns widths

/-! ## Rows -/

/-- The lines of a cell, with a blank on each side. -/
def cellLines (width : Nat) (s : List Char) : List (List (List Char)) :=
  (wrap .ellipsis (width - 2) s).map fun line => [[' '], padTo (width - 2) line, [' ']]

/-- The lines of a row: every cell is broken in its column, and the tallest one sets the
height. -/
def rowLines (b : Border) (widths : List Nat) (row : List (List Char)) : List (List (List Char)) :=
  let broken := List.zipWith cellLines widths row
  let height := (broken.map List.length).foldl max 1
  (List.range height).map fun i =>
    b.around (List.zipWith (fun w lines => lines.getD i [List.replicate w ' ']) widths broken)

/-- The rows of columns. -/
def rowsOf (columns : List Column) : List (List (List Char)) :=
  let height := (columns.map fun c => c.entries.length).foldl max 0
  (List.range height).map fun i => columns.map fun c => c.entries.getD i []

/-- A table with a header, cut off at a width. -/
def tableLines (width : Nat) (columns : List Column) : List (List Char) :=
  let widths := columnWidths (width - (columns.length + 1)) columns
  let lines :=
    [Border.across ⟨'┏', '━', '┳', '┓'⟩ widths]
      ++ rowLines ⟨'┃', ' ', '┃', '┃'⟩ widths (columns.map Column.header)
      ++ [Border.across ⟨'┡', '━', '╇', '┩'⟩ widths]
      ++ (rowsOf columns).flatMap (rowLines ⟨'│', ' ', '│', '│'⟩ widths)
      ++ [Border.across ⟨'└', '─', '┴', '┘'⟩ widths]
  lines.map (cropped width)

/-! ## Panels -/

/-- The upper edge of a panel with a title in its middle. The smaller half of the stroke is on the
left. A panel that is too narrow has no title. -/
def titleLine (width : Nat) (title : List Char) : List Char :=
  let stroke (n : Nat) : List Char := List.replicate n '─'
  if width ≤ 4 then '╭' :: stroke (width - 2) ++ ['╮']
  else
    let title := if cells title ≤ width - 4 then title else fit (width - 4) title
    let extra := width - 4 - cells title
    '╭' :: stroke (1 + extra / 2) ++ title ++ stroke (extra - extra / 2 + 1) ++ ['╮']

/-- A panel with a title over the whole width. -/
def panelLines (width : Nat) (title text : List Char) : List (List Char) :=
  let inner := width - 4
  let lines :=
    [[titleLine width title]]
      ++ (wrap .fold inner text).map (fun line => [['│'], [' '], padTo inner line, [' '], ['│']])
      ++ [['╰' :: List.replicate (width - 2) '─' ++ ['╯']]]
  lines.map (cropped width)

end RailsUpgrade.Report
