import RailsUpgrade.Text.CellTable
import RailsUpgrade.Text.Classes

/-!
# `RailsUpgrade.Report.Cells`: how wide a text is on a terminal

A terminal is a grid of cells. Most characters take up one cell, some none and some two, so the
width of a text is not its length.

* `cells` is the width of a text.
* `fit` gives a text exactly a width.
* `chop` cuts a text into pieces of at most a width.
* `cropped` cuts off a line that is made up of several parts.
-/

set_option autoImplicit false

namespace RailsUpgrade.Report

/-- The number of cells that a character takes up. -/
def cellsOf (c : Char) : Nat :=
  let n := c.toNat
  if 32 ≤ n && n < 127 then 1
  else if Text.inRuns n Text.cellFreeRuns then 0
  else if Text.inRuns n Text.doubleCellRuns then 2
  else 1

/-- The number of cells that a text takes up. -/
def cells : List Char → Nat
  | [] => 0
  | c :: rest => cellsOf c + cells rest

/-- Fills a line up with blanks. -/
def padTo (width : Nat) (line : List Char) : List Char :=
  line ++ List.replicate (width - cells line) ' '

/-- The start of a text that is wider than `width`, searched for by bisection between two lengths. A
character of two cells that would stand half outside becomes a blank. -/
def cutTo (width : Nat) (s : List Char) : (fuel low high : Nat) → List Char
  | 0, low, _ => s.take low
  | fuel + 1, low, high =>
    let middle := (low + high) / 2
    let start := s.take (middle + 1)
    let size := cells start
    if size == width + 1 && start.getLast?.any (cellsOf · == 2) then s.take middle ++ [' ']
    else if size == width then start
    else if width < size then cutTo width s fuel low middle
    else cutTo width s fuel middle high

/-- A text with exactly a width: filled up with blanks, or cut off. -/
def fit (width : Nat) (s : List Char) : List Char :=
  if width == 0 then []
  else if cells s ≤ width then padTo width s
  else cutTo width s s.length 0 s.length

/-- Cuts a text into pieces of at most a width. `used` is the width of the piece before it that it
goes on with. -/
def chop (width used : Nat) : List Char → List (List Char)
  | [] => [[]]
  | c :: rest =>
    if width < used + cellsOf c then
      match chop width (cellsOf c) rest with
      | [] => [[], [c]]
      | piece :: pieces => [] :: (c :: piece) :: pieces
    else
      match chop width (used + cellsOf c) rest with
      | [] => [[c]]
      | piece :: pieces => (c :: piece) :: pieces

/-- The parts of a line that is wider than `width`, cut off at that width. -/
def cropParts (width : Nat) : List (List Char) → List Char
  | [] => []
  | part :: rest =>
    if cells part < width then part ++ cropParts (width - cells part) rest else fit width part

/-- A line that is made up of several parts, cut off at a width. -/
def cropped (width : Nat) (parts : List (List Char)) : List Char :=
  if cells parts.flatten ≤ width then parts.flatten else cropParts width parts

end RailsUpgrade.Report
