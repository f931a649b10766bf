import RailsUpgrade.Report.Cells
import RailsUpgrade.Text.Lines

/-!
# `RailsUpgrade.Report.Wrap`: text in a given width

A text is cut at its line feeds, tabs are filled up to the next multiple of eight, and every line
is broken between words so that it fits into a width. A word keeps the blanks after it, and the
first word those before it.

What is done with a word that fits into no line is said by `Overflow`: in a cell it is cut off with
an ellipsis, elsewhere it goes on in the next line.
-/

set_option autoImplicit false

namespace RailsUpgrade.Report

/-- What becomes of a word that is wider than a line. -/
inductive Overflow where
  /-- It is cut off, and an ellipsis shows it. -/
  | ellipsis
  /-- It goes on in the next line. -/
  | fold
  deriving DecidableEq, Repr

/-- The code points of the control characters that sound a terminal or move its cursor: bell,
backspace, vertical tab, form feed and carriage return. -/
def controls : List Nat := [7, 8, 11, 12, 13]

/-- A text without those control characters. -/
def printable (s : List Char) : List Char := s.filter fun c => !controls.contains c.toNat

/-- Fills up tabs to the next multiple of eight, from a column on. -/
def expandTabs (column : Nat) : List Char → List Char
  | [] => []
  | c :: rest =>
    if c == '\t' then
      let width := 8 - column % 8
      List.replicate width ' ' ++ expandTabs (column + width) rest
    else c :: expandTabs (column + cellsOf c) rest

/-- Puts the blanks and the word at the start of a text in front of what follows. `inWord` tells
whether a character of the word has been passed, and `pastWord` whether a blank after it has. -/
def cutWords (inWord pastWord : Bool) : List Char → List (List Char)
  | [] => []
  | c :: rest =>
    let blank := Text.isBlank c
    if pastWord && !blank then
      match cutWords true false rest with
      | [] => [[], [c]]
      | word :: words => [] :: (c :: word) :: words
    else
      match cutWords (inWord || !blank) (inWord && blank) rest with
      | [] => [[c]]
      | word :: words => (c :: word) :: words

/-- The words of a line, each with the blanks after it, the first with those before it. A line of
blanks has none. -/
def spacedWords (line : List Char) : List (List Char) :=
  if line.all Text.isBlank then [] else cutWords false false line

/-- The width of a word without the blanks after it. -/
def wordCells (word : List Char) : Nat := cells (word.reverse.dropWhile Text.isBlank)

/-- How far a line has been broken: where the next word starts, how wide the line before it is, and
where the line is broken, last place first. -/
structure Breaking where
  start : Nat := 0
  column : Nat := 0
  breaks : List Nat := []
  deriving DecidableEq, Repr

namespace Breaking

/-- Breaks the line in front of the next word, unless the word is the first one. -/
def breakHere (b : Breaking) : Breaking :=
  if b.start == 0 then b else { b with breaks := b.start :: b.breaks }

/-- Puts pieces of a word into lines of their own. -/
def fold (b : Breaking) : List (List Char) → Breaking
  | [] => b
  | piece :: rest =>
    let broken := b.breakHere
    fold { broken with start := broken.start + piece.length, column := cells piece } rest

/-- Puts the next word into the line, or into the next one if it does not fit. -/
def word (overflow : Overflow) (width : Nat) (b : Breaking) (word : List Char) : Breaking :=
  let size := wordCells word
  if b.column + size ≤ width then
    { b with start := b.start + word.length, column := b.column + cells word }
  else if width < size && overflow == .fold then b.fold (chop width 0 word)
  else if width < size || 0 < b.column then
    { b.breakHere with start := b.start + word.length, column := cells word }
  else { b with start := b.start + word.length }

end Breaking

/-- Cuts a text at ascending places, which count from `start`. -/
def divide (start : Nat) : List Nat → List Char → List (List Char)
  | [], s => [s]
  | place :: rest, s => s.take (place - start) :: divide place rest (s.drop (place - start))

/-- Takes blanks off the end of a line as long as it has more characters than a width. -/
def trimEnd (width : Nat) (line : List Char) : List Char :=
  let blanks := (line.reverse.takeWhile Text.isBlank).length
  line.take (line.length - min blanks (line.length - width))

/-- Cuts off a line that is still wider than a width. -/
def crop (overflow : Overflow) (width : Nat) (line : List Char) : List Char :=
  if cells line ≤ width then line
  else match overflow with
    | .ellipsis => fit (width - 1) line ++ ['…']
    | .fold => fit width line

/-- A line with its tabs filled up. -/
def untabbed (line : List Char) : List Char := if line.contains '\t' then expandTabs 0 line else line

/-- Breaks one line. -/
def wrapLine (overflow : Overflow) (width : Nat) (line : List Char) : List (List Char) :=
  let line := untabbed line
  let breaks := ((spacedWords line).foldl (Breaking.word overflow width) {}).breaks
  (divide 0 breaks.reverse line).map fun l => crop overflow width (trimEnd width l)

/-- Breaks a text into lines of at most a width. Nothing fits into no width. -/
def wrap (overflow : Overflow) (width : Nat) (s : List Char) : List (List Char) :=
  if width == 0 then [] else (Text.splitChar '\n' s).flatMap (wrapLine overflow width)

end RailsUpgrade.Report
