import RailsUpgrade.Rule.Registry
import RailsUpgrade.Workspace

/-!
# `RailsUpgrade.Project.Scan`: findings in a tree

Every detection that is active for the target is tried on every file of its glob. Findings come in
the order of the detections and, for one detection, of the files; a file has at most one finding for
a detection. Every file is read once: `Scan.texts` keeps what was read.

A detection whose constraint cannot be compared with the target, because a number is too long, ends
the scan.
-/

set_option autoImplicit false

namespace RailsUpgrade.Project

/-- A scan on its way. -/
structure Scan where
  /-- The texts of the files that were read. One that cannot be read has none. -/
  texts : List (String × Option (List Char)) := []
  findings : List Finding := []
  notices : List Notice := []

namespace Scan

/-- Reads a file, unless that was done before. -/
def read (t : Tree) (root : Root) (s : Scan) (file : String) : Option (List Char) × Scan :=
  match s.texts.lookup file with
  | some text => (text, s)
  | none => match t.read root file with
    | .ok text => (some text, { s with texts := (file, some text) :: s.texts })
    | .error fault =>
      (none, { s with
        texts := (file, none) :: s.texts
        notices := s.notices ++ [.scanFailed file fault] })

/-- Tries a detection on a file. -/
def file (t : Tree) (root : Root) (d : Detection) (s : Scan) (path : String) : Scan :=
  match s.read t root path with
  | (none, s) => s
  | (some text, s) =>
    if d.pattern.found text then
      { s with findings := s.findings ++ [⟨path, d.message, d.source⟩] }
    else s

/-- Tries a detection on the files of its glob, if it is active for the target. -/
def detection (t : Tree) (root : Root) (target : Option String) (s : Scan) (d : Detection) : Scan :=
  match d.constraint.filter fun c => !c.admits target with
  | some c => { s with notices := s.notices ++ [.ruleExcluded d.source c target] }
  | none => match Glob.files? t root d.glob with
    | none => { s with notices := s.notices ++ [.globFailed d.source d.glob] }
    | some files => files.foldl (file t root d) s

end Scan

/-- All findings of detections in a tree, and the notices about them. -/
def scanTree (t : Tree) (root : Root) (target : Option String) (detections : List Detection) :
    Scan :=
  detections.foldl (Scan.detection t root target) {}

/-- The number that is too long to compare the constraint of a detection with the target. -/
def overlong? (target : Option String) (d : Detection) : Option Text.Overlong :=
  d.constraint.bind (·.overlong? target)

/-- Finds what the detections of a registry look for. -/
def scan (root : Root) (registry : Registry) (target : Option String) : Run (List Finding) := do
  let sound := registry.detections.takeWhile fun d => (overlong? target d).isNone
  let s := scanTree (← Run.tree) root target sound
  Run.noteAll s.notices
  match registry.detections.findSome? (overlong? target) with
  | some number => throw (.overlong number)
  | none => return s.findings

end RailsUpgrade.Project
