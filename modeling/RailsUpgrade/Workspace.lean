import RailsUpgrade.Failure
import RailsUpgrade.Glob.Basic
import RailsUpgrade.Notice

/-!
# `RailsUpgrade.Workspace`: what a run works on

A run reads and changes a `Workspace`: a tree of files, the notices so far, and the writes so far in
their order. A `Run` gives a result or ends with a failure; either way the workspace keeps what was
done.
-/

set_option autoImplicit false

namespace RailsUpgrade

/-- A file that was written, and the bytes that it got. -/
structure Write where
  place : Place
  bytes : ByteArray

/-- What a run works on. -/
structure Workspace where
  tree : Tree
  notices : List Notice := []
  writes : List Write := []

/-- Work on a workspace that may end early. -/
abbrev Run := ExceptT Failure (StateM Workspace)

namespace Run

/-- The tree as it is now. -/
def tree : Run Tree := do return (← get).tree

/-- Adds notices. -/
def noteAll (notices : List Notice) : Run Unit :=
  modify fun w => { w with notices := w.notices ++ notices }

/-- Adds a notice. -/
def note (notice : Notice) : Run Unit := noteAll [notice]

/-- Writes the text of a file. -/
def write (root : Root) (path : String) (text : List Char) : Run Unit := do
  match (← tree).write root path text with
  | .error fault => throw (.cannotWrite (Path.Lexical.parse path).text fault)
  | .ok (t, place) =>
    modify fun w => { w with tree := t, writes := w.writes ++ [⟨place, Text.encode text⟩] }

/-- Edits a file, and tells whether that changed it. A file that cannot be read is left alone. -/
def edit (root : Root) (change : List Char → Except Failure (List Char)) (path : String) :
    Run Bool := do
  match (← tree).read root path with
  | .error fault =>
    note (.skipped (Path.Lexical.parse path).text fault)
    return false
  | .ok text => match change text with
    | .error failure => throw failure
    | .ok new =>
      if new == text then return false
      write root path new
      return true

/-- Edits files one after the other, and tells which of them that changed. -/
def editAll (root : Root) (change : List Char → Except Failure (List Char)) :
    List String → Run (List String)
  | [] => return []
  | path :: rest => do
    let changed ← edit root change path
    let more ← editAll root change rest
    return if changed then path :: more else more

/-- The files that a glob stands for now. None if the glob fails. -/
def filesOf (root : Root) (glob : String) : Run (List String) := do
  return (Glob.files? (← tree) root glob).getD []

end Run

end RailsUpgrade
