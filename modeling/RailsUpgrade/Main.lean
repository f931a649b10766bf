import RailsUpgrade.Command.Basic

/-!
# `RailsUpgrade.Main`: the program

Reads the directory of the application, runs the command line on it, and carries out the writes of
the run. Everything else is decided by `Command.run`.
-/

set_option autoImplicit false

namespace RailsUpgrade

/-- A place as a path from the top. -/
def Place.text (p : Place) : String := "/" ++ String.intercalate "/" p

/-- Reads the files and directories below a place. Links are not followed. -/
partial def loadBelow (place : Place) (t : Tree) : IO Tree := do
  let mut t := t.addDir place
  for entry in ← (← IO.FS.realPath place.text).readDir do
    let here := place ++ [entry.fileName]
    match (← entry.path.symlinkMetadata).type with
    | .dir => t ← loadBelow here t
    | .file => t := t.put here (← IO.FS.readBinFile here.text)
    | _ => pure ()
  return t

/-- Adds what a path leads to outside of the working directory: a file, or all below a directory. -/
def loadPath (directory : Place) (path : String) (t : Tree) : IO Tree := do
  let real ← try IO.FS.realPath path catch _ => return t
  let place : Place := Path.namesOf real.toString
  if directory.isPrefixOf place then return t
  else if ← real.isDir then loadBelow place t
  else return t.put place (← IO.FS.readBinFile place.text)

/-- Reads what a command line is about: the working directory, the directory that it names, and the
settings file that it names. -/
def loadFor (directory : Place) (args : List String) : IO Tree := do
  let t ← loadBelow directory {}
  match Command.Arguments.parse args with
  | .error _ => return t
  | .ok a => loadPath directory (a.config.getD ".") (← loadPath directory a.path t)

/-- Carries out a write. -/
def Write.perform (w : Write) : IO Unit := do
  IO.FS.createDirAll (Place.text w.place.dropLast)
  IO.FS.writeBinFile (Place.text w.place) w.bytes

end RailsUpgrade

open RailsUpgrade in
/-- Runs the command line in the working directory. -/
def main (args : List String) : IO UInt32 := do
  let directory := Path.namesOf (← IO.currentDir).toString
  let detail := (← IO.getEnv "UPSHIFT_DEBUG").getD ""
  let tree ← loadFor directory args
  let (reply, workspace) := (Command.run directory [] detail args).run { tree }
  for w in workspace.writes do
    w.perform
  for notice in workspace.notices do
    if notice.level == .warning then IO.eprintln notice.text
  IO.print reply.output
  return UInt32.ofNat reply.exit
