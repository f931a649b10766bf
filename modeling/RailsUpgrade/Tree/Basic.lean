import RailsUpgrade.Ordered

/-!
# `RailsUpgrade.Tree.Basic`: files and directories

A `Tree` is a part of a file system: files with their bytes and directories, each at a `Place`, the
list of names that leads to it from the top. A place is a directory if it is listed as one, if
something lies below it, or if it is the top.

The view of a tree is `Tree.file?`; `Tree.put` changes it at one place only.
-/

set_option autoImplicit false

namespace RailsUpgrade

/-- The names that lead from the top to a file or a directory. -/
abbrev Place := List String

/-- Files and directories. -/
structure Tree where
  files : List (Place × ByteArray) := []
  dirs : List Place := []

namespace Tree

/-- The bytes of the file at a place. -/
def file? (t : Tree) (p : Place) : Option ByteArray := t.files.lookup p

/-- All places that a file or a listed directory is at. -/
def listed (t : Tree) : List Place := t.files.map (·.1) ++ t.dirs

/-- Whether there is a directory at a place. -/
def isDir (t : Tree) (p : Place) : Bool :=
  p.isEmpty || t.dirs.contains p || t.listed.any fun q => p.isPrefixOf q && p.length < q.length

/-- The names directly below a place, each once. -/
def namesBelow (t : Tree) (p : Place) : List String :=
  distinct (t.listed.filterMap fun q => if p.isPrefixOf q then q[p.length]? else none)

/-- What leads from a place to the directories below it, each once, the place itself first. -/
def dirsBelow (t : Tree) (p : Place) : List Place :=
  let under := (t.listed.filter p.isPrefixOf).map (·.drop p.length)
  let starts := under.flatMap fun q => (List.range (q.length + 1)).map q.take
  distinct ([] :: starts.filter fun q => t.isDir (p ++ q))

/-- What leads from a place to the files below it. -/
def filesBelow (t : Tree) (p : Place) : List Place :=
  t.files.filterMap fun e => if p.isPrefixOf e.1 then some (e.1.drop p.length) else none

/-- Puts bytes into the file at a place, which is made if it is new. -/
def put (t : Tree) (p : Place) (bytes : ByteArray) : Tree :=
  if (t.file? p).isSome then
    { t with files := t.files.map fun e => if e.1 == p then (p, bytes) else e }
  else { t with files := t.files ++ [(p, bytes)] }

/-- Makes a directory. -/
def addDir (t : Tree) (p : Place) : Tree :=
  if t.dirs.contains p then t else { t with dirs := t.dirs ++ [p] }

/-- Takes a file away. The directory that it was in stays. -/
def erase (t : Tree) (p : Place) : Tree :=
  { files := t.files.filter fun e => e.1 != p
    dirs := (t.addDir p.dropLast).dirs }

end Tree

end RailsUpgrade
