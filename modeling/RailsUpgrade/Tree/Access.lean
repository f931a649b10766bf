import RailsUpgrade.Path.Relative
import RailsUpgrade.Text.Encoding
import RailsUpgrade.Tree.Basic

/-!
# `RailsUpgrade.Tree.Access`: following paths, reading and writing

A path is followed name by name. Every name but the last has to be that of a directory, and double
dots lead back to the directory above.

* `Root` is the directory that relative paths start from.
* `Tree.look` says what a path leads to.
* `Tree.read` reads a text; a `ReadFault` says why it cannot be read.
* `Tree.write` writes a text and makes the directories above it; a `WriteFault` says why it cannot
  be written.
-/

set_option autoImplicit false

namespace RailsUpgrade

/-- Where an application is, and how messages name it. -/
structure Root where
  place : Place
  shown : String
  deriving DecidableEq, Repr

/-- What a path leads to. -/
inductive Look where
  | file (place : Place) (bytes : ByteArray)
  | dir (place : Place)
  | missing
  /-- A file stands where the path needs a directory. -/
  | blocked

/-- Why a file cannot be read. -/
inductive ReadFault where
  | missing
  | blocked
  | isDir
  /-- Its bytes are no UTF-8. -/
  | undecodable
  deriving DecidableEq, Repr

/-- Why a file cannot be written. -/
inductive WriteFault where
  /-- A file stands where a directory above the one of the file is needed. -/
  | blocked
  /-- A file stands where the directory of the file is needed. -/
  | exists
  | isDir
  | missing
  deriving DecidableEq, Repr

/-- The reason that messages give. -/
def WriteFault.reason : WriteFault → String
  | .blocked => "Not a directory"
  | .exists => "File exists"
  | .isDir => "Is a directory"
  | .missing => "No such file or directory"

namespace Tree

/-- Follows names from a place on. -/
def walk (t : Tree) (here : Place) : List String → Look
  | [] => match t.file? here with
    | some bytes => .file here bytes
    | none => if t.isDir here then .dir here else .missing
  | name :: rest =>
    if (t.file? here).isSome then .blocked
    else if t.isDir here then
      t.walk (if name == ".." then here.dropLast else here ++ [name]) rest
    else .missing

/-- Where a path starts: at the root, or at the top if it starts with a slash. -/
def startOf (root : Root) (path : Path.Lexical) : Place :=
  if path.slashes == 0 then root.place else []

/-- What a path leads to. -/
def look (t : Tree) (root : Root) (path : String) : Look :=
  let p := Path.Lexical.parse path
  t.walk (startOf root p) p.names

/-- Whether a path leads to a file. -/
def isFileAt (t : Tree) (root : Root) (path : String) : Bool :=
  match t.look root path with
  | .file _ _ => true
  | _ => false

/-- Whether a path leads to a file or a directory. -/
def existsAt (t : Tree) (root : Root) (path : String) : Bool :=
  match t.look root path with
  | .file _ _ | .dir _ => true
  | _ => false

/-- Reads the text of a file. -/
def read (t : Tree) (root : Root) (path : String) : Except ReadFault (List Char) :=
  match t.look root path with
  | .missing => .error .missing
  | .blocked => .error .blocked
  | .dir _ => .error .isDir
  | .file _ bytes => match Text.decode? bytes with
    | some text => .ok text
    | none => .error .undecodable

/-- Makes the directory that names lead to, and those above it. The names come last first. -/
def makeDirs (t : Tree) (start : Place) : List String → Except WriteFault (Tree × Place)
  | [] => match t.walk start [] with
    | .dir p => .ok (t, p)
    | .file _ _ => .error .exists
    | .missing | .blocked => .error .missing
  | name :: above => match t.walk start (name :: above).reverse with
    | .dir p => .ok (t, p)
    | .file _ _ => .error .exists
    | .blocked => .error .blocked
    | .missing => match t.makeDirs start above with
      | .error fault => .error fault
      | .ok (t, p) =>
        if name == ".." then .ok (t, p.dropLast) else .ok (t.addDir (p ++ [name]), p ++ [name])

/-- Writes the text of a file. The result tells the place that was written. -/
def write (t : Tree) (root : Root) (path : String) (text : List Char) :
    Except WriteFault (Tree × Place) :=
  let p := Path.Lexical.parse path
  match p.names.reverse with
  | [] => .error .isDir
  | name :: above => match t.makeDirs (startOf root p) above with
    | .error fault => .error fault
    | .ok (t, dir) =>
      if name == ".." || t.isDir (dir ++ [name]) then .error .isDir
      else .ok (t.put (dir ++ [name]) (Text.encode text), dir ++ [name])

end Tree

end RailsUpgrade
