import RailsUpgrade.Text.Lines

/-!
# `RailsUpgrade.Path.Relative`: paths as sequences of names

A path is cut at its slashes. Empty names and single dots say nothing and are dropped; double dots
stay, since where they lead depends on the directory. A path that starts with exactly two slashes
is kept apart from one that starts with one.
-/

set_option autoImplicit false

namespace RailsUpgrade.Path

/-- A path without redundant parts: how many slashes it starts with, and its names. -/
structure Lexical where
  slashes : Nat
  names : List String
  deriving DecidableEq, Repr

/-- The names of a path, empty names and single dots left out. -/
def namesOf (path : String) : List String :=
  ((Text.splitChar '/' path.toList).filter fun name => !name.isEmpty && name != ['.']).map
    String.ofList

/-- Reads a path. -/
def Lexical.parse (path : String) : Lexical :=
  let lead := (path.toList.takeWhile (· == '/')).length
  ⟨if lead == 0 then 0 else if lead == 2 then 2 else 1, namesOf path⟩

/-- Writes a path. The empty path is a dot. -/
def Lexical.text (p : Lexical) : String :=
  if p.slashes == 0 && p.names.isEmpty then "."
  else String.ofList (List.replicate p.slashes '/') ++ String.intercalate "/" p.names

/-- The names of `path` below `root`, if it starts with the names of `root`. -/
def below? : (root path : List String) → Option (List String)
  | [], path => some path
  | _ :: _, [] => none
  | r :: root, p :: path => if r == p then below? root path else none

/-- The path as seen from `root`, or the path itself if it does not lie below. -/
def relativeTo (path root : String) : String :=
  let p := Lexical.parse path
  let r := Lexical.parse root
  match if p.slashes == r.slashes then below? r.names p.names else none with
  | some names => (Lexical.mk 0 names).text
  | none => p.text

end RailsUpgrade.Path
