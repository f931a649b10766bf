import RailsUpgrade.Glob.Segment
import RailsUpgrade.Path.Braces
import RailsUpgrade.Tree.Access

/-!
# `RailsUpgrade.Glob.Basic`: the files that a glob stands for

A glob is a path with wildcards in its segments and alternatives in braces. A segment of exactly two
stars stands for any number of directories, and for all files below if it is the last one; it does
not enter hidden directories. `Glob.files?` lists the files, each once and in order.

A glob fails if a NUL stands in front of its first wildcard, in another segment than that.
-/

set_option autoImplicit false

namespace RailsUpgrade.Glob

/-- The segment that stands for any number of directories. -/
def deep : List Char := ['*', '*']

/-- Whether no name is hidden. -/
def isOpen (names : List String) : Bool := names.all fun name => !isHiddenName name

/-- The files that segments stand for from a place on. `path` are the names that led there. -/
def follow (t : Tree) : List (List Char) → (here : Place) → (path : List String) →
    List (List String)
  | [], here, path => if (t.file? here).isSome then [path] else []
  | segment :: rest, here, path =>
    if !t.isDir here then []
    else if segment == deep then
      if rest.isEmpty then ((t.filesBelow here).filter isOpen).map (path ++ ·)
      else ((t.dirsBelow here).filter isOpen).flatMap fun more =>
        follow t rest (here ++ more) (path ++ more)
    else if isMagic segment then
      ((t.namesBelow here).filter (segmentFits segment)).flatMap fun name =>
        follow t rest (here ++ [name]) (path ++ [name])
    else
      let name := String.ofList segment
      follow t rest (if name == ".." then here.dropLast else here ++ [name]) (path ++ [name])

/-- Whether a NUL stands in a segment in front of the first wildcard. -/
def hasBadLead (segments : List (List Char)) : Bool :=
  segments.any isMagic
    && (segments.takeWhile fun s => !isMagic s).any fun s => s.contains (Char.ofNat 0)

/-- The files that a glob without braces stands for. One that ends with a slash or a dot stands for
directories, and so for no file. -/
def filesOf? (t : Tree) (root : Root) (glob : String) : Option (List String) :=
  let segments := Text.splitChar '/' glob.toList
  if hasBadLead segments then none
  else match segments.getLast? with
    | none | some [] | some ['.'] => some []
    | _ =>
      let start := Tree.startOf root (.parse glob)
      let slashes := (Path.Lexical.parse glob).slashes
      let used := segments.filter fun s => !s.isEmpty && s != ['.']
      some ((follow t used start []).map fun names => (Path.Lexical.mk slashes names).text)

/-- The files that a glob stands for. -/
def files? (t : Tree) (root : Root) (glob : String) : Option (List String) :=
  ((Braces.expand glob).mapM (filesOf? t root)).map fun found => sortedTexts (distinct found.flatten)

end RailsUpgrade.Glob
