import RailsUpgrade.Pattern.Spelling
import RailsUpgrade.Tree.Access

/-!
# `RailsUpgrade.Project.Detect`: what a directory tells about its application
-/

set_option autoImplicit false

namespace RailsUpgrade.Project

/-- The target of applications that do not pin Rails. -/
def defaultTarget : String := "7.0.0"

/-- The pins of Rails that tell the version, in the order in which they are tried. Group 1 is the
version. -/
def railsPins : List Pattern :=
  [.fixed {} r#"gem\s+['"]rails['"],\s+['"]~>\s+([\d.]+)['"]"#,
   .fixed {} r#"gem\s+['"]rails['"],\s+['"]>=\s+([\d.]+)['"]"#]

/-- A line that uses Rails. -/
def railsGem : Pattern := .fixed .byLine r#"^\s*gem\s+['"]rails['"]"#

/-- The text of the Gemfile, empty if there is none that can be read. -/
def gemfileText (t : Tree) (root : Root) : List Char :=
  match t.read root "Gemfile" with
  | .ok text => text
  | .error _ => []

/-- The version that a Gemfile pins Rails to. -/
def pinnedVersion? (text : List Char) : Option String :=
  railsPins.findSome? fun p => (p.expr.search text).map fun m => String.ofList (m.group 1)

/-- The target of an application: the version that it pins Rails to. -/
def detectTarget (t : Tree) (root : Root) : String :=
  (pinnedVersion? (gemfileText t root)).getD defaultTarget

/-- Whether a directory looks like that of an application. -/
def isApplication (t : Tree) (root : Root) : Bool :=
  t.isFileAt root "config/application.rb" || railsGem.found (gemfileText t root)

end RailsUpgrade.Project
