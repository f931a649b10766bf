import RailsUpgrade.Pattern.Spelling

/-!
# `RailsUpgrade.Path.Protected`: files that are never changed

Schema dumps, the migration history and code of third parties belong to other tools.
-/

set_option autoImplicit false

namespace RailsUpgrade.Path

/-- The paths of files that are generated or owned elsewhere. -/
def protectedPattern : Pattern :=
  .fixed {} r"(?:^|/)(?:schema\.rb$|structure\.sql$|migrate/|db/data/|vendor/|node_modules/|\.bundle/)"

/-- Whether a path belongs to generated or externally owned files. -/
def isProtected (path : String) : Bool := protectedPattern.found path.toList

end RailsUpgrade.Path
