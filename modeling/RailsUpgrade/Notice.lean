import RailsUpgrade.Tree.Access
import RailsUpgrade.Version

/-!
# `RailsUpgrade.Notice`: what a run tells on its way

A `Notice` is something that a run does or leaves out and that a person may want to know. Its
`level` says how much it matters, its `text` says what it is, and its `cause?` names the fault behind
it, if there is one.
-/

set_option autoImplicit false

namespace RailsUpgrade

/-- How much a notice matters. -/
inductive Level where
  | debug
  | info
  | warning
  deriving DecidableEq, Repr

/-- The rank of a level. -/
def Level.rank : Level → Nat
  | .debug => 10
  | .info => 20
  | .warning => 30

/-- The name of a level. -/
def Level.name : Level → String
  | .debug => "DEBUG"
  | .info => "INFO"
  | .warning => "WARNING"

/-- The level with a name. -/
def Level.ofName? (name : String) : Option Level :=
  match name with
  | "DEBUG" => some .debug
  | "INFO" => some .info
  | "WARNING" => some .warning
  | _ => none

/-- The fault behind a notice. -/
inductive Cause where
  | badPattern
  | badGlob
  | read (fault : ReadFault)
  deriving DecidableEq, Repr

/-- What a run tells. -/
inductive Notice where
  /-- A rule whose pattern cannot be read is left out. -/
  | invalidPattern (source : String)
  /-- A repair takes the place of an earlier one. -/
  | repairReplaced (source : String)
  /-- A detection is not meant for the target. -/
  | ruleExcluded (source : String) (constraint : Constraint) (target : Option String)
  /-- A detection whose glob fails is left out. -/
  | globFailed (source glob : String)
  | scanFailed (file : String) (fault : ReadFault)
  | protectedFile (file : String)
  | fileGone (file : String)
  | readFailed (file : String) (fault : ReadFault)
  /-- A finding is left for a person in safe mode. -/
  | leftForReview (source file : String)
  | fixed (verbose : Bool) (file message : String)
  /-- Updates that need a target are left out. -/
  | noTarget
  /-- A file is not edited because it cannot be read. -/
  | skipped (file : String) (fault : ReadFault)
  | noGemfile (root : String)
  | gemfileUpdated (target : String)
  | configUpdated (file : String)
  | migrationUpdated (file : String)
  | migrationsUpdated (count : Nat) (line : String)
  | sourceUnread (file : String) (fault : ReadFault)
  | alreadyMoved (file : String)
  | classMissing (constant name file : String)
  | targetKept (file : String)
  | moved (oldConstant newConstant : String)
  | apiRenamed (count : Nat)
  deriving DecidableEq, Repr

namespace Notice

/-- How much a notice matters. -/
def level : Notice → Level
  | .invalidPattern _ | .globFailed _ _ | .scanFailed _ _ | .readFailed _ _ | .noTarget
  | .skipped _ _ | .sourceUnread _ _ | .classMissing _ _ _ => .warning
  | .gemfileUpdated _ | .configUpdated _ | .migrationsUpdated _ _ | .targetKept _ | .moved _ _
  | .apiRenamed _ => .info
  | .fixed verbose _ _ => if verbose then .info else .debug
  | .repairReplaced _ | .ruleExcluded _ _ _ | .protectedFile _ | .fileGone _ | .leftForReview _ _
  | .noGemfile _ | .migrationUpdated _ | .alreadyMoved _ => .debug

/-- The fault behind a notice. -/
def cause? : Notice → Option Cause
  | .invalidPattern _ => some .badPattern
  | .globFailed _ _ => some .badGlob
  | .scanFailed _ fault | .readFailed _ fault | .skipped _ fault | .sourceUnread _ fault =>
    some (.read fault)
  | _ => none

/-- What a notice says, without the fault behind it. -/
def text : Notice → String
  | .invalidPattern source => "Ignoring invalid pattern " ++ Text.quoted source
  | .repairReplaced source =>
    "Rewrite for " ++ Text.quoted source ++ " replaced by a later registration"
  | .ruleExcluded source constraint target =>
    "Skipping " ++ Text.quoted source ++ ": constraint " ++ constraint.shown ++ " excludes "
      ++ target.getD "None"
  | .globFailed source glob =>
    "Skipping rule " ++ Text.quoted source ++ ": cannot expand " ++ Text.quoted glob
  | .scanFailed file _ => "Error scanning file " ++ file
  | .protectedFile file => "Skipping protected file " ++ file
  | .fileGone file => "Skipping " ++ file ++ ": no longer exists"
  | .readFailed file _ => "Error reading file " ++ file
  | .leftForReview source file =>
    "Safe mode: leaving " ++ Text.quoted source ++ " in " ++ file ++ " for manual review"
  | .fixed _ file message => "Fixed issue in " ++ file ++ ": " ++ message
  | .noTarget => "No target version, skipping Gemfile, config and migration updates"
  | .skipped file _ => "Skipping " ++ file
  | .noGemfile root => "No Gemfile under " ++ root
  | .gemfileUpdated target => "Updated Gemfile for Rails " ++ target
  | .configUpdated file => "Updated " ++ file
  | .migrationUpdated file => "Updated migration " ++ file
  | .migrationsUpdated count line =>
    "Updated " ++ toString count ++ " migration(s) to Rails " ++ line
  | .sourceUnread file _ => "Cannot relocate " ++ file
  | .alreadyMoved file => file ++ " already relocated"
  | .classMissing constant name file =>
    "Cannot relocate " ++ constant ++ ": class " ++ name ++ " not found in " ++ file
  | .targetKept file => file ++ " already exists, keeping it"
  | .moved oldConstant newConstant => "Moved " ++ oldConstant ++ " to " ++ newConstant
  | .apiRenamed count => "Renamed API module to Api in " ++ toString count ++ " file(s)"

end Notice

end RailsUpgrade
