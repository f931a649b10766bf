import RailsUpgrade.FrameworkConfig
import RailsUpgrade.Gemfile
import RailsUpgrade.Migration
import RailsUpgrade.Workspace

/-!
# `RailsUpgrade.Project.Update`: the Gemfile, configuration files and migrations

Each update takes a target and tells which files it changed.
-/

set_option autoImplicit false

namespace RailsUpgrade.Project

/-- Updates the Gemfile. -/
def updateGemfile (root : Root) (target : String) : Run (List String) := do
  if !(← Run.tree).isFileAt root "Gemfile" then
    Run.note (.noGemfile root.shown)
    return []
  if ← Run.edit root (fun text => (Gemfile.update target text).mapError .overlong) "Gemfile" then
    Run.note (.gemfileUpdated target)
    return ["Gemfile"]
  return []

/-- Runs an edit of a configuration file, if there is the file and the target has reached the
edit. -/
def updateConfig (root : Root) (target : String) (e : FrameworkConfig.Edit) : Run Bool := do
  if !(← Run.tree).isFileAt root e.path then return false
  match Version.parse target with
  | .error .notDotted => return false
  | .error (.overlong number) => throw (.overlong number)
  | .ok version =>
    if !Version.atLeast (some target) e.since then return false
    if ← Run.edit root (fun text => .ok (e.apply version text)) e.path then
      Run.note (.configUpdated e.path)
      return true
    return false

/-- Runs edits of configuration files. -/
def updateConfigsWith (root : Root) (target : String) :
    List FrameworkConfig.Edit → Run (List String)
  | [] => return []
  | e :: rest => do
    let changed ← updateConfig root target e
    let more ← updateConfigsWith root target rest
    return if changed then e.path :: more else more

/-- Updates the configuration files. -/
def updateConfigs (root : Root) (target : String) : Run (List String) :=
  updateConfigsWith root target FrameworkConfig.edits

/-- The migrations of an application. -/
def migrations : String := "db/migrate/*.rb"

/-- Updates migrations. -/
def updateMigrationsWith (root : Root) (version : Version) : List String → Run (List String)
  | [] => return []
  | path :: rest => do
    if ← Run.edit root (fun text => (Migration.update version text).mapError .overlong) path then
      Run.note (.migrationUpdated path)
      return path :: (← updateMigrationsWith root version rest)
    else updateMigrationsWith root version rest

/-- Updates all migrations, for targets that have release lines in them. -/
def updateMigrations (root : Root) (target : String) : Run (List String) := do
  match Version.parse target with
  | .error .notDotted => return []
  | .error (.overlong number) => throw (.overlong number)
  | .ok version =>
    if !Version.atLeast (some target) "5.0.0" then return []
    let changed ← updateMigrationsWith root version (← Run.filesOf root migrations)
    if !changed.isEmpty then Run.note (.migrationsUpdated changed.length version.line)
    return changed

end RailsUpgrade.Project
