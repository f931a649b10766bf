import RailsUpgrade.Project.Detect
import RailsUpgrade.Project.Relocate
import RailsUpgrade.Project.Repair
import RailsUpgrade.Project.Scan
import RailsUpgrade.Project.Update

/-!
# `RailsUpgrade.Project.Upgrade`: analysis and upgrade of an application

* `analyze` finds what the rules look for and changes nothing.
* `upgrade` fixes what it finds and then runs the updates of whole files that options ask for.
-/

set_option autoImplicit false

namespace RailsUpgrade.Project

/-- Updates of whole files, in order. Those of the Gemfile, of configuration files and of migrations
need a target. The result are the changed files, each once. -/
def updateFiles (root : Root) (o : Options) : Run (List String) := do
  let released ← match o.target with
    | none => do
      if o.updateGems || o.updateConfigs || o.updateMigrations then Run.note .noTarget
      pure []
    | some target => do
      let gems ← if o.updateGems then updateGemfile root target else pure []
      let configs ← if o.updateConfigs then updateConfigs root target else pure []
      let migrations ← if o.updateMigrations then updateMigrations root target else pure []
      pure (gems ++ configs ++ migrations)
  let named ← updateNamespaces root o
  return distinct (released ++ named)

/-- Fixes findings and runs the updates of whole files. A dry run leaves everything as it is. -/
def repair (root : Root) (registry : Registry) (o : Options) (findings : List Finding) :
    Run Outcome := do
  if o.dryRun then return .ofAnalysis findings
  let fixes ← repairFiles root registry o findings (distinct (findings.map Finding.file))
  let updated ← updateFiles root o
  return ⟨findings, addNew (fixes.map (·.1)) updated,
    findings.filter fun f => !isResolved fixes f⟩

/-- Finds what the rules look for. Without a target, or with an empty one, it is detected. -/
def analyze (root : Root) (registry : Registry) (target : Option String) : Run (List Finding) := do
  let target := (target.filter (!·.isEmpty)).getD (detectTarget (← Run.tree) root)
  scan root registry (some target)

/-- Finds what the rules look for and fixes it. Without a target it is detected. -/
def upgrade (root : Root) (registry : Registry) (o : Options) : Run Outcome := do
  let o := { o with target := some (o.target.getD (detectTarget (← Run.tree) root)) }
  let findings ← scan root registry o.target
  repair root registry o findings

end RailsUpgrade.Project
