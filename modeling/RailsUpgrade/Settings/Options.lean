/-!
# `RailsUpgrade.Settings.Options`: what a run is asked to do

`Options` steer a run. `Settings` are the options together with the format of the report.
-/

set_option autoImplicit false

namespace RailsUpgrade

/-- What a run is asked to do. -/
structure Options where
  /-- The release to upgrade to. Without one it is read off the Gemfile. -/
  target : Option String := none
  /-- Change nothing. -/
  dryRun : Bool := false
  /-- Leave out repairs that are not safe. -/
  safeMode : Bool := true
  /-- Report every fix. -/
  verbose : Bool := false
  updateGems : Bool := false
  updateConfigs : Bool := false
  updateMigrations : Bool := false
  /-- All updates of namespaces. -/
  updateJobNamespaces : Bool := false
  updateApiModule : Bool := false
  updateStockJobs : Bool := false
  updateOrderJobs : Bool := false
  updatePosStatusJobs : Bool := false
  deriving DecidableEq, Repr

/-- The format of a report. -/
inductive ReportFormat where
  | terminal
  | json
  | markdown
  deriving DecidableEq, Repr

/-- The name of a format. -/
def ReportFormat.name : ReportFormat → String
  | .terminal => "terminal"
  | .json => "json"
  | .markdown => "markdown"

/-- The format with a name. -/
def ReportFormat.ofName? (name : String) : Option ReportFormat :=
  match name with
  | "terminal" => some .terminal
  | "json" => some .json
  | "markdown" => some .markdown
  | _ => none

/-- Options and the format of the report. -/
structure Settings where
  options : Options := {}
  format : ReportFormat := .terminal
  deriving DecidableEq, Repr

/-- The options that are switched on or off. -/
inductive Switch where
  | dryRun
  | safeMode
  | verbose
  | updateGems
  | updateConfigs
  | updateMigrations
  | updateJobNamespaces
  | updateApiModule
  | updateStockJobs
  | updateOrderJobs
  | updatePosStatusJobs
  deriving DecidableEq, Repr

namespace Switch

/-- All switches, in the order in which settings list them. -/
def all : List Switch :=
  [.dryRun, .safeMode, .verbose, .updateGems, .updateConfigs, .updateMigrations,
   .updateJobNamespaces, .updateApiModule, .updateStockJobs, .updateOrderJobs,
   .updatePosStatusJobs]

/-- The name of a switch in a settings file. -/
def name : Switch → String
  | .dryRun => "dry_run"
  | .safeMode => "safe_mode"
  | .verbose => "verbose"
  | .updateGems => "update_gems"
  | .updateConfigs => "update_configs"
  | .updateMigrations => "update_migrations"
  | .updateJobNamespaces => "update_job_namespaces"
  | .updateApiModule => "update_api_module"
  | .updateStockJobs => "update_stock_jobs"
  | .updateOrderJobs => "update_order_jobs"
  | .updatePosStatusJobs => "update_pos_status_jobs"

/-- Whether a switch is on. -/
def get : Switch → Options → Bool
  | .dryRun, o => o.dryRun
  | .safeMode, o => o.safeMode
  | .verbose, o => o.verbose
  | .updateGems, o => o.updateGems
  | .updateConfigs, o => o.updateConfigs
  | .updateMigrations, o => o.updateMigrations
  | .updateJobNamespaces, o => o.updateJobNamespaces
  | .updateApiModule, o => o.updateApiModule
  | .updateStockJobs, o => o.updateStockJobs
  | .updateOrderJobs, o => o.updateOrderJobs
  | .updatePosStatusJobs, o => o.updatePosStatusJobs

/-- Turns a switch on or off. -/
def set : Switch → Bool → Options → Options
  | .dryRun, b, o => { o with dryRun := b }
  | .safeMode, b, o => { o with safeMode := b }
  | .verbose, b, o => { o with verbose := b }
  | .updateGems, b, o => { o with updateGems := b }
  | .updateConfigs, b, o => { o with updateConfigs := b }
  | .updateMigrations, b, o => { o with updateMigrations := b }
  | .updateJobNamespaces, b, o => { o with updateJobNamespaces := b }
  | .updateApiModule, b, o => { o with updateApiModule := b }
  | .updateStockJobs, b, o => { o with updateStockJobs := b }
  | .updateOrderJobs, b, o => { o with updateOrderJobs := b }
  | .updatePosStatusJobs, b, o => { o with updatePosStatusJobs := b }

end Switch

end RailsUpgrade
