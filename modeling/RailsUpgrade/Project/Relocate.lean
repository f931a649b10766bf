import RailsUpgrade.Path.Protected
import RailsUpgrade.Relocation.Basic
import RailsUpgrade.Settings.Options
import RailsUpgrade.Workspace

/-!
# `RailsUpgrade.Project.Relocate`: moving jobs into new namespaces

A plan lists the classes that move. `relocate` moves one of them: it writes the class into its new
file, points the references of other files at it, and leaves a stub behind. The stub marks the move
as done, so it is written last.

`renameApi` gives the module `API` the name that files under `api/` ask for.
-/

set_option autoImplicit false

namespace RailsUpgrade.Project

/-- The name of a Ruby file without its ending. -/
def stem (path : String) : String :=
  let name := (Path.namesOf path).getLast?.getD ""
  String.ofList (name.toList.take (name.length - ".rb".length))

/-- The jobs about stock. -/
def stockJobs : String := "app/jobs/inventory/*_stock_job.rb"

/-- What becomes of a job about stock. -/
def stockRelocation (path : String) : Relocation :=
  let job := String.ofList ((stem path).toList.take ((stem path).length - "_stock_job".length))
  { source := path
    target := "app/jobs/sidekiq/stock/" ++ job ++ ".rb"
    oldConstant := "Inventory::" ++ camelize job ++ "StockJob"
    newConstant := "Sidekiq::Stock::" ++ camelize job
    bare := false }

/-- The plan for jobs about stock. -/
def stockPlan (t : Tree) (root : Root) : List Relocation :=
  ((Glob.files? t root stockJobs).getD []).map stockRelocation

/-- The kinds of jobs about orders. -/
def orderKinds : List String := ["process", "notifications"]

/-- What becomes of a job about orders. -/
def orderRelocation (kind path : String) : Relocation :=
  { source := path
    target := "app/jobs/sidekiq/orders/" ++ kind ++ "/" ++ stem path ++ ".rb"
    oldConstant := "SidekiqJobs::Orders::" ++ camelize kind ++ "::" ++ camelize (stem path)
    newConstant := "Sidekiq::Orders::" ++ camelize kind ++ "::" ++ camelize (stem path)
    bare := false }

/-- The plan for jobs about orders. -/
def orderPlan (t : Tree) (root : Root) : List Relocation :=
  orderKinds.flatMap fun kind =>
    ((Glob.files? t root ("app/jobs/sidekiq_jobs/orders/" ++ kind ++ "/*.rb")).getD []).map
      (orderRelocation kind)

/-- What becomes of the job about the status of points of sale. -/
def posRelocation : Relocation :=
  { source := "app/jobs/check_job.rb"
    target := "app/jobs/sidekiq/pos_status/check.rb"
    oldConstant := "CheckJob"
    newConstant := "Sidekiq::PosStatus::Check"
    bare := true }

/-- The plan for the job about the status of points of sale. -/
def posPlan (t : Tree) (root : Root) : List Relocation :=
  if t.isFileAt root posRelocation.source then [posRelocation] else []

/-- All Ruby files. -/
def rubyFiles : String := "**/*.rb"

/-- Points the references to a class at its new name, in all files but its own and protected
ones. -/
def updateReferences (root : Root) (r : Relocation) : Run (List String) := do
  let files ← Run.filesOf root rubyFiles
  Run.editAll root (fun text => (r.redirect text).mapError .template)
    (files.filter fun path => path != r.source && path != r.target && !Path.isProtected path)

/-- Writes the class into its new file, unless there is one already. -/
def writeTarget (root : Root) (r : Relocation) (c : ClassText) : Run (List String) := do
  if (← Run.tree).existsAt root r.target then
    Run.note (.targetKept r.target)
    return []
  Run.write root r.target (r.movedClass c).toList
  return [r.target]

/-- Moves a class, and tells the files that were written. -/
def relocate (root : Root) (r : Relocation) : Run (List String) := do
  match (← Run.tree).read root r.source with
  | .error fault =>
    Run.note (.sourceUnread r.source fault)
    return []
  | .ok text =>
    if Relocation.stubHeader.toList.isPrefixOf text then
      Run.note (.alreadyMoved r.source)
      return []
    match classIn? r.oldName text with
    | none =>
      Run.note (.classMissing r.oldConstant r.oldName r.source)
      return []
    | some c =>
      let written ← writeTarget root r c
      let redirected ← updateReferences root r
      Run.write root r.source r.stub.toList
      Run.note (.moved r.oldConstant r.newConstant)
      return written ++ redirected ++ [r.source]

/-- Moves classes one after the other. -/
def relocateAll (root : Root) : List Relocation → Run (List String)
  | [] => return []
  | r :: rest => do
    let written ← relocate root r
    return written ++ (← relocateAll root rest)

/-- Where the API is. -/
def apiFiles : List String :=
  ["app/controllers/api/**/*.rb", "config/routes.rb", "spec/factories/api_*.rb",
   "spec/controllers/api/**/*.rb"]

/-- The old name of the module. -/
def apiName : Pattern := .fixed {} r"\bAPI\b"

/-- Gives the module its new name in a text. -/
def renameApiIn (text : List Char) : List Char := apiName.expr.replaceAll (fun _ => "Api".toList) text

/-- Gives the module its new name in the files of globs. A file that was changed before is passed
over. -/
def renameApiWith (root : Root) (changed : List String) : List String → Run (List String)
  | [] => return changed
  | glob :: rest => do
    let files ← Run.filesOf root glob
    let more ← Run.editAll root (fun text => .ok (renameApiIn text))
      (files.filter fun path => !changed.contains path)
    renameApiWith root (changed ++ more) rest

/-- Gives the module its new name wherever the API is. -/
def renameApi (root : Root) : Run (List String) := do
  let changed ← renameApiWith root [] apiFiles
  if !changed.isEmpty then Run.note (.apiRenamed changed.length)
  return changed

/-- Moves the classes of a plan, if that is asked for. -/
def runPlan (root : Root) (plan : Tree → Root → List Relocation) (wanted : Bool) :
    Run (List String) := do
  if wanted then relocateAll root (plan (← Run.tree) root) else return []

/-- All updates of namespaces that options ask for. -/
def updateNamespaces (root : Root) (o : Options) : Run (List String) := do
  let all := o.updateJobNamespaces
  let api ← if all || o.updateApiModule then renameApi root else pure []
  let stock ← runPlan root stockPlan (all || o.updateStockJobs)
  let order ← runPlan root orderPlan (all || o.updateOrderJobs)
  let pos ← runPlan root posPlan (all || o.updatePosStatusJobs)
  return api ++ stock ++ order ++ pos

end RailsUpgrade.Project
