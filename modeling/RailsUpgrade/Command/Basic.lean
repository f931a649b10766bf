import RailsUpgrade.Command.Arguments
import RailsUpgrade.Project.Upgrade
import RailsUpgrade.Report.Json
import RailsUpgrade.Report.Terminal
import RailsUpgrade.Rule.Shelf
import RailsUpgrade.Settings.Load

/-!
# `RailsUpgrade.Command.Basic`: what a command line does

`Command.run` analyses or upgrades the application that a command line names and writes a report. Its
result is a `Reply`: an exit code and what goes to standard output.
-/

set_option autoImplicit false

namespace RailsUpgrade.Command

open Report

/-- The answer to a command line. -/
structure Reply where
  exit : Nat
  output : String
  deriving DecidableEq, Repr

/-- The version of the program. -/
def version : String := "0.1.0"

/-- The width of the terminal. -/
def width : Nat := 100

/-- An error message. -/
def errorText (message : String) : Except MarkupFault String :=
  (messageLines width ("[red]Error:[/red] " ++ message)).map printed

/-- A report that is a text of its own. Pictures are put in, but lines stay as long as they are. -/
def documentText (text : String) : String :=
  printed ((Text.splitChar '\n' (printable (pictured text.toList))).map fun line =>
    trimEnd width (untabbed line))

/-- The report on an outcome. -/
def report (format : ReportFormat) (analysis : Bool) (o : Outcome) : Reply :=
  match format with
  | .terminal =>
    let p := o.terminalPrintout analysis width
    ⟨if p.fault.isSome then 1 else 0, printed p.lines⟩
  | .json => ⟨0, documentText (o.json analysis)⟩
  | .markdown => ⟨0, documentText (o.markdown analysis)⟩

/-- Whether the value of an environment variable asks for details. -/
def asksForDetails (value : String) : Bool :=
  ["1", "true", "yes"].contains (String.ofList (value.toList.map Char.toLower))

/-- The settings that a command line works with. -/
def settings (here root : Root) (a : Arguments) : Run Settings := do
  let t ← Run.tree
  let found := match a.config with
    | some path => Settings.ofFile t here path
    | none => Settings.find t root
  match found.bind fun s => (s.overlay a.overlay).mapError .settingsFields with
  | .ok s => return s
  | .error e => throw e

/-- Analyses or upgrades an application. The result is the report. -/
def work (here root : Root) (shelf : Shelf) (a : Arguments) : Run Reply := do
  let s ← settings here root a
  Run.noteAll shelf.registryNotices
  let outcome ← if a.analyze then do
      pure (Outcome.ofAnalysis (← Project.analyze root shelf.registry s.options.target))
    else Project.upgrade root shelf.registry s.options
  return report s.format a.analyze outcome

/-- The output about a failure. Details are only offered about failures that are not the user's, and
of faulty fields only their number is told. -/
def failureText (details : Bool) : Failure → Except MarkupFault String
  | .settingsFields errors => do
    let heading := "Invalid configuration: " ++ (Failure.settingsFields errors).message
    let _ ← errorText (heading ++ String.join (errors.map FieldError.detail))
    errorText heading
  | .noSettingsFile path => errorText (Failure.noSettingsFile path).message
  | .cannotWrite path fault => errorText (Failure.cannotWrite path fault).message
  | failure => do
    return (← errorText failure.message) ++ (if details then "\nTraceback:\n" else "")

/-- The reply to a command line that cannot be followed. A message with a faulty tag is not
written. -/
def refusal (text : Except MarkupFault String) : Reply :=
  match text with
  | .ok output => ⟨1, output⟩
  | .error _ => ⟨1, ""⟩

/-- Runs a command line in a directory. `detail` is the environment variable that asks for
details. -/
def run (directory : Place) (shelf : Shelf) (detail : String) (args : List String) :
    StateM Workspace Reply := do
  match Arguments.parse args with
  | .error _ => return ⟨2, ""⟩
  | .ok a =>
    if a.early == some .version then return ⟨0, "upshift " ++ version ++ "\n"⟩
    if a.early.isSome then return ⟨0, ""⟩
    let here : Root := ⟨directory, "."⟩
    let shown := (Path.Lexical.parse a.path).text
    let t := (← get).tree
    match t.look here a.path with
    | .dir place =>
      let root : Root := ⟨place, shown⟩
      if !Project.isApplication t root then
        return refusal (errorText (shown ++ " does not appear to be a Rails application"))
      match ← (work here root shelf a).run with
      | .ok reply => return reply
      | .error failure => return refusal (failureText (a.debug || asksForDetails detail) failure)
    | _ => return refusal (errorText (shown ++ " is not a directory"))

end RailsUpgrade.Command
