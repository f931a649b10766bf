import RailsUpgrade.Catalogue.Repairs
import RailsUpgrade.Path.Protected
import RailsUpgrade.Report.Outcome
import RailsUpgrade.Rule.Registry
import RailsUpgrade.Settings.Options
import RailsUpgrade.Workspace

/-!
# `RailsUpgrade.Project.Repair`: fixing what was found

Findings are taken file by file. Of the findings of a file with one source the first counts. Its
repair is the one that was registered for the source, else that of the catalogue; a source that has
neither stays as it is. Repairs run one after the other on the text of the file, and the file is
written once, at the end, if its text has changed.

In safe mode repairs that were registered as not safe are left out, and those of the catalogue whose
source is marked for review.
-/

set_option autoImplicit false

namespace RailsUpgrade.Project

/-- Whether safe mode leaves out the repair for a source. -/
def isGated (registry : Registry) (source : String) : Bool :=
  match registry.repair? source with
  | some r => !r.safe
  | none => Catalogue.needsReview source

/-- Runs the repair for a source. None if there is no repair. -/
def repairText (registry : Registry) (source : String) (text : List Char) :
    Except Pattern.TemplateError (Option (List Char)) :=
  match registry.repair? source with
  | some r => (r.apply text).map some
  | none => .ok ((Catalogue.repairFor? source).map (·.apply text))

/-- The first finding for every source. -/
def firstBySource (findings : List Finding) : List Finding :=
  findings.foldl (fun kept f => if kept.any (·.source == f.source) then kept else kept ++ [f]) []

/-- Runs the repairs for findings on a text. The result is the new text and the sources whose repair
changed it. -/
def repairFindings (registry : Registry) (options : Options) (file : String) :
    List Finding → List Char → Run (List Char × List String)
  | [], text => return (text, [])
  | f :: rest, text => do
    if options.safeMode && isGated registry f.source then
      Run.note (.leftForReview f.source file)
      repairFindings registry options file rest text
    else match repairText registry f.source text with
      | .error e => throw (.template e)
      | .ok none => repairFindings registry options file rest text
      | .ok (some new) =>
        if new == text then repairFindings registry options file rest text
        else
          Run.note (.fixed options.verbose file f.message)
          let (final, fixed) ← repairFindings registry options file rest new
          return (final, f.source :: fixed)

/-- Fixes the findings of one file. The result are the sources that were fixed, none if the file was
not written. -/
def repairFile (root : Root) (registry : Registry) (options : Options) (file : String)
    (findings : List Finding) : Run (List String) := do
  if Path.isProtected file then
    Run.note (.protectedFile file)
    return []
  if !(← Run.tree).isFileAt root file then
    Run.note (.fileGone file)
    return []
  match (← Run.tree).read root file with
  | .error fault =>
    Run.note (.readFailed file fault)
    return []
  | .ok text =>
    let (new, fixed) ← repairFindings registry options file (firstBySource findings) text
    if new == text then return []
    Run.write root file new
    return fixed

/-- Fixes findings, in the order of the first finding of each file. The result are the files that
were written, with the sources that were fixed. -/
def repairFiles (root : Root) (registry : Registry) (options : Options)
    (findings : List Finding) : List String → Run (List (String × List String))
  | [] => return []
  | file :: rest => do
    let fixed ← repairFile root registry options file (findings.filter (·.file == file))
    let more ← repairFiles root registry options findings rest
    return if fixed.isEmpty then more else (file, fixed) :: more

/-- Whether a finding was fixed. -/
def isResolved (fixes : List (String × List String)) (f : Finding) : Bool :=
  fixes.any fun (file, sources) => file == f.file && sources.contains f.source

end RailsUpgrade.Project
