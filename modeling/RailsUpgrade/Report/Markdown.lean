import RailsUpgrade.Report.Outcome

/-!
# `RailsUpgrade.Report.Markdown`: reports for documents
-/

set_option autoImplicit false

namespace RailsUpgrade.Outcome

/-- What a report is called. -/
def title (analysis : Bool) : String := if analysis then "Analysis" else "Upgrade"

/-- The status of a finding, which an analysis leaves out. -/
def statusMark (o : Outcome) (analysis : Bool) (f : Finding) : String :=
  if analysis then "" else if o.isFixed f then " (fixed)" else " (open)"

/-- The line about a finding. -/
def findingLine (o : Outcome) (analysis : Bool) (f : Finding) : String :=
  "- `" ++ f.file ++ "`: " ++ f.message ++ o.statusMark analysis f

/-- The lines of the report. -/
def markdownLines (o : Outcome) (analysis : Bool) : List String :=
  ["# upshift " ++ title analysis, "", "## Summary", "", o.summary analysis, "", "## Issues", ""]
    ++ (if o.findings.isEmpty then ["No issues found."]
        else o.findings.map (o.findingLine analysis))
    ++ [""]
    ++ (if analysis || o.changed.isEmpty then []
        else ["## Updated files", ""] ++ o.changed.map (fun path => "- `" ++ path ++ "`") ++ [""])

/-- The report for documents. -/
def markdown (o : Outcome) (analysis : Bool) : String :=
  String.intercalate "\n" (o.markdownLines analysis)

end RailsUpgrade.Outcome
