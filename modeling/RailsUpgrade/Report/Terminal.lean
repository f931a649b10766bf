import RailsUpgrade.Report.Markdown
import RailsUpgrade.Report.Markup
import RailsUpgrade.Report.Table

/-!
# `RailsUpgrade.Report.Terminal`: reports for a terminal

A report for a terminal has a panel with the summary, a table of the findings, and the list of
changed files, laid out for a given width. The paths of changed files are messages, so a path with a
faulty tag ends the report; a `Printout` tells how far it went.
-/

set_option autoImplicit false

namespace RailsUpgrade.Report

/-- Lines as a text. -/
def printed (lines : List (List Char)) : String := String.ofList (lines.flatMap (· ++ ['\n']))

/-- A message on lines of its own, its tags taken out. -/
def messageLines (width : Nat) (message : String) : Except MarkupFault (List (List Char)) :=
  (plain message.toList).map fun s => wrap .fold width (printable s)

/-- What has been written, and the fault that ended it. -/
structure Printout where
  lines : List (List Char)
  fault : Option MarkupFault := none
  deriving DecidableEq, Repr

/-- Writes messages up to the first faulty one. -/
def printMessages (width : Nat) : List String → Printout
  | [] => ⟨[], none⟩
  | message :: rest => match messageLines width message with
    | .error fault => ⟨[], some fault⟩
    | .ok lines =>
      let more := printMessages width rest
      ⟨lines ++ more.lines, more.fault⟩

/-- Lines in front of what has been written. -/
def Printout.after (lines : List (List Char)) (p : Printout) : Printout := ⟨lines ++ p.lines, p.fault⟩

end RailsUpgrade.Report

namespace RailsUpgrade.Outcome

open Report

/-- The columns of the table of findings: files, messages, and for an upgrade what became of
them. -/
def findingColumns (o : Outcome) (analysis : Bool) : List Column :=
  [{ header := "File".toList, fixed := some 40
     entries := o.findings.map fun f => printable f.file.toList },
   { header := "Issue".toList, least := 40
     entries := o.findings.map fun f => printable f.message.toList }]
    ++ if analysis then []
      else [{ header := "Status".toList, fixed := some 8
              entries := o.findings.map fun f => (if o.isFixed f then "fixed" else "open").toList }]

/-- The messages about changed files. -/
def changedMessages (o : Outcome) : List String :=
  if o.changed.isEmpty then ["\n[dim]No files were changed.[/dim]"]
  else "\n[bold]Updated files:[/bold]" :: o.changed.map fun path => "  [green]" ++ path ++ "[/green]"

/-- The panel and the table of the report. Nothing fits into no width. -/
def terminalBody (o : Outcome) (analysis : Bool) (width : Nat) : List (List Char) :=
  if width == 0 then []
  else
    [[]] ++ panelLines width (" upshift " ++ title analysis ++ " ").toList (o.summary analysis).toList
      ++ (if o.findings.isEmpty then wrap .fold width "\nNo issues found.".toList
          else [] :: tableLines width (o.findingColumns analysis))

/-- The report for a terminal of a width, which may be ended by a fault in a path. -/
def terminalPrintout (o : Outcome) (analysis : Bool) (width : Nat) : Printout :=
  (printMessages width (if analysis then [] else o.changedMessages)).after
    (o.terminalBody analysis width)

/-- The report for a terminal of a width, unless a path has a faulty tag. -/
def terminal (o : Outcome) (analysis : Bool) (width : Nat) : Except MarkupFault String :=
  let p := o.terminalPrintout analysis width
  match p.fault with
  | some fault => .error fault
  | none => .ok (printed p.lines)

end RailsUpgrade.Outcome
