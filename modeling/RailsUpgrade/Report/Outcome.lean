import RailsUpgrade.Ordered
import RailsUpgrade.Rule.Basic

/-!
# `RailsUpgrade.Report.Outcome`: the outcome of a run

An `Outcome` lists what was found, which files were changed, and which findings are left for a
person. `Outcome.summary` says it in one line.
-/

set_option autoImplicit false

namespace RailsUpgrade

/-- What a run found and did. -/
structure Outcome (T : Type := String) where
  findings : List (Finding T) := []
  changed : List T := []
  unresolved : List (Finding T) := []
  deriving DecidableEq, Repr

namespace Outcome

variable {T : Type} [DecidableEq T]

/-- The outcome of an analysis, which fixes nothing. -/
def ofAnalysis (findings : List Finding) : Outcome := ⟨findings, [], findings⟩

/-- Whether a finding was fixed. -/
def isFixed (o : Outcome T) (f : Finding T) : Bool := !o.unresolved.contains f

/-- A number and a noun, which takes an `s` unless the number is one. -/
def counted (n : Nat) (noun : String) : String :=
  toString n ++ " " ++ noun ++ (if n == 1 then "" else "s")

/-- The files with findings, each once, in the order of their first finding. -/
def files (o : Outcome T) : List T := distinct (o.findings.map Finding.file)

/-- The outcome in one line. An analysis has nothing to say about changes. -/
def summary (o : Outcome T) (analysis : Bool) : String :=
  if o.findings.isEmpty then "No issues found."
  else
    let found := "Found " ++ counted o.findings.length "issue" ++ " in "
      ++ counted o.files.length "file" ++ "."
    if analysis then found
    else found ++ " Updated " ++ counted o.changed.length "file" ++ ", "
      ++ toString o.unresolved.length ++ " issue(s) need manual review."

end Outcome

end RailsUpgrade
