import RailsUpgrade.Catalogue.Detections
import RailsUpgrade.Notice
import RailsUpgrade.Rule.Basic

/-!
# `RailsUpgrade.Rule.Registry`: the rules of a run

A `Registry` holds the detections of a run in the order in which they were added, and its repairs
under the spelling of their patterns: of two repairs with one spelling the later one counts.

A `Registration` asks for a rule. If the spelling of its pattern is no pattern, nothing is added.
Some spellings are refused with an error instead: `Registration.refusal?` tells which.
-/

set_option autoImplicit false

namespace RailsUpgrade

/-- A rule that can be added to a registry. -/
inductive Rule where
  | detection (d : Detection)
  | repair (r : Repair)

/-- A request to add a rule. -/
inductive Registration where
  | detection (flags : Pattern.Flags) (source message glob : String)
      (constraint : Option Constraint)
  | repair (flags : Pattern.Flags) (source : String) (replacement : Replacement) (safe : Bool)

namespace Registration

/-- The spelling of the pattern. -/
def source : Registration → String
  | .detection _ source _ _ _ => source
  | .repair _ source _ _ => source

/-- The flags of the pattern. The ends of lines count in every rule. -/
def flags : Registration → Pattern.Flags
  | .detection flags _ _ _ _ | .repair flags _ _ _ => { flags with lines := true }

/-- Reads the pattern of the rule. -/
def compiled (q : Registration) : Except Pattern.SpellingError Pattern :=
  Pattern.compile q.flags q.source

/-- The error that a request ends with, if it is not just left out. -/
def refusal? (q : Registration) : Option Pattern.SpellingError :=
  match q.compiled with
  | .error error => if error.fatal?.isSome then some error else none
  | .ok _ => none

/-- The rule that is asked for, if its pattern can be read. -/
def rule? (q : Registration) : Option Rule :=
  q.compiled.toOption.map fun pattern => match q with
    | .detection _ _ message glob constraint => .detection ⟨pattern, message, glob, constraint⟩
    | .repair _ _ replacement safe => .repair ⟨pattern, replacement, safe⟩

/-- The notice about a pattern that cannot be read. -/
def notices (q : Registration) : List Notice :=
  if q.rule?.isNone then [.invalidPattern q.source] else []

end Registration

/-- A named bundle of rules. -/
structure Extension where
  name : String
  description : String := ""
  detections : List Detection := []
  repairs : List (String × Repair) := []

namespace Extension

/-- Adds a rule. -/
def add (e : Extension) : Rule → Extension
  | .detection d => { e with detections := e.detections ++ [d] }
  | .repair r => { e with repairs := Keyed.put r.source r e.repairs }

/-- Adds the rule that is asked for, if there is one. -/
def register (e : Extension) (q : Registration) : Extension :=
  match q.rule? with
  | none => e
  | some rule => e.add rule

/-- How an extension is shown. -/
def shown (e : Extension) : String :=
  "Extension(" ++ Text.quoted e.name ++ ", detections=" ++ toString e.detections.length
    ++ ", rewrites=" ++ toString e.repairs.length ++ ")"

end Extension

/-- The rules of a run. -/
structure Registry where
  detections : List Detection := []
  repairs : List (String × Repair) := []
  /-- The names of the extensions whose rules were added. -/
  applied : List String := []

namespace Registry

/-- The rules of the library. Its repairs are looked up in the catalogue. -/
def stock : Registry := { detections := Catalogue.detections }

/-- The repair that was added for a spelling. -/
def repair? (r : Registry) (source : String) : Option Repair := r.repairs.lookup source

/-- Adds a rule. -/
def add (r : Registry) : Rule → Registry
  | .detection d => { r with detections := r.detections ++ [d] }
  | .repair x => { r with repairs := Keyed.put x.source x r.repairs }

/-- The notice about a repair that takes the place of another one. -/
def addNotices (r : Registry) : Rule → List Notice
  | .detection _ => []
  | .repair x => if (r.repair? x.source).isSome then [.repairReplaced x.source] else []

/-- Adds the rule that is asked for, if there is one. -/
def register (r : Registry) (q : Registration) : Registry :=
  match q.rule? with
  | none => r
  | some rule => r.add rule

/-- The notices about a request. -/
def registerNotices (r : Registry) (q : Registration) : List Notice :=
  q.notices ++ match q.rule? with
    | none => []
    | some rule => r.addNotices rule

/-- Adds all rules of an extension, unless one of its name was applied before. -/
def apply (r : Registry) (e : Extension) : Registry :=
  if r.applied.contains e.name then r
  else e.repairs.foldl (fun r x => r.add (.repair x.2))
    { r with detections := r.detections ++ e.detections, applied := r.applied ++ [e.name] }

/-- The notices about an extension. Its repairs have different spellings, so none of them takes the
place of another. -/
def applyNotices (r : Registry) (e : Extension) : List Notice :=
  if r.applied.contains e.name then []
  else e.repairs.flatMap fun x => r.addNotices (.repair x.2)

/-- Applies extensions one after the other. -/
def applyAll (r : Registry) (es : List Extension) : Registry := es.foldl apply r

/-- The notices about extensions. -/
def applyAllNotices (r : Registry) : List Extension → List Notice
  | [] => []
  | e :: es => r.applyNotices e ++ applyAllNotices (r.apply e) es

/-- The names of the applied extensions, in order of code points. -/
def appliedNames (r : Registry) : List String := sortedTexts r.applied

end Registry

end RailsUpgrade
