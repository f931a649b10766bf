import RailsUpgrade.Proofs.SafeMode

/-!
# `RailsUpgrade.Proofs.Withheld`: repairs that safe mode withholds have no influence

Safe mode asks of a repair that was registered only whether it is safe. `Registry.SameInSafeMode`
relates two registries that answer this alike for every source and agree on the repairs that are
safe. A repair that is not safe may be any other one: its pattern, its flags and its template count
for nothing, even a template that would end the run.

* `isGated_congr`: what is withheld does not depend on the repairs that are withheld;
* `repairText_congr`: a repair that is not withheld is the same;
* `repairFindings_congr`, `repairFiles_congr`: so is what the repairs do to a text and to all files;
* `upgrade_congr`: in safe mode the two registries have the same run.
-/

set_option autoImplicit false

namespace RailsUpgrade

/-- Two repairs are flagged alike, and they are the same one if they are safe. -/
structure Repair.SameIfSafe (r s : Repair) : Prop where
  flag : r.safe = s.safe
  same : r.safe = true → r = s

/-- Two registries look for the same, have repairs for the same sources, flagged alike, and agree on
those that are safe. -/
structure Registry.SameInSafeMode (r s : Registry) : Prop where
  detections : r.detections = s.detections
  repairs : ∀ source, Option.Rel Repair.SameIfSafe (r.repair? source) (s.repair? source)

namespace Project

variable {r s : Registry} (h : r.SameInSafeMode s)
include h

/-- What is withheld does not depend on the repairs that are withheld. -/
theorem isGated_congr (source : String) : isGated r source = isGated s source := by
  have hrel := h.repairs source
  unfold isGated
  generalize r.repair? source = x at hrel ⊢
  generalize s.repair? source = y at hrel ⊢
  cases hrel with
  | none => rfl
  | some halike =>
    show (!_) = !_
    rw [halike.flag]

/-- A repair that is not withheld is the same. A source with a repair that is withheld does not fall
back on the catalogue: it has a repair in both registries. -/
theorem repairText_congr {source : String} (hopen : isGated r source = false) (text : List Char) :
    repairText r source text = repairText s source text := by
  have hrel := h.repairs source
  unfold isGated at hopen
  unfold repairText
  generalize r.repair? source = x at hrel hopen ⊢
  generalize s.repair? source = y at hrel ⊢
  cases hrel with
  | none => rfl
  | some halike => rw [halike.same (by simpa using hopen)]

variable {o : Options} (hsafe : o.safeMode = true)
include hsafe

/-- The repairs for findings do the same to every text. -/
theorem repairFindings_congr (file : String) (findings : List Finding) (text : List Char) :
    repairFindings r o file findings text = repairFindings s o file findings text := by
  induction findings generalizing text with
  | nil => rfl
  | cons f rest ih =>
    rw [repairFindings, repairFindings, hsafe, Bool.true_and, Bool.true_and, ← isGated_congr h]
    by_cases hgated : isGated r f.source = true
    · rw [if_pos hgated, if_pos hgated, ih text]
    · rw [if_neg hgated, if_neg hgated, repairText_congr h (by simpa using hgated) text]
      simp only [ih]

theorem repairFile_congr (root : Root) (file : String) (findings : List Finding) :
    repairFile root r o file findings = repairFile root s o file findings := by
  unfold repairFile
  simp only [repairFindings_congr h hsafe]

/-- So do the turns of all files. -/
theorem repairFiles_congr (root : Root) (findings : List Finding) (files : List String) :
    repairFiles root r o findings files = repairFiles root s o findings files := by
  induction files with
  | nil => rfl
  | cons file rest ih => rw [repairFiles, repairFiles, repairFile_congr h hsafe, ih]

/-- In safe mode two registries that differ only in repairs that are not safe have the same run: they
end with the same outcome or failure, and leave the same tree, the same notices and the same writes. -/
theorem upgrade_congr (root : Root) (w : Workspace) :
    Run.exec (upgrade root r o) w = Run.exec (upgrade root s o) w := by
  have hscan : ∀ target, scan root r target = scan root s target := by
    intro target
    unfold scan
    rw [h.detections]
  have hrepair : ∀ target findings,
      repair root r { o with target } findings = repair root s { o with target } findings := by
    intro target findings
    unfold repair
    rw [repairFiles_congr (o := { o with target }) h hsafe]
  rw [upgrade, upgrade]
  simp only [hscan, hrepair]

omit h hsafe

/-- A repair that is safe, and one that is not, for a source that the catalogue has a repair for. -/
def mixedRules (withheld : Repair) : Registry where
  detections := [⟨.fixed .byLine "old" isOk_old, "", "**/*.rb", none⟩,
    ⟨Catalogue.successPredicate, "", "**/*.rb", none⟩]
  repairs := [("old", ⟨.fixed .byLine "old" isOk_old, .template "new", true⟩),
    (Catalogue.successPredicate.source, { withheld with safe := false })]

/-- One file, which both rules find something in. -/
def mixedSpace : Workspace where
  tree := { files := [(["a.rb"], Text.encode "old.success?".toList)] }

/-- A template that puts in a text, and one that names a group that is not there. -/
def soundTemplate : Repair := ⟨Catalogue.successPredicate, .template "", false⟩

def faultyTemplate : Repair :=
  ⟨.fixed { lines := true, ignoreCase := true } r"\.success\?", .template "\\7", false⟩

theorem sameInSafeMode_mixedRules :
    (mixedRules soundTemplate).SameInSafeMode (mixedRules faultyTemplate) where
  detections := rfl
  repairs source := by
    unfold mixedRules Registry.repair?
    rw [List.lookup_cons, List.lookup_cons, List.lookup_cons, List.lookup_cons]
    split
    · exact .some ⟨rfl, fun _ => rfl⟩
    · split
      · exact .some ⟨rfl, fun hsafe => by cases hsafe⟩
      · exact .none

/-- The faulty template ends no run in safe mode, and the repair of the catalogue does not stand in for
it: only the safe repair changes the file. -/
theorem upgrade_congr_mixedRules :
    Run.exec (upgrade ⟨[], "."⟩ (mixedRules soundTemplate) {}) mixedSpace =
        Run.exec (upgrade ⟨[], "."⟩ (mixedRules faultyTemplate) {}) mixedSpace ∧
      (Run.exec (upgrade ⟨[], "."⟩ (mixedRules faultyTemplate) {}) mixedSpace).2.tree.file?
          ["a.rb"] = some (Text.encode "new.success?".toList) :=
  ⟨upgrade_congr sameInSafeMode_mixedRules rfl _ _, by decide +kernel⟩

end Project

end RailsUpgrade
