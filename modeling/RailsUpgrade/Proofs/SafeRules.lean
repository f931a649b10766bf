import RailsUpgrade.Proofs.Built

/-!
# `RailsUpgrade.Proofs.SafeRules`: safe mode matters only for repairs that are not safe

Safe mode leaves out two kinds of repairs: those that were registered as not safe, and those of the
catalogue for a source that a person has to decide on. There are none of the second kind: the
catalogue has no repair for such a source. So if all registered repairs are safe, safe mode has
nothing to leave out, and it only gives notice of what a person has to decide on.

* `repairFor?_of_needsReview`: the catalogue has no repair that safe mode leaves out;
* `repairText_of_isGated`: with safe repairs only, what is left out has no repair at all;
* `alike_repairFindings`, `alike_repairFiles`: so the repairs do the same in both modes;
* `upgrade_safeMode_alike`: and so does a whole run, but for its notices.
-/

set_option autoImplicit false

namespace RailsUpgrade

/-- All repairs that were registered are safe. -/
def Registry.AllSafe (registry : Registry) : Prop :=
  ∀ source r, registry.repair? source = some r → r.safe = true

/-- The catalogue has no repair for a source that a person has to decide on. -/
theorem Catalogue.repairFor?_of_needsReview {source : String}
    (h : Catalogue.needsReview source = true) : Catalogue.repairFor? source = none := by
  have hopen : ∀ entry ∈ Catalogue.repairs, Catalogue.needsReview entry.1 = false := by
    rw [Catalogue.repairs_eq]
    decide +kernel
  rw [Catalogue.repairFor?, List.lookup_eq_none_iff]
  intro entry hentry
  -- A source with a repair is none that a person decides on.
  rw [bne_iff_ne]
  rintro rfl
  rw [hopen entry hentry] at h
  cases h

namespace Project

open Run (Alike)

variable {registry : Registry}

/-- With safe repairs only, a source that safe mode leaves out has no repair at all. -/
theorem repairText_of_isGated (hsafe : registry.AllSafe) {source : String}
    (h : isGated registry source = true) (text : List Char) :
    repairText registry source text = .ok none := by
  unfold isGated at h
  unfold repairText
  cases hregistered : registry.repair? source with
  | some r => simp [hregistered, hsafe source r hregistered] at h
  | none =>
    rw [hregistered] at h
    simp only [Catalogue.repairFor?_of_needsReview h, Option.map_none]

variable (hsafe : registry.AllSafe) (o : Options)
include hsafe

/-- The repairs for findings do the same to every text, with safe mode and without it. -/
theorem alike_repairFindings (file : String) (findings : List Finding) (text : List Char) :
    Alike (repairFindings registry { o with safeMode := true } file findings text)
      (repairFindings registry { o with safeMode := false } file findings text) := by
  induction findings generalizing text with
  | nil => exact .of_built (.pure _)
  | cons f rest ih =>
    rw [repairFindings, repairFindings]
    simp only [Bool.true_and, Bool.false_and, Bool.false_eq_true, if_false]
    by_cases hgated : isGated registry f.source = true
    · rw [if_pos hgated, repairText_of_isGated hsafe hgated]
      exact Alike.note_bind _ (ih text)
    · rw [if_neg hgated]
      split
      · exact .of_built (.throw trivial)
      · exact ih text
      · split
        · exact ih text
        · exact (Alike.of_built (.note _)).bind fun _ => (ih _).bind fun _ => .of_built (.pure _)

theorem alike_repairFile (root : Root) (file : String) (findings : List Finding) :
    Alike (repairFile root registry { o with safeMode := true } file findings)
      (repairFile root registry { o with safeMode := false } file findings) := by
  unfold repairFile
  by_cases hprotected : Path.isProtected file = true
  · rw [if_pos hprotected, if_pos hprotected]
    exact .of_built (.bind (.note _) fun _ => .pure [])
  · rw [if_neg hprotected, if_neg hprotected]
    refine (Alike.of_built .tree).bind fun t => ?_
    by_cases hgone : (!t.isFileAt root file) = true
    · rw [if_pos hgone, if_pos hgone]
      exact .of_built (.bind (.note _) fun _ => .pure [])
    · rw [if_neg hgone, if_neg hgone]
      refine (Alike.of_built .tree).bind fun t => ?_
      cases t.read root file with
      | error fault => exact .of_built (.bind (.note _) fun _ => .pure [])
      | ok text =>
        refine (alike_repairFindings hsafe o file _ text).bind fun (new, fixed) => ?_
        by_cases hsame : (new == text) = true
        · simp only [if_pos hsame]
          exact .of_built (.pure _)
        · simp only [if_neg hsame]
          exact .of_built (.bind (.write root file new fun _ _ => trivial) fun _ => .pure fixed)

/-- So do the turns of all files. -/
theorem alike_repairFiles (root : Root) (findings : List Finding) (files : List String) :
    Alike (repairFiles root registry { o with safeMode := true } findings files)
      (repairFiles root registry { o with safeMode := false } findings files) := by
  induction files with
  | nil => exact .of_built (.pure _)
  | cons file rest ih =>
    exact (alike_repairFile hsafe o root file _).bind fun _ =>
      ih.bind fun _ => .of_built (.pure _)

theorem alike_repair (root : Root) (findings : List Finding) :
    Alike (repair root registry { o with safeMode := true } findings)
      (repair root registry { o with safeMode := false } findings) := by
  -- The updates of whole files do not look at safe mode.
  have hupdates : updateFiles root { o with safeMode := true } =
      updateFiles root { o with safeMode := false } := rfl
  unfold repair
  by_cases hdry : o.dryRun = true
  · rw [if_pos hdry, if_pos hdry]
    exact .of_built (.pure _)
  · rw [if_neg hdry, if_neg hdry, hupdates]
    refine (alike_repairFiles hsafe o root findings _).bind fun fixes => ?_
    refine (Alike.of_built ?_).bind fun updated => .of_built (.pure _)
    exact built_updateFiles root _ (fun _ _ => trivial) (fun _ => trivial) fun _ _ _ _ => trivial

/-- With safe repairs only, an upgrade has the same result with safe mode and without it: the same
outcome or the same failure. It leaves the same tree, after the same writes. -/
theorem upgrade_safeMode_alike (root : Root) (w : Workspace) :
    (Run.exec (upgrade root registry { o with safeMode := true }) w).1 =
        (Run.exec (upgrade root registry { o with safeMode := false }) w).1 ∧
      (Run.exec (upgrade root registry { o with safeMode := true }) w).2.tree =
        (Run.exec (upgrade root registry { o with safeMode := false }) w).2.tree ∧
      (Run.exec (upgrade root registry { o with safeMode := true }) w).2.writes =
        (Run.exec (upgrade root registry { o with safeMode := false }) w).2.writes := by
  have hupgrade : Alike (upgrade root registry { o with safeMode := true })
      (upgrade root registry { o with safeMode := false }) := by
    unfold upgrade
    refine (Alike.of_built .tree).bind fun t => ?_
    refine (Alike.of_built (built_scan root registry (fun _ => trivial) _)).bind fun findings => ?_
    exact alike_repair hsafe { o with target := some (o.target.getD (detectTarget t root)) } root
      findings
  obtain ⟨hresult, hspaces⟩ := hupgrade w w ⟨rfl, rfl⟩
  exact ⟨hresult, hspaces.tree, hspaces.writes⟩

omit hsafe

/-- A repair that is safe, and a detection of what a person has to decide on. -/
def decidedRules : Registry where
  detections := [⟨.fixed .byLine "old", "", "**/*.rb", none⟩,
    ⟨.fixed .byLine "update_all", "", "**/*.rb", none⟩]
  repairs := [("old", ⟨.fixed .byLine "old", .template "new", true⟩)]

/-- One file, which both rules find something in. -/
def decidedSpace : Workspace where
  tree := { files := [(["a.rb"], Text.encode "update_all old".toList)] }

theorem allSafe_decidedRules : decidedRules.AllSafe := by
  intro source r h
  rw [Registry.repair?, decidedRules, List.lookup_cons] at h
  split at h
  · cases h
    rfl
  · cases h

/-- The repair runs in both modes. Safe mode gives notice of the other finding. -/
theorem upgrade_safeMode_alike_decided :
    (Run.exec (upgrade ⟨[], "."⟩ decidedRules { safeMode := true }) decidedSpace).1 =
        (Run.exec (upgrade ⟨[], "."⟩ decidedRules { safeMode := false }) decidedSpace).1 ∧
      (Run.exec (upgrade ⟨[], "."⟩ decidedRules { safeMode := true }) decidedSpace).2.tree =
        (Run.exec (upgrade ⟨[], "."⟩ decidedRules { safeMode := false }) decidedSpace).2.tree ∧
      (Run.exec (upgrade ⟨[], "."⟩ decidedRules { safeMode := false }) decidedSpace).2.tree.file?
          ["a.rb"] = some (Text.encode "update_all new".toList) ∧
      Notice.leftForReview "update_all" "a.rb" ∈
        (Run.exec (upgrade ⟨[], "."⟩ decidedRules { safeMode := true }) decidedSpace).2.notices := by
  obtain ⟨hresult, htree, -⟩ :=
    upgrade_safeMode_alike allSafe_decidedRules {} ⟨[], "."⟩ decidedSpace
  exact ⟨hresult, htree, by decide +kernel⟩

end Project

end RailsUpgrade
