import Mathlib.Data.List.TakeWhile
import RailsUpgrade.Project.Scan
import RailsUpgrade.Proofs.Glob
import RailsUpgrade.Proofs.Run

/-!
# `RailsUpgrade.Proofs.Scan`: what a scan finds

A scan keeps the texts that it has read. `Scan.Faithful` says that they are those of the tree, and
every step of a scan keeps it (`Scan.Faithful.file`, `Scan.Faithful.detection`). So the texts make no
difference to what is found:

* `findings_scanTree`: the findings are those of every detection on its own, one after the other;
* `scan_eq_ok`: a scan that succeeds gives these findings and leaves the tree as it is;
* `exec_scan`: all the ways in which a scan ends;
* `sources_of_file`: the sources that were found in a file, in the order of the detections.
-/

set_option autoImplicit false

namespace RailsUpgrade

/-- Whether a detection is tried for a target. -/
def Detection.isActive (target : Option String) (d : Detection) : Bool :=
  d.constraint.all (·.admits target)

/-- Whether a detection finds something in the file at a path. -/
def Detection.foundAt (t : Tree) (root : Root) (d : Detection) (path : String) : Bool :=
  match t.read root path with
  | .ok text => d.pattern.found text
  | .error _ => false

/-- Whether a detection has a finding for the file at a path: it is tried, and its glob lists the
file, and its pattern is in the text. -/
def Detection.reports (t : Tree) (root : Root) (target : Option String) (path : String)
    (d : Detection) : Bool :=
  d.isActive target && ((Glob.files? t root d.glob).getD []).contains path
    && d.foundAt t root path

namespace Project

/-- What one detection finds in a tree. -/
def findingsOf (t : Tree) (root : Root) (target : Option String) (d : Detection) : List Finding :=
  if d.isActive target then
    (((Glob.files? t root d.glob).getD []).filter (d.foundAt t root)).map fun path =>
      ⟨path, d.message, d.source⟩
  else []

variable {t : Tree} {root : Root}

namespace Scan

/-- The texts that were kept are those of the tree. -/
def Faithful (t : Tree) (root : Root) (s : Scan) : Prop :=
  ∀ path text, s.texts.lookup path = some text → text = (t.read root path).toOption

/-- Reading gives the text of the tree, keeps the texts faithful and finds nothing. -/
theorem read_of_faithful {s : Scan} (hs : s.Faithful t root) (path : String) :
    (s.read t root path).1 = (t.read root path).toOption ∧
      (s.read t root path).2.Faithful t root ∧ (s.read t root path).2.findings = s.findings := by
  have hkept : ∀ text, text = (t.read root path).toOption → ∀ other found,
      ((path, text) :: s.texts).lookup other = some found →
        found = (t.read root other).toOption := by
    intro text htext other found hfound
    rw [List.lookup_cons] at hfound
    split at hfound
    · rename_i heq
      obtain rfl : other = path := by simpa using heq
      cases hfound
      exact htext
    · exact hs other found hfound
  unfold read
  split
  · rename_i text htext
    exact ⟨hs path text htext, hs, rfl⟩
  · split
    · rename_i text htext
      exact ⟨by simp [htext, Except.toOption], hkept _ (by simp [htext, Except.toOption]), rfl⟩
    · rename_i fault hfault
      exact ⟨by simp [hfault, Except.toOption], hkept _ (by simp [hfault, Except.toOption]), rfl⟩

/-- One file: the texts stay faithful, and a finding is added if the file has one. -/
theorem Faithful.file {s : Scan} (hs : s.Faithful t root) (d : Detection) (path : String) :
    (Scan.file t root d s path).Faithful t root ∧
      (Scan.file t root d s path).findings =
        s.findings ++ if d.foundAt t root path then [⟨path, d.message, d.source⟩] else [] := by
  -- A memo that is faithful answers as the tree does, so that only the tree is asked here.
  obtain ⟨hread, hkept, hfindings⟩ := read_of_faithful hs path
  unfold Scan.file Detection.foundAt
  cases htext : t.read root path with
  | error fault =>
    rw [htext] at hread
    split
    · rename_i s' heq
      rw [heq] at hkept hfindings
      exact ⟨hkept, by simpa using hfindings⟩
    · rename_i text s' heq
      simp [heq, Except.toOption] at hread
  | ok text =>
    rw [htext] at hread
    split
    · rename_i s' heq
      simp [heq, Except.toOption] at hread
    · rename_i text' s' heq
      obtain rfl : text' = text := by simpa [heq, Except.toOption] using hread
      rw [heq] at hkept hfindings
      simp only at hkept hfindings
      split
      · exact ⟨hkept, by rw [hfindings]⟩
      · exact ⟨hkept, by simpa using hfindings⟩

/-- The files of a glob, one after the other. -/
theorem Faithful.foldl_file {s : Scan} (hs : s.Faithful t root) (d : Detection)
    (files : List String) :
    (files.foldl (Scan.file t root d) s).Faithful t root ∧
      (files.foldl (Scan.file t root d) s).findings =
        s.findings ++ (files.filter (d.foundAt t root)).map fun path =>
          ⟨path, d.message, d.source⟩ := by
  induction files generalizing s with
  | nil => exact ⟨hs, by simp⟩
  | cons path files ih =>
    obtain ⟨hkept, hfindings⟩ := hs.file d path
    obtain ⟨hkept', hfindings'⟩ := ih hkept
    refine ⟨hkept', ?_⟩
    rw [List.foldl_cons, hfindings', hfindings]
    by_cases hfound : d.foundAt t root path = true
    · simp [hfound]
    · simp [hfound]

/-- One detection: the texts stay faithful, and its findings are added. -/
theorem Faithful.detection {s : Scan} (hs : s.Faithful t root) (target : Option String)
    (d : Detection) :
    (Scan.detection t root target s d).Faithful t root ∧
      (Scan.detection t root target s d).findings = s.findings ++ findingsOf t root target d := by
  have hactive : d.isActive target = true ↔
      (d.constraint.filter fun c => !c.admits target) = none := by
    unfold Detection.isActive
    cases d.constraint <;> simp
  unfold Scan.detection findingsOf
  split
  · rename_i c hc
    have hidle : d.isActive target = false := by simpa [hc] using hactive
    exact ⟨hs, by simp [hidle]⟩
  · rename_i hnone
    rw [if_pos (hactive.mpr hnone)]
    split
    · rename_i hfiles
      exact ⟨hs, by simp [hfiles]⟩
    · rename_i files hfiles
      rw [hfiles]
      exact hs.foldl_file d files

end Scan

/-- The findings are those of every detection on its own, one after the other. -/
theorem findings_scanTree (target : Option String) (detections : List Detection) :
    (scanTree t root target detections).findings =
      detections.flatMap (findingsOf t root target) := by
  have hrun : ∀ s : Scan, s.Faithful t root →
      (detections.foldl (Scan.detection t root target) s).findings =
        s.findings ++ detections.flatMap (findingsOf t root target) := by
    intro s hs
    induction detections generalizing s with
    | nil => simp
    | cons d detections ih =>
      obtain ⟨hkept, hfindings⟩ := hs.detection target d
      rw [List.foldl_cons, ih _ hkept, hfindings, List.flatMap_cons, List.append_assoc]
  have hstart : Scan.Faithful t root {} := by
    intro path text h
    cases h
  rw [scanTree, hrun {} hstart, List.nil_append]

/-- A scan that succeeds gives the findings of all detections and leaves the tree as it is. -/
theorem scan_eq_ok {registry : Registry} {target : Option String} {w w' : Workspace}
    {findings : List Finding}
    (h : Run.exec (scan root registry target) w = (.ok findings, w')) :
    findings = registry.detections.flatMap (findingsOf w.tree root target) ∧ w'.tree = w.tree := by
  rw [scan, Run.exec_tree_bind] at h
  obtain ⟨_, w₁, hnotes, h⟩ := Run.exec_bind_eq_ok h
  rw [Run.exec_noteAll] at hnotes
  cases hnotes
  split at h
  · cases h
  · rename_i hnone
    cases h
    -- No number is too long, so no detection is left out.
    have hall : (registry.detections.takeWhile fun d => (overlong? target d).isNone) =
        registry.detections := by
      rw [List.takeWhile_eq_self_iff]
      intro d hd
      simpa using List.findSome?_eq_none_iff.mp hnone d hd
    rw [hall, findings_scanTree]
    exact ⟨rfl, rfl⟩

variable (root) in
/-- How a scan ends: with the first number that is too long, or with the findings of all detections.
It leaves notices only. -/
theorem exec_scan (registry : Registry) (target : Option String) (w : Workspace) :
    ∃ notices, Run.exec (scan root registry target) w =
      (match registry.detections.findSome? (overlong? target) with
        | some number => .error (.overlong number)
        | none => .ok (registry.detections.flatMap (findingsOf w.tree root target)),
        { w with notices }) := by
  cases hlong : registry.detections.findSome? (overlong? target) with
  | some number =>
    rw [scan, Run.exec_tree_bind, Run.exec_bind_of_ok (Run.exec_noteAll _ w), hlong]
    exact ⟨_, rfl⟩
  | none =>
    have hrun : ∃ findings notices,
        Run.exec (scan root registry target) w = (.ok findings, { w with notices }) := by
      rw [scan, Run.exec_tree_bind, Run.exec_bind_of_ok (Run.exec_noteAll _ w), hlong]
      exact ⟨_, _, rfl⟩
    obtain ⟨findings, notices, hrun⟩ := hrun
    exact ⟨notices, by rw [hrun, (scan_eq_ok hrun).1]⟩

/-- The sources that a detection finds in the file at a path: its own, or none. -/
theorem sources_findingsOf (target : Option String) (d : Detection) (path : String) :
    ((findingsOf t root target d).filter (·.file == path)).map Finding.source =
      if d.reports t root target path then [d.source] else [] := by
  have hnodup : ((Glob.files? t root d.glob).getD []).Nodup := by
    cases hfiles : Glob.files? t root d.glob with
    | none => exact List.nodup_nil
    | some files => exact Glob.nodup_files? hfiles
  unfold findingsOf Detection.reports
  by_cases hactive : d.isActive target = true
  · rw [if_pos hactive, List.filter_map, List.map_map]
    -- Of the files of the glob only the one at the path is left.
    have hone : (((Glob.files? t root d.glob).getD []).filter (d.foundAt t root)).filter
        ((·.file == path) ∘ fun path => (⟨path, d.message, d.source⟩ : Finding)) =
          if ((Glob.files? t root d.glob).getD []).contains path && d.foundAt t root path
          then [path] else [] := by
      rw [show ((·.file == path) ∘ fun path => (⟨path, d.message, d.source⟩ : Finding))
        = (· == path) from rfl, List.filter_beq, List.Nodup.count (hnodup.filter _)]
      simp [List.mem_filter, apply_ite (List.replicate · path)]
    rw [hone, hactive, Bool.true_and]
    split <;> rfl
  · simp [hactive]

/-- The sources that were found in the file at a path, in the order of the detections. -/
theorem sources_of_file (target : Option String) (detections : List Detection) (path : String) :
    ((detections.flatMap (findingsOf t root target)).filter (·.file == path)).map Finding.source =
      (detections.filter (Detection.reports t root target path)).map Detection.source := by
  induction detections with
  | nil => rfl
  | cons d detections ih =>
    rw [List.flatMap_cons, List.filter_append, List.map_append, ih, sources_findingsOf]
    split
    · rename_i hfound
      rw [List.filter_cons_of_pos hfound]
      rfl
    · rename_i hfound
      rw [List.filter_cons_of_neg hfound]
      rfl

end Project

end RailsUpgrade
