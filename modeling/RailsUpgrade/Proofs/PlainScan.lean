import RailsUpgrade.Proofs.Ordered
import RailsUpgrade.Proofs.Scan

/-!
# `RailsUpgrade.Proofs.PlainScan`: a scan without kept texts

`scanAfresh` is the plain scan: it goes through the detections in their order, and for each of them that
is meant for the target through the files of its glob, and reads every file afresh, however often it was
read before. A scan that keeps the texts that it has read finds the same. It tells the same on its way,
but of the warnings about a file only the first:

* `exec_scanAfresh`: what a plain scan finds and tells;
* `Scan.Remembers`: the files that have no text are those that the scan has warned about; every step of a
  scan keeps this (`Scan.Remembers.file`, `Scan.Remembers.detection`);
* `notices_scanTree`: what a scan tells is what a plain scan tells, once for each file;
* `filter_firstWarnings`: for each file that cannot be read there is one warning;
* `scan_eq_afresh`: a scan and the plain scan side by side.
-/

set_option autoImplicit false

namespace RailsUpgrade

/-- The file that a notice says a scan could not read. -/
def Notice.unread? : Notice → Option String
  | .scanFailed path _ => some path
  | _ => none

namespace Project

/-! ### The plain scan -/

/-- Tries a detection on files, and reads each of them afresh. -/
def searchAfresh (root : Root) (d : Detection) : List String → Run (List Finding)
  | [] => return []
  | path :: rest => do
    match (← Run.tree).read root path with
    | .error fault =>
      Run.note (.scanFailed path fault)
      searchAfresh root d rest
    | .ok text =>
      let more ← searchAfresh root d rest
      return if d.pattern.found text then ⟨path, d.message, d.source⟩ :: more else more

/-- Tries a detection on the files of its glob, if it is meant for the target. -/
def tryAfresh (root : Root) (target : Option String) (d : Detection) : Run (List Finding) := do
  match overlong? target d with
  | some number => throw (.overlong number)
  | none => match d.constraint.filter fun c => !c.admits target with
    | some c =>
      Run.note (.ruleExcluded d.source c target)
      return []
    | none => match Glob.files? (← Run.tree) root d.glob with
      | none =>
        Run.note (.globFailed d.source d.glob)
        return []
      | some files => searchAfresh root d files

/-- Tries detections one after the other, and keeps nothing that was read. -/
def scanAfresh (root : Root) (target : Option String) : List Detection → Run (List Finding)
  | [] => return []
  | d :: rest => do
    let here ← tryAfresh root target d
    let more ← scanAfresh root target rest
    return here ++ more

/-- The warning about a file that cannot be read. -/
def unreadAt (t : Tree) (root : Root) (path : String) : List Notice :=
  match t.read root path with
  | .error fault => [.scanFailed path fault]
  | .ok _ => []

/-- What a plain scan tells about one detection. -/
def noticesOf (t : Tree) (root : Root) (target : Option String) (d : Detection) : List Notice :=
  match d.constraint.filter fun c => !c.admits target with
  | some c => [.ruleExcluded d.source c target]
  | none => match Glob.files? t root d.glob with
    | none => [.globFailed d.source d.glob]
    | some files => files.flatMap (unreadAt t root)

/-- The detections that a scan comes to: those in front of the first number that is too long. -/
def uninterrupted (target : Option String) (detections : List Detection) : List Detection :=
  detections.takeWhile fun d => (overlong? target d).isNone

variable {t : Tree} {root : Root} {target : Option String}

theorem isActive_iff {d : Detection} : d.isActive target = true ↔
    (d.constraint.filter fun c => !c.admits target) = none := by
  unfold Detection.isActive
  cases d.constraint <;> simp

variable (root) in
theorem exec_searchAfresh (d : Detection) (files : List String) (w : Workspace) :
    Run.exec (searchAfresh root d files) w =
      (.ok ((files.filter (d.foundAt w.tree root)).map fun path => ⟨path, d.message, d.source⟩),
        { w with notices := w.notices ++ files.flatMap (unreadAt w.tree root) }) := by
  induction files generalizing w with
  | nil => simp [searchAfresh]
  | cons path rest ih =>
    rw [searchAfresh, Run.exec_tree_bind]
    cases hread : w.tree.read root path with
    | error fault =>
      have hfound : d.foundAt w.tree root path = false := by rw [Detection.foundAt, hread]
      rw [Run.exec_note_bind, ih, List.filter_cons_of_neg (by simp [hfound]), List.flatMap_cons,
        unreadAt, hread, List.append_assoc]
    | ok text =>
      have hfound : d.foundAt w.tree root path = d.pattern.found text := by
        rw [Detection.foundAt, hread]
      rw [Run.exec_bind_of_ok (ih w), Run.exec_pure, List.flatMap_cons, unreadAt, hread,
        List.nil_append, List.filter_cons, hfound]
      cases d.pattern.found text <;> rfl

variable (root target) in
theorem exec_tryAfresh (d : Detection) (w : Workspace) (hsound : overlong? target d = none) :
    Run.exec (tryAfresh root target d) w = (.ok (findingsOf w.tree root target d),
      { w with notices := w.notices ++ noticesOf w.tree root target d }) := by
  rw [tryAfresh, hsound, findingsOf, noticesOf]
  cases hfilter : d.constraint.filter fun c => !c.admits target with
  | some c =>
    have hidle : ¬ d.isActive target = true := by simp [isActive_iff, hfilter]
    rw [if_neg hidle]
    rfl
  | none =>
    rw [if_pos (isActive_iff.mpr hfilter)]
    show Run.exec (Run.tree >>= _) w = _
    rw [Run.exec_tree_bind]
    cases hfiles : Glob.files? w.tree root d.glob with
    | none => rfl
    | some files => exact exec_searchAfresh root d files w

variable (root target) in
/-- What a plain scan finds and tells. A number that is too long ends it. -/
theorem exec_scanAfresh (detections : List Detection) (w : Workspace) :
    Run.exec (scanAfresh root target detections) w =
      (match detections.findSome? (overlong? target) with
        | some number => .error (.overlong number)
        | none => .ok (detections.flatMap (findingsOf w.tree root target)),
        { w with notices := w.notices ++
            (uninterrupted target detections).flatMap (noticesOf w.tree root target) }) := by
  induction detections generalizing w with
  | nil => simp [scanAfresh, uninterrupted]
  | cons d rest ih =>
    rw [scanAfresh, uninterrupted, List.takeWhile_cons, List.findSome?_cons]
    cases hlong : overlong? target d with
    | some number =>
      have htry : Run.exec (tryAfresh root target d) w = (.error (.overlong number), w) := by
        rw [tryAfresh, hlong]
        rfl
      rw [Run.exec_bind_of_error htry]
      simp
    | none =>
      rw [Run.exec_bind_of_ok (exec_tryAfresh root target d w hlong), Run.exec_bind, ih]
      cases hrest : rest.findSome? (overlong? target) with
      | some number => simp [uninterrupted]
      | none => simp [uninterrupted]

/-! ### What is told once -/

/-- Adds a notice, unless it is another warning about a file that there is a warning about. -/
def tellOnce (told : List Notice) (notice : Notice) : List Notice :=
  match notice.unread? with
  | none => told ++ [notice]
  | some path => if told.any (·.unread? == some path) then told else told ++ [notice]

/-- Notices, but of the warnings about a file only the first. -/
def firstWarnings (notices : List Notice) : List Notice := notices.foldl tellOnce []

theorem tellOnce_scanFailed (told : List Notice) (path : String) (fault : ReadFault) :
    tellOnce told (.scanFailed path fault) =
      if told.any (·.unread? == some path) then told else told ++ [.scanFailed path fault] :=
  rfl

namespace Scan

/-- The files that were read and have no text are those that the scan has warned about. -/
def Remembers (s : Scan) : Prop :=
  ∀ path, s.texts.lookup path = some none ↔ s.notices.any (·.unread? == some path) = true

/-- Reading a file warns about it if that was not done before. -/
theorem Remembers.read {s : Scan} (hs : s.Remembers) (hfaithful : s.Faithful t root) (path : String) :
    (s.read t root path).2.Remembers ∧
      (s.read t root path).2.notices = (unreadAt t root path).foldl tellOnce s.notices := by
  unfold Scan.read unreadAt
  cases hkept : s.texts.lookup path with
  | some text =>
    refine ⟨hs, ?_⟩
    have htext := hfaithful path text hkept
    cases hread : t.read root path with
    | ok text => rfl
    | error fault =>
      -- The file was read before, and had no text then.
      rw [hread] at htext
      subst htext
      show s.notices = tellOnce s.notices (.scanFailed path fault)
      rw [tellOnce_scanFailed, if_pos ((hs path).mp hkept)]
  | none =>
    -- The scan comes to the file for the first time.
    have hfresh : ¬ s.notices.any (·.unread? == some path) = true := by
      rw [← hs path, hkept]
      simp
    have hlookup : ∀ (text : Option (List Char)) (other : String),
        ((path, text) :: s.texts).lookup other =
          if other = path then some text else s.texts.lookup other := by
      intro text other
      rw [List.lookup_cons]
      by_cases heq : other = path
      · simp [heq]
      · rw [beq_false_of_ne heq, if_neg heq]
    cases hread : t.read root path with
    | ok text =>
      refine ⟨fun other => ?_, rfl⟩
      show ((path, some text) :: s.texts).lookup other = some none ↔ _
      rw [hlookup]
      split
      · rename_i heq
        simpa [heq] using hfresh
      · exact hs other
    | error fault =>
      refine ⟨fun other => ?_, ?_⟩
      · show ((path, none) :: s.texts).lookup other = some none ↔
          (s.notices ++ [Notice.scanFailed path fault]).any (·.unread? == some other) = true
        rw [hlookup, List.any_append, Bool.or_eq_true, ← hs other]
        split
        · rename_i heq
          simp [heq, Notice.unread?]
        · rename_i hne
          simp [Notice.unread?, Ne.symm hne]
      · show s.notices ++ [Notice.scanFailed path fault] = tellOnce s.notices (.scanFailed path fault)
        rw [tellOnce_scanFailed, if_neg hfresh]

/-- One file: the scan tells what a plain scan tells, if it has not told it before. -/
theorem Remembers.file {s : Scan} (hs : s.Remembers) (hfaithful : s.Faithful t root) (d : Detection)
    (path : String) :
    (Scan.file t root d s path).Remembers ∧
      (Scan.file t root d s path).notices = (unreadAt t root path).foldl tellOnce s.notices := by
  have hread := hs.read hfaithful path
  unfold Scan.file
  split
  · rename_i s' heq
    rwa [heq] at hread
  · rename_i text s' heq
    rw [heq] at hread
    -- A finding changes neither the texts nor the notices.
    split
    · exact hread
    · exact hread

/-- The files of a glob, one after the other. -/
theorem Remembers.foldl_file {s : Scan} (hs : s.Remembers) (hfaithful : s.Faithful t root)
    (d : Detection) (files : List String) :
    (files.foldl (Scan.file t root d) s).Remembers ∧
      (files.foldl (Scan.file t root d) s).notices =
        (files.flatMap (unreadAt t root)).foldl tellOnce s.notices := by
  induction files generalizing s with
  | nil => exact ⟨hs, rfl⟩
  | cons path files ih =>
    obtain ⟨hkept, hnotices⟩ := hs.file hfaithful d path
    obtain ⟨hkept', hnotices'⟩ := ih hkept (hfaithful.file d path).1
    refine ⟨hkept', ?_⟩
    rw [List.foldl_cons, hnotices', hnotices, List.flatMap_cons, List.foldl_append]

/-- One detection. -/
theorem Remembers.detection {s : Scan} (hs : s.Remembers) (hfaithful : s.Faithful t root)
    (d : Detection) :
    (Scan.detection t root target s d).Remembers ∧
      (Scan.detection t root target s d).notices =
        (noticesOf t root target d).foldl tellOnce s.notices := by
  -- What is told about a detection itself is no warning about a file.
  have hother : ∀ notice : Notice, notice.unread? = none →
      ({ s with notices := s.notices ++ [notice] } : Scan).Remembers := by
    intro notice hnone path
    show s.texts.lookup path = some none ↔ (s.notices ++ [notice]).any _ = true
    rw [hs path, List.any_append]
    simp [hnone]
  rw [Scan.detection, noticesOf]
  cases d.constraint.filter fun c => !c.admits target with
  | some c => exact ⟨hother _ rfl, rfl⟩
  | none => cases Glob.files? t root d.glob with
    | none => exact ⟨hother _ rfl, rfl⟩
    | some files => exact hs.foldl_file hfaithful d files

end Scan

/-- What a scan tells is what a plain scan tells, but of the warnings about a file only the first. -/
theorem notices_scanTree (detections : List Detection) :
    (scanTree t root target detections).notices =
      firstWarnings (detections.flatMap (noticesOf t root target)) := by
  have hrun : ∀ s : Scan, s.Remembers → s.Faithful t root →
      (detections.foldl (Scan.detection t root target) s).notices =
        (detections.flatMap (noticesOf t root target)).foldl tellOnce s.notices := by
    intro s hs hfaithful
    induction detections generalizing s with
    | nil => rfl
    | cons d detections ih =>
      obtain ⟨hkept, hnotices⟩ : (Scan.detection t root target s d).Remembers ∧
          (Scan.detection t root target s d).notices =
            (noticesOf t root target d).foldl tellOnce s.notices := hs.detection hfaithful d
      rw [List.foldl_cons, ih _ hkept (hfaithful.detection target d).1, hnotices, List.flatMap_cons,
        List.foldl_append]
  refine hrun {} (fun path => by simp) fun path text h => ?_
  cases h

/-! ### One warning for each file -/

theorem any_tellOnce (told : List Notice) (notice : Notice) (path : String) :
    (tellOnce told notice).any (·.unread? == some path) =
      (told.any (·.unread? == some path) || notice.unread? == some path) := by
  unfold tellOnce
  cases hunread : notice.unread? with
  | none => simp [hunread]
  | some other =>
    simp only
    split
    · rename_i htold
      by_cases heq : other = path
      · subst heq
        rw [htold, Bool.true_or]
      · simp [heq]
    · simp [hunread]

/-- There is at most one warning about a file, and there is one if there was one before. -/
theorem countP_foldl_tellOnce (notices told : List Notice) (path : String)
    (htold : told.countP (·.unread? == some path) =
      if told.any (·.unread? == some path) then 1 else 0) :
    (notices.foldl tellOnce told).countP (·.unread? == some path) =
      if (told ++ notices).any (·.unread? == some path) then 1 else 0 := by
  induction notices generalizing told with
  | nil => simpa using htold
  | cons notice notices ih =>
    rw [List.foldl_cons, ih]
    · rw [List.any_append, any_tellOnce, List.any_append, List.any_cons, Bool.or_assoc]
    · rw [any_tellOnce]
      unfold tellOnce
      cases hunread : notice.unread? with
      | none => simpa [hunread] using htold
      -- A warning is told only if its path was not told yet, so that one more counts only then.
      | some other =>
        simp only
        split
        · rename_i hmem
          by_cases heq : other = path
          · subst heq
            simpa [hmem] using htold
          · simpa [heq] using htold
        · rename_i hmem
          rw [List.countP_append, htold]
          by_cases heq : other = path
          · subst heq
            simp [hmem, hunread]
          · simp [heq, hunread]

theorem countP_firstWarnings (notices : List Notice) (path : String) :
    (firstWarnings notices).countP (·.unread? == some path) =
      if notices.any (·.unread? == some path) then 1 else 0 :=
  countP_foldl_tellOnce notices [] path rfl

theorem mem_of_mem_firstWarnings {notices : List Notice} {notice : Notice}
    (h : notice ∈ firstWarnings notices) : notice ∈ notices := by
  have hrun : ∀ told, notice ∈ notices.foldl tellOnce told → notice ∈ told ∨ notice ∈ notices := by
    clear h
    intro told h
    induction notices generalizing told with
    | nil => exact .inl h
    | cons other notices ih =>
      rcases ih _ h with h | h
      · have hmem : notice ∈ told ++ [other] := by
          unfold tellOnce at h
          split at h
          · exact h
          · split at h
            · exact List.mem_append_left _ h
            · exact h
        rcases List.mem_append.mp hmem with h | h
        · exact .inl h
        · exact .inr (by simpa using .inl (List.mem_singleton.mp h))
      · exact .inr (List.mem_cons_of_mem _ h)
  simpa using hrun [] h

/-- A detection is tried on a file: it is meant for the target, and its glob lists the file. -/
def Covers (t : Tree) (root : Root) (target : Option String) (d : Detection) (path : String) : Prop :=
  d.isActive target = true ∧ path ∈ (Glob.files? t root d.glob).getD []

/-- A plain scan warns about the files that a detection is tried on and that cannot be read. -/
theorem scanFailed_mem_noticesOf {d : Detection} {path : String} {fault : ReadFault} :
    .scanFailed path fault ∈ noticesOf t root target d ↔
      Covers t root target d path ∧ t.read root path = .error fault := by
  have hunread : ∀ other, .scanFailed path fault ∈ unreadAt t root other ↔
      other = path ∧ t.read root path = .error fault := by
    intro other
    unfold unreadAt
    cases hread : t.read root other with
    | ok text =>
      simp only [List.not_mem_nil, false_iff, not_and]
      rintro rfl h
      rw [hread] at h
      cases h
    | error found =>
      rw [List.mem_singleton, Notice.scanFailed.injEq]
      constructor
      · rintro ⟨rfl, rfl⟩
        exact ⟨rfl, hread⟩
      · rintro ⟨rfl, h⟩
        rw [hread] at h
        exact ⟨rfl, (Except.error.inj h).symm⟩
  rw [Covers, isActive_iff, noticesOf]
  -- An active detection warns of the covered files that cannot be read, and no other warns at all.
  cases d.constraint.filter fun c => !c.admits target with
  | some c => simp
  | none => cases Glob.files? t root d.glob with
    | none => simp
    | some files => simp [List.mem_flatMap, hunread]

theorem unread?_eq_some_iff {notice : Notice} {path : String} :
    notice.unread? = some path ↔ ∃ fault, notice = .scanFailed path fault := by
  cases notice <;> simp [Notice.unread?]

/-- For each file that a detection is tried on and that cannot be read there is one warning, and there
are no others. -/
theorem filter_firstWarnings (detections : List Detection) (path : String) :
    ((∃ d ∈ detections, Covers t root target d path) →
      (firstWarnings (detections.flatMap (noticesOf t root target))).filter (·.unread? == some path) =
        unreadAt t root path) ∧
    ((¬ ∃ d ∈ detections, Covers t root target d path) →
      (firstWarnings (detections.flatMap (noticesOf t root target))).filter (·.unread? == some path) =
        []) := by
  generalize hnotices : detections.flatMap (noticesOf t root target) = notices
  have hmem : ∀ fault, .scanFailed path fault ∈ notices ↔
      (∃ d ∈ detections, Covers t root target d path) ∧ t.read root path = .error fault := by
    intro fault
    rw [← hnotices, List.mem_flatMap]
    simp only [scanFailed_mem_noticesOf]
    constructor
    · rintro ⟨d, hd, hcovers, hread⟩
      exact ⟨⟨d, hd, hcovers⟩, hread⟩
    · rintro ⟨⟨d, hd, hcovers⟩, hread⟩
      exact ⟨d, hd, hcovers, hread⟩
  -- A warning about the file is one that a plain scan gives.
  have hin : ∀ notice ∈ (firstWarnings notices).filter (·.unread? == some path),
      ∃ fault, notice = .scanFailed path fault ∧ .scanFailed path fault ∈ notices := by
    intro notice hnotice
    rw [List.mem_filter, beq_iff_eq, unread?_eq_some_iff] at hnotice
    obtain ⟨hnotice, fault, rfl⟩ := hnotice
    exact ⟨fault, rfl, mem_of_mem_firstWarnings hnotice⟩
  refine ⟨fun hcovers => ?_, fun hcovers => ?_⟩
  · rw [unreadAt]
    cases hread : t.read root path with
    | ok text =>
      refine List.eq_nil_iff_forall_not_mem.mpr fun notice hnotice => ?_
      obtain ⟨fault, -, hfault⟩ := hin notice hnotice
      rw [hmem, hread] at hfault
      cases hfault.2
    | error fault =>
      have hcount := countP_firstWarnings notices path
      rw [if_pos (List.any_eq_true.mpr ⟨_, (hmem fault).mpr ⟨hcovers, hread⟩, by simp [Notice.unread?]⟩),
        List.countP_eq_length_filter] at hcount
      obtain ⟨notice, hone⟩ := List.length_eq_one_iff.mp hcount
      rw [hone] at hin ⊢
      obtain ⟨found, rfl, hfound⟩ := hin notice (List.mem_singleton_self _)
      rw [hmem, hread] at hfound
      rw [Except.error.inj hfound.2]
  · refine List.eq_nil_iff_forall_not_mem.mpr fun notice hnotice => ?_
    obtain ⟨fault, -, hfault⟩ := hin notice hnotice
    exact hcovers ((hmem fault).mp hfault).1

/-! ### A scan and the plain scan -/

variable (root target) in
/-- How a scan ends, and what it tells. -/
theorem exec_scan_notices (registry : Registry) (w : Workspace) :
    Run.exec (scan root registry target) w =
      (match registry.detections.findSome? (overlong? target) with
        | some number => .error (.overlong number)
        | none => .ok (registry.detections.flatMap (findingsOf w.tree root target)),
        { w with notices := w.notices ++
            firstWarnings ((uninterrupted target registry.detections).flatMap
              (noticesOf w.tree root target)) }) := by
  obtain ⟨notices, hscan⟩ := exec_scan root registry target w
  have hresult := congrArg Prod.fst hscan
  refine Prod.ext hresult ?_
  rw [scan, Run.exec_tree_bind, Run.exec_bind_of_ok (Run.exec_noteAll _ w), notices_scanTree]
  cases registry.detections.findSome? (overlong? target) <;> rfl

/-- The findings of two lists of detections are those of the first and then those of the second. -/
theorem findings_append (first later : List Detection) :
    (match (first ++ later).findSome? (overlong? target) with
      | some number => .error (.overlong number)
      | none => .ok ((first ++ later).flatMap (findingsOf t root target)) :
        Except Failure (List Finding)) =
      match first.findSome? (overlong? target) with
      | some number => .error (.overlong number)
      | none => match later.findSome? (overlong? target) with
        | some number => .error (.overlong number)
        | none => .ok (first.flatMap (findingsOf t root target) ++
            later.flatMap (findingsOf t root target)) := by
  rw [List.findSome?_append, List.flatMap_append]
  cases first.findSome? (overlong? target) <;> rfl

variable (root target) in
/-- A scan that keeps what it has read is the plain scan that reads every file afresh. Both end alike,
with the same findings or the same number that is too long, and leave the tree as it is. Of what the
plain scan tells, the scan leaves out the second and later warnings about a file: there is one warning
about each file that some detection is tried on and that cannot be read, and no other. The files of a
glob come in order. So what two lists of detections find together is what the first finds, and then what
the second finds. -/
theorem scan_eq_afresh (registry : Registry) (w : Workspace) :
    (∃ result told,
      Run.exec (scanAfresh root target registry.detections) w =
        (result, { w with notices := w.notices ++ told }) ∧
      Run.exec (scan root registry target) w =
        (result, { w with notices := w.notices ++ firstWarnings told }) ∧
      ∀ path,
        ((∃ d ∈ uninterrupted target registry.detections, Covers w.tree root target d path) →
          (firstWarnings told).filter (·.unread? == some path) = unreadAt w.tree root path) ∧
        ((¬ ∃ d ∈ uninterrupted target registry.detections, Covers w.tree root target d path) →
          (firstWarnings told).filter (·.unread? == some path) = [])) ∧
    (∀ glob files, Glob.files? w.tree root glob = some files →
      files.Pairwise fun path path' => path.toList < path'.toList) ∧
    ∀ first later, registry.detections = first ++ later →
      (Run.exec (scan root registry target) w).1 =
        (Run.exec (do
          let here ← scan root { registry with detections := first } target
          let more ← scan root { registry with detections := later } target
          return here ++ more) w).1 := by
  refine ⟨⟨_, _, exec_scanAfresh root target registry.detections w, exec_scan_notices root target registry w,
    filter_firstWarnings _⟩, fun glob files hfiles => Glob.pairwise_files? hfiles, ?_⟩
  intro first later hdetections
  rw [exec_scan_notices, hdetections, findings_append, Run.exec_bind, exec_scan_notices]
  -- The earlier part fails first if it fails; else the later part runs on the same tree.
  cases first.findSome? (overlong? target) with
  | some number => rfl
  | none =>
    show _ = (Run.exec (scan root { registry with detections := later } target >>= _) _).1
    rw [Run.exec_bind, exec_scan_notices]
    cases later.findSome? (overlong? target) <;> rfl

end Project

end RailsUpgrade
