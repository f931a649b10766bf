import RailsUpgrade.Proofs.Encoding
import RailsUpgrade.Proofs.FrameworkConfig
import RailsUpgrade.Proofs.Namespaces

/-!
# `RailsUpgrade.Proofs.Configs`: a second update of the configuration files

Each edit is for one file, and no two edits are for the same one. So the files can be settled one after
the other:

* `exec_updateConfig`: an edit writes what `configWrite` says of the tree, unless the target is refused;
* `settled_updateConfig`: the edit of a file settles it and leaves all other settled files settled;
* `settled_updateConfigsWith`: after all edits all files are settled;
* `updateConfigs_again`: a second update changes nothing.
-/

set_option autoImplicit false

namespace RailsUpgrade

namespace Run

theorem exists_exec_of_toOption {α : Type} {x : Run α} {w : Workspace} {a : α}
    (h : (exec x w).1.toOption = some a) : ∃ w', exec x w = (.ok a, w') :=
  ⟨(exec x w).2, Prod.ext (eq_ok_of_toOption h) rfl⟩

/-- A change that settles a text finds nothing to do in the file that it has written. -/
theorem edited?_edited? {change : List Char → List Char} {bytes new : ByteArray}
    (hagain : ∀ text, change (change text) = change text)
    (hsolid : ∀ text, '\r' ∉ text → '\r' ∉ change text)
    (h : edited? (fun text => .ok (change text)) bytes = some new) :
    edited? (fun text => .ok (change text)) new = none := by
  obtain ⟨text, hdecode, h⟩ := Option.bind_eq_some_iff.mp h
  simp only at h
  split at h
  · cases h
  · obtain rfl := Option.some.inj h
    have hread := Text.decode?_encode_of_notMem (hsolid text (Text.return_notMem_of_decode? hdecode))
    simp [edited?, hread, hagain]

end Run

namespace Project

open FrameworkConfig (Edit edits)

variable {root : Root} {target : String} {e : Edit} {t : Tree}

/-- What the edit of a configuration file writes. -/
def configWrite (root : Root) (target : String) (e : Edit) (t : Tree) : Option Write :=
  (Version.parse? target).bind fun v =>
    if Version.atLeast (some target) e.since then
      Run.editOf root (fun text => .ok (e.apply v text)) t e.path
    else none

/-- Whether an edit is refused: there is the file, but the target has too long a number. -/
def isRefused (root : Root) (target : String) (e : Edit) (t : Tree) : Bool :=
  t.isFileAt root e.path && (Version.overlong? target).isSome

/-- There is nothing to write without a file. -/
theorem configWrite_of_no_file (h : t.isFileAt root e.path = false) :
    configWrite root target e t = none := by
  unfold configWrite
  cases Version.parse? target with
  | none => rfl
  | some v =>
    simp only [Option.bind_some]
    split
    · unfold Run.editOf
      unfold Tree.isFileAt at h
      split
      · rename_i hlook
        simp [hlook] at h
      · rfl
    · rfl

variable (root target) in
/-- An edit of a configuration file writes what `configWrite` says, unless it is refused. -/
theorem exec_updateConfig {w : Workspace} (ht : w.tree.WellFormed)
    (hne : (Path.Lexical.parse e.path).names ≠ []) :
    (isRefused root target e w.tree = true ∧ ∃ failure,
      Run.exec (updateConfig root target e) w = (.error failure, w)) ∨
    (isRefused root target e w.tree = false ∧ ∃ notices,
      Run.exec (updateConfig root target e) w = (.ok (configWrite root target e w.tree).isSome,
        w.after (configWrite root target e w.tree).toList notices)) := by
  rw [updateConfig, Run.exec_tree_bind]
  -- A missing file comes first, then a target that is no version, then one without the edit.
  cases hfile : w.tree.isFileAt root e.path with
  | false =>
    refine .inr ⟨by simp [isRefused, hfile], w.notices, ?_⟩
    rw [configWrite_of_no_file hfile]
    simp
  | true =>
    simp only [Bool.not_true, Bool.false_eq_true, if_false]
    cases hparse : Version.parse target with
    | error fault =>
      have hnone : configWrite root target e w.tree = none := by
        simp [configWrite, Version.parse?, hparse, Except.toOption]
      cases fault with
      | notDotted =>
        refine .inr ⟨by simp [isRefused, Version.overlong?, hparse], w.notices, ?_⟩
        simp [hnone]
      | overlong number =>
        exact .inl ⟨by simp [isRefused, Version.overlong?, hparse, hfile], .overlong number, rfl⟩
    | ok v =>
      have hwrite : configWrite root target e w.tree = if Version.atLeast (some target) e.since then
          Run.editOf root (fun text => .ok (e.apply v text)) w.tree e.path else none := by
        simp [configWrite, Version.parse?, hparse, Except.toOption]
      refine .inr ⟨by simp [isRefused, Version.overlong?, hparse], ?_⟩
      rw [hwrite]
      cases hsince : Version.atLeast (some target) e.since with
      | false => exact ⟨w.notices, by simp⟩
      | true =>
        rcases Run.exec_edit root (fun text => .ok (e.apply v text)) ht hne with
          ⟨text, failure, hfail, -⟩ | ⟨notices, hexec⟩
        · cases hfail
        · simp only [Bool.not_true, Bool.false_eq_true, if_false, if_true]
          rw [Run.exec_bind_of_ok hexec]
          cases Run.editOf root (fun text => .ok (e.apply v text)) w.tree e.path with
          | none => exact ⟨notices, rfl⟩
          | some x => exact ⟨notices ++ [.configUpdated e.path], rfl⟩

/-- There is nothing left to edit in a configuration file. -/
structure Settled (root : Root) (target : String) (t : Tree) (e : Edit) : Prop where
  admitted : isRefused root target e t = false
  idle : configWrite root target e t = none

/-- What an edit writes is at the place of its file. -/
theorem place_of_configWrite (ht : t.WellFormed) (he : e ∈ edits) {x : Write}
    (h : configWrite root target e t = some x) : x.place = root.place ++ Path.namesOf e.path ∧
      (t.file? x.place).isSome = true := by
  obtain ⟨hnames, hpath⟩ := areNames_config he
  obtain ⟨v, -, h⟩ := Option.bind_eq_some_iff.mp h
  split at h
  · obtain ⟨bytes, hlook, -⟩ := Run.editOf_eq_some h
    rw [hpath] at h
    refine ⟨Run.place_of_editOf ht hnames h, ?_⟩
    rw [Tree.file?_of_look hlook, Option.isSome_some]
  · cases h

/-- Only the bytes of its own file count for an edit. -/
theorem Settled.congr {t' : Tree} (ht : t.WellFormed) (ht' : t'.WellFormed) (he : e ∈ edits)
    (hfile : t'.file? (root.place ++ Path.namesOf e.path) = t.file? (root.place ++ Path.namesOf e.path))
    (h : Settled root target t e) : Settled root target t' e := by
  obtain ⟨hnames, hpath⟩ := areNames_config he
  constructor
  · have hadmitted := h.admitted
    unfold isRefused at hadmitted ⊢
    rw [hpath, isFileAt_ofNames ht hnames] at hadmitted
    rw [hpath, isFileAt_ofNames ht' hnames, hfile]
    exact hadmitted
  · have hidle := h.idle
    unfold configWrite at hidle ⊢
    rw [hpath] at hidle ⊢
    simp only [Run.editOf_ofNames ht hnames, Run.editOf_ofNames ht' hnames, hfile] at hidle ⊢
    exact hidle

/-- An edit settles its own file. -/
theorem Settled.of_write (ht : t.WellFormed) (he : e ∈ edits)
    (hadmitted : isRefused root target e t = false) :
    Settled root target (t.putAll (configWrite root target e t).toList) e := by
  obtain ⟨hnames, hpath⟩ := areNames_config he
  cases hwrite : configWrite root target e t with
  | none => exact ⟨hadmitted, hwrite⟩
  | some x =>
    obtain ⟨hplace, hsome⟩ := place_of_configWrite ht he hwrite
    have hput : (t.put x.place x.bytes).file? (root.place ++ Path.namesOf e.path) = some x.bytes := by
      rw [Tree.file?_put, if_pos hplace.symm]
    have ht' : (t.put x.place x.bytes).WellFormed := ht.put hsome x.bytes
    show Settled root target (t.put x.place x.bytes) e
    constructor
    · unfold isRefused at hadmitted ⊢
      rw [hpath, isFileAt_ofNames ht hnames, ← hplace, hsome] at hadmitted
      rw [hpath, isFileAt_ofNames ht' hnames, hput]
      exact hadmitted
    -- The text has been settled by its edit, so that it is written no second time.
    · obtain ⟨v, hv, hedit⟩ := Option.bind_eq_some_iff.mp hwrite
      unfold configWrite
      rw [hv, Option.bind_some]
      split at hedit
      · rename_i hsince
        obtain ⟨bytes, -, hnew⟩ := Run.editOf_eq_some hedit
        have hsettles := FrameworkConfig.settles_of_mem he
        rw [if_pos hsince, hpath, Run.editOf_ofNames ht' hnames, hput, Option.bind_some,
          Run.edited?_edited? (hsettles.again v) (fun _ => hsettles.solid v) hnew]
        rfl
      · cases hedit

/-- The edit of a file settles it, and a settled file stays so through the edits of others. -/
theorem settled_updateConfig {w w' : Workspace} {changed : Bool} (ht : w.tree.WellFormed)
    (he : e ∈ edits) (h : Run.exec (updateConfig root target e) w = (.ok changed, w')) :
    w'.tree.WellFormed ∧ Settled root target w'.tree e ∧
      ∀ other ∈ edits, other.path ≠ e.path → Settled root target w.tree other →
        Settled root target w'.tree other := by
  obtain ⟨hnames, hpath⟩ := areNames_config he
  have hne : (Path.Lexical.parse e.path).names ≠ [] := by
    rw [hpath, Path.parse_ofNames hnames.ne_nil hnames.isName]
    exact hnames.ne_nil
  rcases exec_updateConfig root target ht hne with
    ⟨-, failure, hexec⟩ | ⟨hadmitted, notices, hexec⟩
  · rw [hexec] at h
    cases h
  · obtain rfl : w.after (configWrite root target e w.tree).toList notices = w' := by
      rw [hexec] at h
      exact (Prod.mk.inj h).2
    have hwrites : ∀ x ∈ (configWrite root target e w.tree).toList,
        (w.tree.file? x.place).isSome = true := fun x hx =>
      (place_of_configWrite ht he (Option.mem_toList.mp hx)).2
    have ht' : (w.tree.putAll (configWrite root target e w.tree).toList).WellFormed :=
      ht.putAll hwrites
    -- Only the file of the edit is written, and those of other edits have other names.
    refine ⟨ht', Settled.of_write ht he hadmitted, fun other hother hpaths hsettled => ?_⟩
    refine hsettled.congr ht ht' hother (Tree.file?_putAll_of_notMem ?_)
    intro hmem
    obtain ⟨x, hx, hplace⟩ := List.mem_map.mp hmem
    have hsame := (place_of_configWrite ht he (Option.mem_toList.mp hx)).1
    have hnames' := List.append_cancel_left (hplace.symm.trans hsame)
    exact hpaths (by rw [(areNames_config hother).2, hnames', ← hpath])

/-- After all edits every file that is theirs is settled. -/
theorem settled_updateConfigsWith {rest : List Edit} {w w' : Workspace} {changed : List String}
    (ht : w.tree.WellFormed) (hsub : rest ⊆ edits) (hnodup : (rest.map Edit.path).Nodup)
    (h : Run.exec (updateConfigsWith root target rest) w = (.ok changed, w')) :
    w'.tree.WellFormed ∧ (∀ e ∈ rest, Settled root target w'.tree e) ∧
      ∀ other ∈ edits, other.path ∉ rest.map Edit.path → Settled root target w.tree other →
        Settled root target w'.tree other := by
  induction rest generalizing w changed with
  | nil =>
    cases h
    exact ⟨ht, by simp, fun _ _ _ hsettled => hsettled⟩
  | cons e rest ih =>
    rw [List.map_cons, List.nodup_cons] at hnodup
    obtain ⟨first, w₁, hfirst, h⟩ := Run.exec_bind_eq_ok h
    obtain ⟨more, w₂, hmore, h⟩ := Run.exec_bind_eq_ok h
    obtain rfl : w₂ = w' := (Prod.mk.inj h).2
    obtain ⟨ht₁, hsettled, hothers⟩ := settled_updateConfig ht (hsub List.mem_cons_self) hfirst
    obtain ⟨ht₂, hrest, hkept⟩ := ih ht₁ (fun _ hx => hsub (List.mem_cons_of_mem _ hx)) hnodup.2 hmore
    refine ⟨ht₂, ?_, fun other hother hpath hsettled' => ?_⟩
    · intro e' he'
      obtain rfl | he' := List.mem_cons.mp he'
      · exact hkept e' (hsub List.mem_cons_self) hnodup.1 hsettled
      · exact hrest e' he'
    · rw [List.map_cons, List.mem_cons, not_or] at hpath
      exact hkept other hother hpath.2 (hothers other hother hpath.1 hsettled')

/-- Edits of settled files change nothing. -/
theorem exec_updateConfigsWith_of_settled {rest : List Edit} {w : Workspace} (ht : w.tree.WellFormed)
    (hsub : rest ⊆ edits) (h : ∀ e ∈ rest, Settled root target w.tree e) :
    ∃ notices, Run.exec (updateConfigsWith root target rest) w = (.ok [], { w with notices }) := by
  induction rest generalizing w with
  | nil => exact ⟨w.notices, rfl⟩
  | cons e rest ih =>
    obtain ⟨hnames, hpath⟩ := areNames_config (hsub List.mem_cons_self)
    have hne : (Path.Lexical.parse e.path).names ≠ [] := by
      rw [hpath, Path.parse_ofNames hnames.ne_nil hnames.isName]
      exact hnames.ne_nil
    have hsettled := h e List.mem_cons_self
    rcases exec_updateConfig root target ht hne with
      ⟨hrefused, -⟩ | ⟨-, notices, hexec⟩
    · rw [hsettled.admitted] at hrefused
      cases hrefused
    · rw [hsettled.idle] at hexec
      obtain ⟨notices', hrest⟩ := ih (w := { w with notices }) ht
        (fun _ hx => hsub (List.mem_cons_of_mem _ hx)) (fun e' he' => h e' (List.mem_cons_of_mem _ he'))
      refine ⟨notices', ?_⟩
      rw [updateConfigsWith, Run.exec_bind_of_ok hexec, Option.toList_none, Workspace.after_nil,
        Run.exec_bind_of_ok hrest]
      rfl

theorem nodup_config_paths : (edits.map Edit.path).Nodup := by decide

/-- A second update of the configuration files changes nothing, and neither does a second run of any of
the edits. -/
theorem updateConfigs_again {w w' : Workspace} {changed : List String} (ht : w.tree.WellFormed)
    (h : Run.exec (updateConfigs root target) w = (.ok changed, w')) :
    (∃ notices, Run.exec (updateConfigs root target) w' = (.ok [], { w' with notices })) ∧
      (∀ v text, FrameworkConfig.setLoadDefaults v (FrameworkConfig.setLoadDefaults v text) =
        FrameworkConfig.setLoadDefaults v text) ∧
      (∀ text, FrameworkConfig.addBootsnap (FrameworkConfig.addBootsnap text) =
        FrameworkConfig.addBootsnap text) ∧
      (∀ text, FrameworkConfig.allowHosts (FrameworkConfig.allowHosts text) =
        FrameworkConfig.allowHosts text) ∧
      ∀ text, FrameworkConfig.dropUglifier (FrameworkConfig.dropUglifier text) =
        FrameworkConfig.dropUglifier text := by
  obtain ⟨ht', hsettled, -⟩ :=
    settled_updateConfigsWith ht (List.Subset.refl edits) nodup_config_paths h
  exact ⟨exec_updateConfigsWith_of_settled ht' (List.Subset.refl edits) hsettled,
    FrameworkConfig.setLoadDefaults_setLoadDefaults, FrameworkConfig.addBootsnap_addBootsnap,
    FrameworkConfig.allowHosts_allowHosts, FrameworkConfig.dropUglifier_dropUglifier⟩

/-- An application whose defaults are not set yet, with an old compressor. -/
def oldSettings : Workspace :=
  { tree := { files :=
      [(["config", "application.rb"], Text.encode "class Application < Rails::Application\n".toList),
       (["config", "environments", "production.rb"],
          Text.encode " config.assets.js_compressor = :uglifier".toList)] } }

/-- Both files change, but only once. -/
theorem updateConfigs_again_oldSettings : ∃ w' notices,
    Run.exec (updateConfigs ⟨[], "."⟩ "7.0.0") oldSettings =
      (.ok ["config/application.rb", "config/environments/production.rb"], w') ∧
    Run.exec (updateConfigs ⟨[], "."⟩ "7.0.0") w' = (.ok [], { w' with notices }) := by
  obtain ⟨w', hfirst⟩ : ∃ w', Run.exec (updateConfigs ⟨[], "."⟩ "7.0.0") oldSettings =
      (.ok ["config/application.rb", "config/environments/production.rb"], w') :=
    Run.exists_exec_of_toOption (by decide +kernel)
  obtain ⟨⟨notices, hagain⟩, -⟩ := updateConfigs_again (by decide) hfirst
  exact ⟨w', notices, hfirst, hagain⟩

end Project

end RailsUpgrade
