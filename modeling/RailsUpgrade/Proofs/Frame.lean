import RailsUpgrade.Proofs.Footprint
import RailsUpgrade.Proofs.Namespaces

/-!
# `RailsUpgrade.Proofs.Frame`: the files that an upgrade may make and change

`Project.Touches` lists the names that an upgrade may reach. Here they are put in terms of the tree at
the start: a move that is asked for, of a file that is there, is one of the plan for this tree, though
the plans are made in the middle of a run, when many files have changed.

* `mem_askedPlan`: the plan for the tree at the start has the moves of the files that are there;
* `MayChange`: what a file that is there has to be for an upgrade to change it;
* `Confined`: no file goes missing, each new file is the target of a planned move, and each file with
  other bytes is one that may change;
* `upgrade_confined`: an upgrade keeps to this, whether it ends with an outcome or with a failure.
-/

set_option autoImplicit false

namespace RailsUpgrade

/-- Whether options ask for moves of any jobs. -/
def Options.movesJobs (o : Options) : Bool :=
  o.updateJobNamespaces || o.updateStockJobs || o.updateOrderJobs || o.updatePosStatusJobs

namespace Project

variable {root : Root} {registry : Registry} {o : Options} {t : Tree} {r : Relocation}
  {names source target : List String}

/-- The plan for a tree has every move that is asked for of a file that is there. -/
theorem mem_askedPlan (ht : t.WellFormed) (h : Asked o r) (hnamed : r.Named source target)
    (hfile : (t.file? (root.place ++ source)).isSome) : r ∈ askedPlan o t root := by
  rw [askedPlan, List.mem_append, List.mem_append]
  cases h with
  | stock names hwanted hnames hcovers =>
    obtain ⟨job, hjob⟩ := exists_named_stockRelocation hnames
    obtain ⟨rfl, -⟩ := hjob.unique hnamed
    rw [if_pos hwanted]
    exact .inl (List.mem_map.mpr
      ⟨_, (Glob.mem_files?_iff_covers ht isPlain_stockJobs hnames.ne_nil hfile).mpr hcovers, rfl⟩)
  | order kind names hwanted hkind hnames hcovers =>
    obtain ⟨job, hjob⟩ := exists_named_orderRelocation hkind hnames
    obtain ⟨rfl, -⟩ := hjob.unique hnamed
    have hlisted := (Glob.mem_files?_iff_covers ht (isPlain_orderJobs kind hkind) hnames.ne_nil
      hfile).mpr hcovers
    rw [if_pos hwanted]
    exact .inr (.inl (List.mem_flatMap.mpr ⟨kind, hkind, List.mem_map.mpr ⟨_, hlisted, rfl⟩⟩))
  | pos hwanted =>
    have hnames : Path.AreNames source := ⟨hnamed.source_ne, hnamed.source_names⟩
    have hthere : t.isFileAt root posRelocation.source = true := by
      rw [hnamed.source_eq, isFileAt_ofNames ht hnames, hfile]
    rw [if_pos hwanted, posPlan, if_pos hthere]
    exact .inr (.inr (List.mem_singleton.mpr rfl))

/-- All moves of files that are there are planned. -/
theorem mem_planned (ht : t.WellFormed) (h : Asked allJobs r) (hnamed : r.Named source target)
    (hfile : (t.file? (root.place ++ source)).isSome) : r ∈ planned t root := by
  have hall : askedPlan allJobs t root = stockPlan t root ++ (orderPlan t root ++ posPlan t root) := rfl
  rw [planned, List.append_assoc, ← hall]
  exact mem_askedPlan ht h hnamed hfile

theorem movesJobs_of_asked (h : Asked o r) : o.movesJobs = true := by
  unfold Options.movesJobs
  cases h with
  | stock _ hwanted _ _ => grind
  | order _ _ hwanted _ _ _ => grind
  | pos hwanted => grind

/-- What a file that is there has to be for an upgrade to change it. -/
inductive MayChange (root : Root) (registry : Registry) (o : Options) (t : Tree) :
    List String → Prop
  | repair (names : List String) (f : Finding) (found : f ∈ foundIn t root registry o)
      (inFile : f.file = Path.ofNames names)
      (isOpen : Path.isProtected (Path.ofNames names) = false) : MayChange root registry o t names
  | gemfile (wanted : o.updateGems = true) : MayChange root registry o t ["Gemfile"]
  | config (e : FrameworkConfig.Edit) (wanted : o.updateConfigs = true)
      (isEdit : e ∈ FrameworkConfig.edits) : MayChange root registry o t (Path.namesOf e.path)
  | migration (names : List String) (wanted : o.updateMigrations = true)
      (covers : Glob.covers migrations names = true) : MayChange root registry o t names
  | api (glob : String) (names : List String)
      (wanted : (o.updateJobNamespaces || o.updateApiModule) = true) (isApi : glob ∈ apiFiles)
      (covers : Glob.covers glob names = true) : MayChange root registry o t names
  | source (r : Relocation) (names : List String) (planned : r ∈ askedPlan o t root)
      (isSource : r.source = Path.ofNames names) : MayChange root registry o t names
  | reference (names : List String) (wanted : o.movesJobs = true)
      (covers : Glob.covers rubyFiles names = true)
      (isOpen : Path.isProtected (Path.ofNames names) = false) : MayChange root registry o t names

/-- What an upgrade makes of a tree: no file goes missing, each new file is the target of a planned
move, and each file with other bytes is one that may change. All of them are below the root. -/
structure Confined (root : Root) (registry : Registry) (o : Options) (before after : Tree) :
    Prop where
  kept : ∀ q, (before.file? q).isSome → (after.file? q).isSome
  made : ∀ q, before.file? q = none → (after.file? q).isSome → ∃ names, Path.AreNames names ∧
    q = root.place ++ names ∧ ∃ r ∈ askedPlan o before root, r.target = Path.ofNames names
  changed : ∀ q, (before.file? q).isSome → after.file? q ≠ before.file? q →
    ∃ names, Path.AreNames names ∧ q = root.place ++ names ∧
      MayChange root registry o before names

/-- A file that an upgrade reaches where there was none is the target of a planned move. -/
theorem exists_planned_of_touches (ht : t.WellFormed) {files : List String}
    (h : Touches root t o files false names) :
    ∃ r ∈ askedPlan o t root, r.target = Path.ofNames names := by
  cases h with
  | target r source _ hasked hnamed hsource =>
    exact ⟨r, mem_askedPlan ht hasked hnamed hsource, hnamed.target_eq⟩

/-- A file that is there and that an upgrade reaches is one that may change. -/
theorem mayChange_of_touches (ht : t.WellFormed)
    (hfile : (t.file? (root.place ++ names)).isSome)
    (h : Touches root t o ((foundIn t root registry o).map Finding.file) true names) :
    MayChange root registry o t names := by
  cases h with
  | repair _ hfound hopen =>
    obtain ⟨f, hf, hpath⟩ := List.mem_map.mp hfound
    exact .repair names f hf hpath hopen
  | gemfile hwanted => exact .gemfile hwanted
  | config e hwanted he => exact .config e hwanted he
  | migration _ hwanted hcovers => exact .migration names hwanted hcovers
  | api glob _ hwanted hglob hcovers => exact .api glob names hwanted hglob hcovers
  | source r _ target hasked hnamed =>
    exact .source r names (mem_askedPlan ht hasked hnamed hfile) hnamed.source_eq
  | reference r _ hasked hcovers hopen =>
    exact .reference names (movesJobs_of_asked hasked) hcovers hopen

/-- However an upgrade ends, no file goes missing, each new file is the target of a move that is
planned for the tree at the start, and each file with other bytes is one that may change. -/
theorem upgrade_confined (root : Root) (registry : Registry) (o : Options) {w : Workspace}
    (ht : w.tree.WellFormed) (hplain : ∀ d ∈ registry.detections, Glob.isPlain d.glob = true) :
    Confined root registry o w.tree (Run.exec (upgrade root registry o) w).2.tree := by
  obtain ⟨told, htold, -⟩ := told_upgrade root registry o ht hplain
  refine ⟨htold.kept, fun q hold hnew => ?_, fun q hold hother => ?_⟩
  · have hother : (Run.exec (upgrade root registry o) w).2.tree.file? q ≠ w.tree.file? q := by
      rw [hold]
      exact Option.isSome_iff_ne_none.mp hnew
    obtain ⟨names, hnames, rfl, htouches, -⟩ := htold.files q hother
    rw [hold] at htouches
    exact ⟨names, hnames, rfl, exists_planned_of_touches ht htouches⟩
  · obtain ⟨names, hnames, rfl, htouches, -⟩ := htold.files q hother
    rw [hold] at htouches
    exact ⟨names, hnames, rfl, mayChange_of_touches ht hold htouches⟩

/-- A job moves: its old file changes and its new one is made, and there is nothing else. -/
theorem upgrade_confined_check : ∃ outcome w',
    Run.exec (upgrade ⟨[], "."⟩ {} { updatePosStatusJobs := true }) checkSpace = (.ok outcome, w') ∧
      outcome.changed = [posRelocation.target, posRelocation.source] ∧
      Confined ⟨[], "."⟩ {} { updatePosStatusJobs := true } checkSpace.tree w'.tree := by
  obtain ⟨w', hmove⟩ := exists_exec_relocate_check
  have hplan : Run.exec (runPlan ⟨[], "."⟩ posPlan true) checkSpace =
      (.ok [posRelocation.target, posRelocation.source], w') := by
    rw [runPlan, if_pos rfl, Run.exec_tree_bind, checkSpace_facts.1, relocateAll,
      Run.exec_bind_of_ok hmove]
    rfl
  have hupdates : ∀ target, Run.exec (updateFiles ⟨[], "."⟩
      { target := some target, updatePosStatusJobs := true }) checkSpace =
      (.ok [posRelocation.target, posRelocation.source], w') := by
    intro target
    have hspaces : Run.exec (updateNamespaces ⟨[], "."⟩
        { target := some target, updatePosStatusJobs := true }) checkSpace =
        (.ok [posRelocation.target, posRelocation.source], w') := by
      rw [updateNamespaces_eq]
      exact Run.exec_bind_of_ok hplan
    have hreleased : Run.exec (released ⟨[], "."⟩
        { target := some target, updatePosStatusJobs := true }) checkSpace = (.ok [], checkSpace) :=
      rfl
    rw [updateFiles_eq, Run.exec_bind_of_ok hreleased, Run.exec_bind_of_ok hspaces]
    rfl
  -- Without rules nothing is found, and nothing is repaired.
  have hscan : ∀ target, Run.exec (scan ⟨[], "."⟩ {} target) checkSpace = (.ok [], checkSpace) :=
    fun _ => rfl
  have hrepair : ∀ target, Run.exec (repair ⟨[], "."⟩ {}
      { target := some target, updatePosStatusJobs := true } []) checkSpace =
      (.ok ⟨[], [posRelocation.target, posRelocation.source], []⟩, w') := by
    intro target
    rw [repair, if_neg (by simp)]
    exact Run.exec_bind_of_ok (hupdates target)
  have hrun : Run.exec (upgrade ⟨[], "."⟩ {} { updatePosStatusJobs := true }) checkSpace =
      (.ok ⟨[], [posRelocation.target, posRelocation.source], []⟩, w') := by
    rw [upgrade, Run.exec_tree_bind, Run.exec_bind_of_ok (hscan _)]
    exact hrepair _
  refine ⟨_, w', hrun, rfl, ?_⟩
  have hconfined := upgrade_confined ⟨[], "."⟩ {} { updatePosStatusJobs := true }
    (w := checkSpace) (by decide) (by decide)
  rwa [hrun] at hconfined

end Project

end RailsUpgrade
