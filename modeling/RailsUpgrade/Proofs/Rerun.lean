import RailsUpgrade.Proofs.Endings
import RailsUpgrade.Proofs.Protected
import RailsUpgrade.Proofs.StockRepairs

/-!
# `RailsUpgrade.Proofs.Rerun`: an upgrade that is run again

Which repairs are due in a file is told from its text before the run. A repair of the library that
looks at the whole text may find more to do in what the others have made of it, so a second run need
not be idle:

* `repaired_stock`: what the repairs of the library make of a text;
* `stockRepaired_eq_iff`: they leave a text alone exactly if each of them does;
* `upgradedBytes_stock`, `decode?_stockRepaired`: what a run writes is what the next one reads;
* `rerun_idle_iff`: the second run changes nothing exactly if the text that the first one has made of
  every file is left alone by all repairs that are due in it;
* `rerun_late`: a file for which this fails.
-/

set_option autoImplicit false

namespace RailsUpgrade.Project

open Catalogue (stockStep)

variable {root : Root} {o : Options} {safe : Bool} {target : String} {names : List String}
  {text : List Char} {bytes : ByteArray}

/-! ### Repairs of the library -/

/-- What the repairs of the library make of a text, for those sources that safe mode does not leave to
a person. -/
def stockRepaired (safe : Bool) (target : String) (names : List String) (text : List Char) :
    List Char :=
  ((dueSources .stock target names text).filter fun source =>
    !(safe && Catalogue.needsReview source)).foldl stockStep text

theorem repairStep_stock (safe : Bool) (text : List Char) (source : String) :
    repairStep .stock safe text source =
      .ok (if safe && Catalogue.needsReview source then text else stockStep text source) := by
  have hnone : Registry.stock.repair? source = none := rfl
  simp only [repairStep, isGated, repairText, hnone, stockStep]
  split
  · rfl
  · cases Catalogue.repairFor? source <;> rfl

/-- The repairs of the library have no faults, and those that safe mode leaves out do nothing. -/
theorem repaired_stock (safe : Bool) (sources : List String) (text : List Char) :
    repaired .stock safe sources text =
      .ok ((sources.filter fun source => !(safe && Catalogue.needsReview source)).foldl
        stockStep text) := by
  induction sources generalizing text with
  | nil => rfl
  | cons source sources ih =>
    rw [repaired_cons_of_ok (repairStep_stock safe text source), ih]
    cases hgated : safe && Catalogue.needsReview source with
    | true => rw [List.filter_cons_of_neg (by simp only [hgated]; decide), if_pos rfl]
    | false =>
      rw [List.filter_cons_of_pos (by simp only [hgated]; decide), List.foldl_cons, if_neg (by decide)]

/-- The repairs that are due leave a text alone exactly if each of them does: what one of them has
changed, no other takes back. -/
theorem stockRepaired_eq_iff :
    stockRepaired safe target names text = text ↔
      ∀ source ∈ dueSources .stock target names text,
        (safe && Catalogue.needsReview source) = false → stockStep text source = text := by
  rw [stockRepaired, Catalogue.foldl_stockStep_eq_iff]
  simp only [List.mem_filter, Bool.not_eq_true', and_imp]

/-- What a run writes into a file that is not protected and is a text. -/
theorem upgradedBytes_stock (hopen : Path.isProtected (Path.ofNames names) = false)
    (hdecode : Text.decode? bytes = some text) :
    upgradedBytes .stock safe target names bytes =
      .ok (if stockRepaired safe target names text = text then none
        else some (Text.encode (stockRepaired safe target names text))) := by
  rw [upgradedBytes, rewritten, if_neg (by simp [hopen]), hdecode, Option.elim_some]
  simp only
  rw [repaired_stock]
  rfl

variable (safe target) in
/-- Any other file is left alone. -/
theorem upgradedBytes_of_passed (registry : Registry)
    (h : Path.isProtected (Path.ofNames names) = true ∨ Text.decode? bytes = none) :
    upgradedBytes registry safe target names bytes = .ok none := by
  rw [upgradedBytes]
  obtain hprotected | hdecode := h
  · rw [rewritten, if_pos hprotected]
  · exact rewritten_of_undecodable _ _ _ _ hdecode

/-- What a run has written is read by the next one as it was made: no repair puts in a carriage
return. -/
theorem decode?_stockRepaired (hdecode : Text.decode? bytes = some text) :
    Text.decode? ((if stockRepaired safe target names text = text then none
      else some (Text.encode (stockRepaired safe target names text))).getD bytes) =
        some (stockRepaired safe target names text) := by
  split
  · rename_i hsame
    rw [Option.getD_none, hdecode, hsame]
  · rw [Option.getD_some]
    exact Text.decode?_encode_of_notMem
      ((Catalogue.keeps_foldl_stockStep _ _).plain (Text.return_notMem_of_decode? hdecode))

/-- What a second run writes into a file after a first one: nothing, exactly if the file is left alone
from the start or the text that the first run has made of it is not repaired any further. -/
theorem rewritten_again_iff {result again : Option ByteArray}
    (hresult : upgradedBytes .stock safe target names bytes = .ok result)
    (hagain : upgradedBytes .stock safe target names (result.getD bytes) = .ok again) :
    again = none ↔ ∀ text, Path.isProtected (Path.ofNames names) = false →
      Text.decode? bytes = some text →
      stockRepaired safe target names (stockRepaired safe target names text) =
        stockRepaired safe target names text := by
  by_cases hpassed : Path.isProtected (Path.ofNames names) = true ∨ Text.decode? bytes = none
  · have hnone := upgradedBytes_of_passed safe target .stock hpassed
    rw [hnone] at hresult
    cases hresult
    rw [Option.getD_none, hnone] at hagain
    cases hagain
    simp only [true_iff]
    intro text hopen hdecode
    simp [hopen, hdecode] at hpassed
  · rw [not_or, Bool.not_eq_true] at hpassed
    obtain ⟨hopen, hsome⟩ := hpassed
    obtain ⟨text, hdecode⟩ := Option.ne_none_iff_exists'.mp hsome
    rw [upgradedBytes_stock hopen hdecode] at hresult
    cases hresult
    rw [upgradedBytes_stock hopen (decode?_stockRepaired hdecode)] at hagain
    cases hagain
    simp [hopen, hdecode]

/-! ### Two runs -/

theorem isPlain_stock : ∀ d ∈ Registry.stock.detections, Glob.isPlain d.glob = true := by
  have hglobs : ∀ d ∈ Registry.stock.detections, d.glob ∈ distinct
      (Registry.stock.detections.map Detection.glob) := by
    intro d hd
    exact (mem_distinct _ _).mpr (List.mem_map_of_mem hd)
  have hplain : ∀ glob ∈ distinct (Registry.stock.detections.map Detection.glob),
      Glob.isPlain glob = true := by decide +kernel
  exact fun d hd => hplain _ (hglobs d hd)

/-- An upgrade with the rules of the library has an outcome, unless a number of the target is too
long. -/
theorem exists_upgrade_stock {w : Workspace} (ht : w.tree.WellFormed) (ho : o.repairsOnly = true)
    (hdry : o.dryRun = false)
    (hlong : Registry.stock.detections.findSome? (overlong? (some (targetOf w.tree root o))) = none) :
    ∃ outcome w', Run.exec (upgrade root .stock o) w = (.ok outcome, w') := by
  obtain ⟨notices, hrun⟩ := exec_upgrade .stock root o w
  rw [hlong] at hrun
  have hread : ∀ f ∈ foundIn w.tree root .stock o,
      (∃ text, w.tree.read root f.file = .ok text) ∧ (Path.Lexical.parse f.file).names ≠ [] :=
    fun f => exists_read_of_mem_foundIn ht
  obtain ⟨outcome, hrepair⟩ := exec_repair_of_repairsOnly .stock root
    (o := { o with target := some (targetOf w.tree root o) }) (w := { w with notices }) ht ho
    hdry hread
  have hsound : (distinct ((foundIn w.tree root .stock o).map Finding.file)).findSome?
      (faultAt .stock o.safeMode (foundIn w.tree root .stock o)) = none :=
    findSome?_faultAt_eq_none_iff.mpr fun _ _ _ _ hr => by cases hr
  rw [hsound] at hrepair
  rw [hrun]
  exact ⟨outcome, _, Prod.ext hrepair rfl⟩

section
variable {w w₁ : Workspace} {first : Outcome} (ht : w.tree.WellFormed) (ho : o.repairsOnly = true)
  (hdry : o.dryRun = false) (htarget : o.target = some target)
  (h : Run.exec (upgrade root .stock o) w = (.ok first, w₁))
include ht ho hdry htarget h

/-- The second run has an outcome if the first one had, and what it makes of every file is told from
what the first one has made of it. -/
theorem exists_rerun : ∃ second w₂, Run.exec (upgrade root .stock o) w₁ = (.ok second, w₂) ∧
    (∀ q, (w.tree.file? q = none ∨ ¬ root.place <+: q) → w₂.tree.file? q = w₁.tree.file? q) ∧
    (∀ file ∈ second.changed, ∃ names bytes, file = Path.ofNames names ∧ names ≠ [] ∧
      w.tree.file? (root.place ++ names) = some bytes) ∧
    ∀ names bytes, w.tree.file? (root.place ++ names) = some bytes → ∃ result again,
      upgradedBytes .stock o.safeMode target names bytes = .ok result ∧
      upgradedBytes .stock o.safeMode target names (result.getD bytes) = .ok again ∧
      w₁.tree.file? (root.place ++ names) = some (result.getD bytes) ∧
      w₂.tree.file? (root.place ++ names) = some (again.getD (result.getD bytes)) ∧
      (names ≠ [] → (Path.ofNames names ∈ second.changed ↔ again ≠ none)) := by
  have htargetOf : ∀ t, targetOf t root o = target := fun t => by rw [targetOf, htarget]; rfl
  obtain ⟨ht₁, hkept₁, -, hfiles₁⟩ := upgrade_files ht isPlain_stock ho hdry h
  have hlong : Registry.stock.detections.findSome? (overlong? (some target)) = none := by
    obtain ⟨notices, hrun⟩ := exec_upgrade .stock root o w
    rw [htargetOf, h] at hrun
    cases hlong : Registry.stock.detections.findSome? (overlong? (some target)) with
    | none => rfl
    | some number =>
      rw [hlong] at hrun
      cases hrun
  obtain ⟨second, w₂, hsecond⟩ := exists_upgrade_stock ht₁ ho hdry (by rw [htargetOf]; exact hlong)
  obtain ⟨-, hkept₂, hlisted₂, hfiles₂⟩ := upgrade_files ht₁ isPlain_stock ho hdry hsecond
  rw [htargetOf] at hfiles₁ hfiles₂
  refine ⟨second, w₂, hsecond, fun q hq => ?_, fun file hfile => ?_, fun names bytes hbytes => ?_⟩
  · apply hkept₂
    rwa [hkept₁ q hq]
  · obtain ⟨names, rfl, hne, hsome⟩ := hlisted₂ file hfile
    -- The first run has made no file, so there was one before.
    cases hbytes : w.tree.file? (root.place ++ names) with
    | none =>
      rw [hkept₁ _ (.inl hbytes), hbytes] at hsome
      cases hsome
    | some bytes => exact ⟨names, bytes, rfl, hne, hbytes⟩
  · obtain ⟨result, hresult, hfile₁, -⟩ := hfiles₁ names bytes hbytes
    obtain ⟨again, hagain, hfile₂, hiff⟩ := hfiles₂ names _ hfile₁
    exact ⟨result, again, hresult, hagain, hfile₁, hfile₂, hiff⟩

/-- The second run of an upgrade with the rules of the library and a given target has an outcome if
the first one had. It changes no file exactly if the text that the first one has made of every file is
left alone by all repairs that are due in it, other than those that safe mode leaves to a person. -/
theorem rerun_idle_iff : ∃ second w₂, Run.exec (upgrade root .stock o) w₁ = (.ok second, w₂) ∧
    (second.changed = [] ↔ ∀ names bytes text,
      w.tree.file? (root.place ++ names) = some bytes →
      Path.isProtected (Path.ofNames names) = false → Text.decode? bytes = some text →
      ∀ source ∈ dueSources .stock target names (stockRepaired o.safeMode target names text),
        (o.safeMode && Catalogue.needsReview source) = false →
        stockStep (stockRepaired o.safeMode target names text) source =
          stockRepaired o.safeMode target names text) ∧
    (second.changed = [] → ∀ q, w₂.tree.file? q = w₁.tree.file? q) := by
  obtain ⟨second, w₂, hsecond, hkept, hlisted, hfiles⟩ := exists_rerun ht ho hdry htarget h
  -- A run that tells no change has written nothing.
  have hidle : second.changed = [] → ∀ names again bytes,
      upgradedBytes .stock o.safeMode target names bytes = .ok again →
      (names ≠ [] → (Path.ofNames names ∈ second.changed ↔ again ≠ none)) → again = none := by
    intro hnone names again bytes hagain hiff
    by_cases hne : names = []
    · rw [hne, upgradedBytes_root] at hagain
      cases hagain
      rfl
    · by_contra hsome
      simpa [hnone] using (hiff hne).mpr hsome
  refine ⟨second, w₂, hsecond, ⟨?_, fun hall => ?_⟩, fun hnone q => ?_⟩
  · intro hnone names bytes text hbytes hopen hdecode
    obtain ⟨result, again, hresult, hagain, -, -, hiff⟩ := hfiles names bytes hbytes
    rw [← stockRepaired_eq_iff]
    exact (rewritten_again_iff hresult hagain).mp (hidle hnone names again _ hagain hiff) text
      hopen hdecode
  · rw [List.eq_nil_iff_forall_not_mem]
    intro file hfile
    obtain ⟨names, bytes, rfl, hne, hbytes⟩ := hlisted file hfile
    obtain ⟨result, again, hresult, hagain, -, -, hiff⟩ := hfiles names bytes hbytes
    apply (hiff hne).mp hfile
    rw [rewritten_again_iff hresult hagain]
    intro text hopen hdecode
    exact stockRepaired_eq_iff.mpr (hall names bytes text hbytes hopen hdecode)
  · by_cases hbelow : root.place <+: q
    · obtain ⟨names, rfl⟩ := hbelow
      cases hbytes : w.tree.file? (root.place ++ names) with
      | none => exact hkept _ (.inl hbytes)
      | some bytes =>
        obtain ⟨result, again, -, hagain, hfile₁, hfile₂, hiff⟩ := hfiles names bytes hbytes
        rw [hfile₁, hfile₂, hidle hnone names again _ hagain hiff, Option.getD_none]
    · exact hkept q (.inr hbelow)

end

/-- A text in which one repair makes the use of a collection that another one looks for. -/
def lateText : List Char := "module API.each\nApi.present?\n".toList

/-- What the first run makes of it. -/
def lateText' : List Char := "module Api.each\nApi.present?\n".toList

/-- One file with the text. -/
def lateSpace : Workspace where
  tree := { files := [(["a.rb"], Text.encode lateText)] }

/-- Options that ask for repairs only, for a given target. -/
def lateOptions : Options := { target := some "5.0.0" }

/-- Two repairs are due in the file. The one that is asked first finds no use of a collection yet. -/
theorem stockRepaired_lateText :
    stockRepaired lateOptions.safeMode "5.0.0" ["a.rb"] lateText = lateText' := by decide +kernel

/-- In the new text it is due again, and finds one. -/
theorem exists_late_source :
    ∃ source ∈ dueSources .stock "5.0.0" ["a.rb"]
        (stockRepaired lateOptions.safeMode "5.0.0" ["a.rb"] lateText),
      (lateOptions.safeMode && Catalogue.needsReview source) = false ∧
      stockStep (stockRepaired lateOptions.safeMode "5.0.0" ["a.rb"] lateText) source ≠
        stockRepaired lateOptions.safeMode "5.0.0" ["a.rb"] lateText := by
  have hpresence : ∃ d ∈ Catalogue.conventions,
      d.pattern = Catalogue.collectionPresence ∧ d.glob = Catalogue.rubyFiles ∧
        d.constraint = none := by simp [Catalogue.conventions]
  obtain ⟨d, hd, hpattern, hglob, hconstraint⟩ := hpresence
  have hfound : (d.isActive (some "5.0.0") && Glob.covers d.glob ["a.rb"] &&
      d.pattern.found lateText') = true := by
    rw [Detection.isActive, hpattern, hglob, hconstraint]
    decide +kernel
  rw [stockRepaired_lateText]
  refine ⟨d.source, ?_, ?_, ?_⟩
  · rw [dueSources, mem_distinct]
    refine List.mem_map_of_mem (List.mem_filter.mpr ⟨?_, hfound⟩)
    simp [Registry.stock, Catalogue.detections, hd]
  · rw [Detection.source, hpattern]
    decide +kernel
  · rw [Detection.source, hpattern]
    decide +kernel

theorem lateSpace_wellFormed : lateSpace.tree.WellFormed := by decide

theorem isProtected_late : Path.isProtected (Path.ofNames ["a.rb"]) = false := by
  rw [Path.isProtected_eq]
  decide

theorem decode?_late : Text.decode? (Text.encode lateText) = some lateText :=
  Text.decode?_encode_of_notMem (by decide)

theorem exists_upgrade_lateSpace :
    ∃ first w₁, Run.exec (upgrade ⟨[], "."⟩ .stock lateOptions) lateSpace = (.ok first, w₁) :=
  exists_upgrade_stock lateSpace_wellFormed rfl rfl (by decide)

/-- The second run changes the file once more. -/
theorem rerun_late : ∃ first w₁ second w₂,
    Run.exec (upgrade ⟨[], "."⟩ .stock lateOptions) lateSpace = (.ok first, w₁) ∧
      Run.exec (upgrade ⟨[], "."⟩ .stock lateOptions) w₁ = (.ok second, w₂) ∧
      "a.rb" ∈ second.changed := by
  obtain ⟨first, w₁, hfirst⟩ := exists_upgrade_lateSpace
  obtain ⟨second, w₂, hsecond, -, -, hfiles⟩ := exists_rerun lateSpace_wellFormed rfl rfl rfl hfirst
  refine ⟨first, w₁, second, w₂, hfirst, hsecond, ?_⟩
  obtain ⟨result, again, hresult, hagain, -, -, hiff⟩ := hfiles ["a.rb"] (Text.encode lateText) rfl
  apply (hiff (by decide)).mpr
  intro hnone
  have hidle := (rewritten_again_iff hresult hagain).mp hnone lateText isProtected_late decode?_late
  obtain ⟨source, hdue, hreview, hchange⟩ := exists_late_source
  exact hchange (stockRepaired_eq_iff.mp hidle source hdue hreview)

/-- The condition at this file: a repair is due that does not leave the new text alone. -/
theorem rerun_idle_iff_late : ∃ first w₁ second w₂,
    Run.exec (upgrade ⟨[], "."⟩ .stock lateOptions) lateSpace = (.ok first, w₁) ∧
      Run.exec (upgrade ⟨[], "."⟩ .stock lateOptions) w₁ = (.ok second, w₂) ∧
      second.changed ≠ [] := by
  obtain ⟨first, w₁, hfirst⟩ := exists_upgrade_lateSpace
  obtain ⟨second, w₂, hsecond, hiff, -⟩ := rerun_idle_iff lateSpace_wellFormed rfl rfl rfl hfirst
  refine ⟨first, w₁, second, w₂, hfirst, hsecond, fun hnone => ?_⟩
  have hidle := hiff.mp hnone ["a.rb"] (Text.encode lateText) lateText rfl isProtected_late
    decode?_late
  obtain ⟨source, hdue, hreview, hchange⟩ := exists_late_source
  exact hchange (hidle source hdue hreview)

end RailsUpgrade.Project
