import RailsUpgrade.Proofs.Rerun
import RailsUpgrade.Proofs.Utf8

/-!
# `RailsUpgrade.Proofs.RoundTrip`: texts that are written and read back

Reading turns every line ending into a line feed, so a text comes back as it was exactly if it has no
carriage return. The repairs of the library put in none. What an upgrade makes of a text is therefore
what is read back, and a file is written only if its text has become another one: otherwise the
carriage returns in it stay.

* `Text.unixNewlines_eq`: what reading makes of line endings, in two steps;
* `Tree.read_of_write`: what is read back from a file that was written;
* `upgrade_stock_cases`: an upgrade writes nothing, or it has an outcome;
* `texts_come_back`: the round trip of a text, of bytes, and of the files that an upgrade has rewritten
  or kept.
-/

set_option autoImplicit false

namespace RailsUpgrade

/-! ### Line endings -/

namespace Text

theorem unixNewlines_eq_self_iff {s : List Char} : unixNewlines s = s ↔ '\r' ∉ s := by
  constructor
  · intro h
    rw [← h]
    exact return_notMem_unixNewlines s
  · exact unixNewlines_of_notMem

/-- A character in front of the first piece stands in front of the whole text. -/
theorem join_front (sep : List Char) (c : Char) (piece : List Char) (more : List (List Char)) :
    join sep ((c :: piece) :: more) = c :: join sep (piece :: more) := by
  cases more <;> rfl

/-- A carriage return and a line feed become a line feed, and then every carriage return that is left
does. -/
theorem unixNewlines_eq (s : List Char) : unixNewlines s =
    (join ['\n'] (splitOn ['\r', '\n'] s)).map fun c => if c = '\r' then '\n' else c := by
  show _ = (join ['\n'] (splitPart '\r' ['\n'] 0 s)).map _
  fun_induction unixNewlines s with
  | case1 => rfl
  | case2 rest ih =>
    have hcut : splitPart '\r' ['\n'] 0 ('\r' :: '\n' :: rest) =
        [] :: splitPart '\r' ['\n'] 0 rest := rfl
    rw [hcut, join_cons _ _ (splitPart_ne_nil _ _ _ _), ih]
    rfl
  | case3 c rest hpair ih =>
    have hcut : (c == '\r' && (stripLead? ['\n'] rest).isSome) = false := by
      by_contra hcut
      rw [Bool.not_eq_false, Bool.and_eq_true, beq_iff_eq] at hcut
      exact hpair _ hcut.1 (eq_append_of_stripLead? hcut.2)
    obtain ⟨piece, more, hpieces⟩ :=
      List.exists_cons_of_ne_nil (splitPart_ne_nil '\r' ['\n'] 0 rest)
    rw [splitPart, hcut, if_neg Bool.false_ne_true]
    simp only [hpieces]
    rw [join_front, List.map_cons, ih, hpieces]
    simp only [beq_iff_eq]

end Text

/-! ### Files that were written -/

/-- What was written to a file is read back with line feeds only. -/
theorem Tree.read_of_write {t t' : Tree} {root : Root} {names : List String} {text : List Char}
    {place : Place} (ht : t.WellFormed) (hne : names ≠ [])
    (hnames : ∀ name ∈ names, Path.IsName name)
    (h : t.write root (Path.ofNames names) text = .ok (t', place)) :
    t'.read root (Path.ofNames names) = .ok (Text.unixNewlines text) := by
  obtain ⟨ht', hfiles⟩ := write_eq_ok ht hne hnames h
  have hfile := hfiles (root.place ++ names)
  rw [if_pos rfl] at hfile
  rw [read_of_look (look_of_file? ht' hne hfile), Text.decode?_encode]

namespace Project

variable {root : Root} {o : Options} {w w' : Workspace} {ending : Except Failure Outcome}

/-- An upgrade with the rules of the library fails before it has written anything, or it is a dry run
and tells no changes, or it has an outcome. -/
theorem upgrade_stock_cases (ht : w.tree.WellFormed) (ho : o.repairsOnly = true)
    (h : Run.exec (upgrade root .stock o) w = (ending, w')) :
    (w'.tree = w.tree ∧ ∀ outcome, ending = .ok outcome → outcome.changed = []) ∨
      (o.dryRun = false ∧ ∃ outcome, ending = .ok outcome) := by
  obtain ⟨notices, hrun⟩ := exec_upgrade .stock root o w
  rw [h] at hrun
  cases hlong : Registry.stock.detections.findSome?
      (overlong? (some (targetOf w.tree root o))) with
  | some number =>
    rw [hlong] at hrun
    cases hrun
    exact .inl ⟨rfl, fun _ hok => by cases hok⟩
  | none =>
    cases hdry : o.dryRun with
    | true =>
      rw [hlong, repair, if_pos hdry] at hrun
      cases hrun
      refine .inl ⟨rfl, fun outcome hok => ?_⟩
      exact changed_of_dryRun hdry (h.trans (by rw [hok]))
    | false =>
      obtain ⟨outcome, w₁, hok⟩ := exists_upgrade_stock ht ho hdry hlong
      rw [h] at hok
      exact .inr ⟨rfl, outcome, congrArg Prod.fst hok⟩

/-- The text that the repairs of the library make of a file. -/
def stockText (o : Options) (t : Tree) (root : Root) (names : List String) (text : List Char) :
    Except Pattern.TemplateError (List Char) :=
  repaired .stock o.safeMode (dueSources .stock (targetOf t root o) names text) text

theorem stockText_eq (o : Options) (t : Tree) (root : Root) (names : List String)
    (text : List Char) :
    stockText o t root names text =
      .ok (stockRepaired o.safeMode (targetOf t root o) names text) :=
  repaired_stock _ _ _

section
variable {outcome : Outcome} {names : List String} {bytes : ByteArray} (ht : w.tree.WellFormed)
  (ho : o.repairsOnly = true) (h : Run.exec (upgrade root .stock o) w = (.ok outcome, w'))
  (hne : names ≠ []) (hfile : w.tree.file? (root.place ++ names) = some bytes)
include ht ho h hne hfile

/-- A file is told to have changed if the repairs make another text of it. -/
theorem changed_iff : Path.ofNames names ∈ outcome.changed ↔
    o.dryRun = false ∧ Path.isProtected (Path.ofNames names) = false ∧
      ∃ text, Text.decode? bytes = some text ∧ stockText o w.tree root names text ≠ .ok text := by
  cases hdry : o.dryRun with
  | true => simp [changed_of_dryRun hdry h]
  | false =>
    obtain ⟨-, -, -, hfiles⟩ := upgrade_files ht isPlain_stock ho hdry h
    obtain ⟨result, hresult, -, hchanged⟩ := hfiles names bytes hfile
    rw [hchanged hne]
    by_cases hpassed : Path.isProtected (Path.ofNames names) = true ∨ Text.decode? bytes = none
    · rw [upgradedBytes_of_passed _ _ _ hpassed] at hresult
      cases hresult
      obtain hprotected | hdecode := hpassed
      · simp [hprotected]
      · simp [hdecode]
    · rw [not_or, Bool.not_eq_true] at hpassed
      obtain ⟨hopen, hsome⟩ := hpassed
      obtain ⟨text, hdecode⟩ := Option.ne_none_iff_exists'.mp hsome
      rw [upgradedBytes_stock hopen hdecode] at hresult
      cases hresult
      simp [hopen, hdecode, stockText_eq]

/-- What is read back from a file that has changed is the text that was made of it. -/
theorem read_changed (hmem : Path.ofNames names ∈ outcome.changed) :
    ∃ text new, Text.decode? bytes = some text ∧ stockText o w.tree root names text = .ok new ∧
      new ≠ text ∧ w'.tree.read root (Path.ofNames names) = .ok new := by
  obtain ⟨hdry, hopen, text, hdecode, hnew⟩ := (changed_iff ht ho h hne hfile).mp hmem
  obtain ⟨ht', -, -, hfiles⟩ := upgrade_files ht isPlain_stock ho hdry h
  obtain ⟨result, hresult, hfile', -⟩ := hfiles names bytes hfile
  rw [upgradedBytes_stock hopen hdecode] at hresult
  cases hresult
  refine ⟨text, _, hdecode, stockText_eq _ _ _ _ _, fun hsame => ?_, ?_⟩
  · rw [stockText_eq, hsame] at hnew
    exact hnew rfl
  · rw [Tree.read_of_look (Tree.look_of_file? ht' hne hfile'), decode?_stockRepaired hdecode]

/-- A file that has not changed keeps its bytes. -/
theorem file?_of_not_changed (hmem : Path.ofNames names ∉ outcome.changed) :
    w'.tree.file? (root.place ++ names) = some bytes := by
  obtain ⟨htree, -⟩ | ⟨hdry, -⟩ := upgrade_stock_cases ht ho h
  · rw [htree, hfile]
  · obtain ⟨-, -, -, hfiles⟩ := upgrade_files ht isPlain_stock ho hdry h
    obtain ⟨result, -, hfile', hchanged⟩ := hfiles names bytes hfile
    rw [hchanged hne, not_ne_iff] at hmem
    rw [hfile', hmem, Option.getD_none]

end

/-- Texts come back. A text that is written is read with line feeds only, so it is the same exactly if
it has no carriage return. Bytes are read unless they are not strict, and then without carriage returns.
An upgrade with the rules of the library that asks for no updates tells of files that there are; what
is read back from one that it tells to have changed is the text that the repairs have made of the one
before, and every other file keeps its bytes. If it fails, all do. -/
theorem texts_come_back :
    (∀ c : List Char,
      Text.decode? (Text.encode c) = some (Text.unixNewlines c) ∧
      Text.unixNewlines c = (Text.join ['\n'] (Text.splitOn ['\r', '\n'] c)).map
        (fun x => if x = '\r' then '\n' else x) ∧
      (Text.decode? (Text.encode c) = some c ↔ '\r' ∉ c)) ∧
    (∀ (t t' : Tree) (root : Root) (names : List String) (c : List Char) (place : Place),
      t.WellFormed → names ≠ [] → (∀ name ∈ names, Path.IsName name) →
      t.write root (Path.ofNames names) c = .ok (t', place) →
      t'.read root (Path.ofNames names) = .ok (Text.unixNewlines c)) ∧
    (∀ bytes : ByteArray,
      (Text.decode? bytes = none ↔ ¬ Text.Utf8.Strict bytes.data.toList) ∧
      (¬ Text.Utf8.Strict bytes.data.toList ↔ ∃ front rest, bytes.data.toList = front ++ rest ∧
        Text.Utf8.Strict front ∧ Text.Utf8.Fault rest) ∧
      ∀ text, Text.decode? bytes = some text → '\r' ∉ text) ∧
    ∀ (root : Root) (o : Options) (w w' : Workspace) (ending : Except Failure Outcome),
      w.tree.WellFormed → o.repairsOnly = true →
      Run.exec (upgrade root .stock o) w = (ending, w') →
      (∀ outcome, ending = .ok outcome →
        (∀ file ∈ outcome.changed, ∃ names, file = Path.ofNames names ∧ names ≠ [] ∧
          (w.tree.file? (root.place ++ names)).isSome) ∧
        ∀ names bytes, names ≠ [] → w.tree.file? (root.place ++ names) = some bytes →
          (Path.ofNames names ∈ outcome.changed ↔
            o.dryRun = false ∧ Path.isProtected (Path.ofNames names) = false ∧
              ∃ text, Text.decode? bytes = some text ∧
                stockText o w.tree root names text ≠ .ok text) ∧
          (Path.ofNames names ∈ outcome.changed →
            ∃ text new, Text.decode? bytes = some text ∧
              stockText o w.tree root names text = .ok new ∧ new ≠ text ∧
              w'.tree.read root (Path.ofNames names) = .ok new) ∧
          (Path.ofNames names ∉ outcome.changed →
            w'.tree.file? (root.place ++ names) = some bytes)) ∧
      ∀ failure, ending = .error failure → w'.tree = w.tree := by
  refine ⟨fun c => ⟨Text.decode?_encode c, Text.unixNewlines_eq c, ?_⟩,
    fun t t' root names c place ht hne hnames h => Tree.read_of_write ht hne hnames h,
    fun bytes => ⟨Text.Utf8.decode?_eq_none_iff, Text.Utf8.not_strict_iff,
      fun text => Text.return_notMem_of_decode?⟩,
    fun root o w w' ending ht ho h => ⟨?_, ?_⟩⟩
  · rw [Text.decode?_encode, Option.some_inj, Text.unixNewlines_eq_self_iff]
  · rintro outcome rfl
    refine ⟨?_, fun names bytes hne hfile => ⟨changed_iff ht ho h hne hfile,
      read_changed ht ho h hne hfile, file?_of_not_changed ht ho h hne hfile⟩⟩
    intro file hmem
    -- The run either stopped before any repair, with nothing changed, or was no dry run and went through.
    obtain ⟨-, hnone⟩ | ⟨hdry, -⟩ := upgrade_stock_cases ht ho h
    · rw [hnone outcome rfl] at hmem
      cases hmem
    · exact (upgrade_files ht isPlain_stock ho hdry h).2.2.1 file hmem
  · rintro failure rfl
    obtain ⟨htree, -⟩ | ⟨-, outcome, hok⟩ := upgrade_stock_cases ht ho h
    · exact htree
    · cases hok

/-- Nothing is due in a file that no glob covers. -/
theorem dueSources_of_not_covers {registry : Registry} {names : List String}
    (h : ∀ d ∈ registry.detections, Glob.covers d.glob names = false) (target : String)
    (text : List Char) : dueSources registry target names text = [] := by
  have hnone : (registry.detections.filter fun d => d.isActive (some target) &&
      Glob.covers d.glob names && d.pattern.found text) = [] := by
    rw [List.filter_eq_nil_iff]
    intro d hd
    simp [h d hd]
  rw [dueSources, hnone]
  rfl

/-- A file with carriage returns that repairs are due in, and one that is no Ruby. -/
def returnSpace : Workspace where
  tree := { files :=
    [(["a.rb"], Text.encode "module API.each\r\nApi.present?\r\n".toList),
     (["notes.txt"], Text.encode "Api.present?\r\n".toList)] }

theorem dueSources_notes (text : List Char) :
    dueSources .stock "5.0.0" ["notes.txt"] text = [] := by
  have hglobs : ∀ glob ∈ distinct (Registry.stock.detections.map Detection.glob),
      Glob.covers glob ["notes.txt"] = false := by decide +kernel
  exact dueSources_of_not_covers
    (fun d hd => hglobs _ ((mem_distinct _ _).mpr (List.mem_map_of_mem hd))) _ _

/-- The upgrade rewrites the first file with line feeds and leaves the other one as it is. -/
theorem texts_come_back_return : ∃ outcome w',
    Run.exec (upgrade ⟨[], "."⟩ .stock lateOptions) returnSpace = (.ok outcome, w') ∧
      w'.tree.read ⟨[], "."⟩ "a.rb" = .ok lateText' ∧
      w'.tree.file? ["notes.txt"] = some (Text.encode "Api.present?\r\n".toList) := by
  have ht : returnSpace.tree.WellFormed := by decide
  obtain ⟨outcome, w', h⟩ : ∃ outcome w',
      Run.exec (upgrade ⟨[], "."⟩ .stock lateOptions) returnSpace = (.ok outcome, w') :=
    exists_upgrade_stock ht rfl rfl (by decide)
  obtain ⟨-, -, -, hupgrade⟩ := texts_come_back
  obtain ⟨-, hfiles⟩ := (hupgrade ⟨[], "."⟩ lateOptions returnSpace w' _ ht rfl h).1 outcome rfl
  refine ⟨outcome, w', h, ?_, ?_⟩
  · obtain ⟨hchanged, hread, -⟩ := hfiles ["a.rb"] _ (by decide) rfl
    have hdecode : Text.decode? (Text.encode "module API.each\r\nApi.present?\r\n".toList) =
        some lateText := by
      rw [Text.decode?_encode]
      decide
    have hnew : stockText lateOptions returnSpace.tree ⟨[], "."⟩ ["a.rb"] lateText =
        .ok lateText' := by
      rw [stockText_eq]
      exact congrArg Except.ok stockRepaired_lateText
    obtain ⟨text, new, htext, hmade, -, hback⟩ := hread (hchanged.mpr
      ⟨rfl, isProtected_late, lateText, hdecode, by rw [hnew]; decide⟩)
    obtain rfl := Option.some.inj (hdecode.symm.trans htext)
    obtain rfl := Except.ok.inj (hnew.symm.trans hmade)
    exact hback
  · obtain ⟨hchanged, -, hkept⟩ := hfiles ["notes.txt"] _ (by decide) rfl
    apply hkept
    rw [hchanged]
    rintro ⟨-, -, text, -, hnew⟩
    apply hnew
    show repaired .stock _ (dueSources .stock "5.0.0" _ _) _ = _
    rw [dueSources_notes]
    rfl

end Project

end RailsUpgrade
