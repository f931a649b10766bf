import RailsUpgrade.Proofs.LeftReferences

/-!
# `RailsUpgrade.Proofs.SecondRun`: updating namespaces a second time

After an update of namespaces a second one finds the same jobs. The module has its new name, and no
redirected reference brings the old one back; a class that has moved has left a stub, which stays one.
What is left to do are the classes that the first update did not find: a later move may have redirected
a reference in the file of such a class, and then the class can be found.

* `mem_wordsOf_pass`: redirecting references makes no words but those of the new name;
* `IsRenamed`, `isRenamed_leftBy`: files of the API stay without the old name of the module;
* `IsStub`, `not_movable_of_mem_movesOf`: a class that has moved is not found again;
* `updateNamespaces_again_iff`: when a second update does nothing, for any new names;
* `second_update_idle_iff`: the same where no new name has the old name of the module.
-/

set_option autoImplicit false

namespace RailsUpgrade

/-! ### Words on both sides of an edge -/

namespace Text

open Pattern (startsWithWord)

variable {s t word : List Char}

/-- No word goes on from one text into another: it ends before the border, or none begins there. -/
def Edge (s t : List Char) : Prop :=
  startsWithWord false s.reverse = false ∨ startsWithWord false t = false

theorem wordsOf_append_cons {c : Char} (hc : isWord c = false) (s t : List Char) :
    wordsOf (s ++ c :: t) = wordsOf s ++ wordsOf t :=
  List.splitOnP_append_cons s t (by simpa using hc)

/-- The words on both sides of an edge are the words of the two texts. -/
theorem mem_wordsOf_append (hne : word ≠ []) (h : Edge s t) :
    word ∈ wordsOf (s ++ t) ↔ word ∈ wordsOf s ∨ word ∈ wordsOf t := by
  have hnil : word ∉ wordsOf [] := by simpa [wordsOf] using hne
  have hcons : ∀ {c : Char} (t : List Char), isWord c = false →
      (word ∈ wordsOf (c :: t) ↔ word ∈ wordsOf t) := fun {c} t hc => by
    have hwords := wordsOf_append_cons hc [] t
    rw [List.nil_append] at hwords
    rw [hwords, List.mem_append, or_iff_right hnil]
  rcases h with hends | hstarts
  · rcases List.eq_nil_or_concat' s with rfl | ⟨front, c, rfl⟩
    · simp [hnil]
    · have hc : isWord c = false := by
        rw [List.reverse_append] at hends
        exact hends
      rw [List.append_assoc, List.singleton_append, wordsOf_append_cons hc, wordsOf_append_cons hc,
        List.mem_append, List.mem_append, or_iff_left hnil]
  · cases t with
    | nil => simp [hnil]
    | cons c t =>
      have hc : isWord c = false := hstarts
      rw [wordsOf_append_cons hc, List.mem_append, hcons t hc]

/-- A word of a text stands between two edges. -/
theorem exists_of_mem_wordsOf (h : word ∈ wordsOf s) : ∃ front after, s = front ++ (word ++ after) ∧
    startsWithWord false front.reverse = false ∧ startsWithWord false after = false := by
  induction hlength : s.length using Nat.strong_induction_on generalizing s with
  | _ n ih =>
    have hsplit := (List.takeWhile_append_dropWhile (p := isWord) (l := s)).symm
    cases hrest : s.dropWhile isWord with
    | nil =>
      -- The whole text is one word.
      rw [hrest, List.append_nil] at hsplit
      have hall : ∀ c ∈ s, isWord c = true := List.takeWhile_eq_self_iff.mp hsplit.symm
      rw [wordsOf, List.splitOnP_eq_singleton (by simpa using hall), List.mem_singleton] at h
      exact ⟨[], [], by simp [h], rfl, rfl⟩
    | cons c t =>
      rw [hrest] at hsplit
      have hc : isWord c = false := by
        have hhead := List.head?_dropWhile_not isWord s
        simpa [hrest] using hhead
      have hwords : wordsOf s = s.takeWhile isWord :: wordsOf t := by
        have hall : ∀ x ∈ s.takeWhile isWord, (!isWord x) = false := by
          simpa using fun x hx => List.mem_takeWhile_imp hx
        have hstop := List.splitOnP_append_cons_of_forall_mem hall c (by simpa using hc) t
        rw [wordsOf]
        conv_lhs => rw [hsplit]
        exact hstop
      rw [hwords, List.mem_cons] at h
      rcases h with rfl | hmem
      · exact ⟨[], c :: t, hsplit, rfl, hc⟩
      · have hshort : t.length < n := by
          have hlen := congrArg List.length hsplit
          simp only [List.length_append, List.length_cons] at hlen
          omega
        obtain ⟨front, after, rfl, hfront, hafter⟩ := ih _ hshort hmem rfl
        refine ⟨s.takeWhile isWord ++ c :: front, after, by simpa using hsplit, ?_, hafter⟩
        rw [List.reverse_append, List.reverse_cons]
        cases hback : front.reverse with
        | nil => exact hc
        | cons d back =>
          rw [hback] at hfront
          exact hfront

end Text

/-! ### Redirecting keeps words out -/

namespace Relocation

open Pattern (Pass startsWithWord)
open Text (Edge wordsOf)

variable {r : Relocation} {before after text result fill word : List Char}

/-- A reference ends at an edge. -/
theorem Refers.edge_after (h : r.Refers before after) (hne : r.oldConstant.toList ≠ []) :
    Edge r.oldConstant.toList after := by
  have hedge := h.edge
  rw [startsWithWord_append (List.reverse_ne_nil_iff.mpr hne)] at hedge
  cases hafter : startsWithWord false after with
  | false => exact .inr hafter
  | true => exact .inl (by simpa [hafter] using hedge)

variable (hold : startsWithWord false r.oldConstant.toList = true)
  (hlast : startsWithWord false r.oldConstant.toList.reverse = true ∨
    fill.getLast? = r.oldConstant.toList.getLast?)

include hold hlast

/-- The text that is put in place of a reference ends at an edge, too. -/
theorem Refers.edge_fill (h : r.Refers before after)
    (hpass : Pass (r.swapped fill) (r.oldConstant.toList.reverse ++ before) after result) :
    Edge fill result := by
  have hne : r.oldConstant.toList ≠ [] := by
    intro hnil
    rw [hnil] at hold
    cases hold
  rcases h.edge_after hne with hends | hstarts
  · -- Both texts end with the same character, which is of no word.
    have hsame := hlast.resolve_left (by simp [hends])
    left
    rwa [startsWithWord, List.head?_reverse, hsame, ← List.head?_reverse]
  · exact .inr (startsWithWord_of_pass hold hpass hstarts)

/-- A word that a pass makes was there before, or it is one of the text that is put in. -/
theorem mem_wordsOf_pass (hword : word ≠ []) (hpass : Pass (r.swapped fill) before text result)
    (front : List Char)
    (hfront : startsWithWord false before = false → startsWithWord false front.reverse = false)
    (h : word ∈ wordsOf (front ++ result)) : word ∈ wordsOf (front ++ text) ∨ word ∈ wordsOf fill := by
  induction hpass generalizing front with
  | done before => exact .inl h
  | @keep before rest result x _ _ ih =>
    have hnext := ih (front ++ [x]) (by simp [startsWithWord]) (by simpa using h)
    simpa using hnext
  -- At a hit no word reaches over its edges, so that the three parts can be looked at one by one.
  | @hit before taken after new result takes hswap hmore ih =>
    obtain ⟨rfl, hrefers, rfl⟩ := hswap
    have hfree := hfront (startsWithWord_of_free hrefers.free)
    rw [Text.mem_wordsOf_append hword (.inl hfree),
      Text.mem_wordsOf_append hword (hrefers.edge_fill hold hlast hmore)] at h
    rw [Text.mem_wordsOf_append hword (.inl hfree),
      Text.mem_wordsOf_append hword (hrefers.edge_after takes)]
    rcases h with hleft | hnew | hrest
    · exact .inl (.inl hleft)
    · exact .inr hnew
    · rcases ih [] (fun _ => rfl) hrest with hthere | hnew
      · exact .inl (.inr (.inr hthere))
      · exact .inr hnew

end Relocation

/-! ### The new name of the module -/

namespace Project

open Pattern (Pass Swap Anchor startsWithWord mem_ends_seq mem_ends_anchor mem_ends_chars canTake_seq
  canTake_chars canTake_anchor)
open Text (wordsOf)

/-- The module, as a class that has no file. -/
def apiMove : Relocation := ⟨"", "", "API", "Api", false⟩

theorem apart_apiMove : apiMove.Apart "API".toList [] "Api".toList [] where
  old_eq := by decide
  new_eq := by decide
  isWord := by decide
  first_notMem := by decide
  lead_notMem := by decide

theorem apiName_expr : apiName.expr = .seq (.anchor (.wordEdge false))
    (.chars "API" (.anchor (.wordEdge false))) :=
  Pattern.expr_fixed String.toList_ofList (by decide)

/-- The old name of the module is found where it is a word. -/
theorem refers_apiMove {before after : List Char} : apiMove.Refers before after ↔
    startsWithWord false before = false ∧ startsWithWord false after = false := by
  have hguard : apiMove.guard.mem = Text.isWord := by
    funext x
    simp [Relocation.mem_guard, apiMove]
  have hend : startsWithWord false apiMove.oldConstant.toList.reverse = true := by decide
  rw [apart_apiMove.clear.refers_iff, hguard, hend]
  exact Iff.rfl

theorem swaps_apiName :
    apiName.expr.Swaps (fun _ => "Api".toList) (apiMove.swapped "Api".toList) where
  sound := by
    intro before after pos c hc
    obtain ⟨c₁, h₁, h₂⟩ := mem_ends_seq.mp (apiName_expr ▸ List.mem_of_mem_head? hc)
    obtain ⟨rfl, hbefore⟩ := mem_ends_anchor.mp h₁
    obtain ⟨mid, htakes, hmid⟩ := mem_ends_chars h₂
    obtain ⟨rfl, hafter⟩ := mem_ends_anchor.mp hmid
    have hthere : after = 'A' :: ("PI".toList ++ c.after) := htakes.after
    have hback : c.before = 'I' :: ("PA".toList ++ before) := htakes.before
    refine ⟨_, by decide, htakes, rfl, refers_apiMove.mpr ⟨?_, ?_⟩, rfl⟩
    -- The two word edges, with a letter on the inner side, say that no letter is on the outer one.
    · have hstarts : startsWithWord false after = true := by rw [hthere]; rfl
      rw [Anchor.holds, hstarts] at hbefore
      simpa using hbefore
    · have hends : startsWithWord false c.before = true := by rw [hback]; rfl
      rw [Anchor.holds, hends] at hafter
      simpa using hafter
  complete := by
    rintro before taken after new pos ⟨rfl, hrefers, -⟩ hnone
    obtain ⟨hbefore, hafter⟩ := refers_apiMove.mp hrefers
    have hcan : apiName.expr.CanTake before ([] ++ ("API".toList ++ [])) after := by
      rw [apiName_expr]
      refine canTake_seq (canTake_anchor ?_) (canTake_chars (canTake_anchor ?_))
      · rintro c rfl hc
        rw [Anchor.holds, hbefore, hc]
        rfl
      · rintro c hc rfl
        rw [Anchor.holds, hafter, hc]
        rfl
    obtain ⟨c, hmem, -⟩ := hcan { before, after := "API".toList ++ after, pos } rfl rfl
    have hsame : apiMove.oldConstant.toList = "API".toList := rfl
    rw [hsame] at hnone
    rw [hnone] at hmem
    cases hmem

open Run (edited?)

variable {root : Root} {r : Relocation} {o : Options} {t : Tree} {w w' : Workspace}
  {names : List String} {written : List String} {text : List Char} {bytes : ByteArray}

/-! ### Files without the old name of the module -/

theorem renameApiIn_eq_self (h : "API".toList ∉ wordsOf text) : renameApiIn text = text := by
  refine (Pattern.pass_replaceAll swaps_apiName text).eq_self fun lead taken after new htext hswap => ?_
  obtain ⟨rfl, hrefers, rfl⟩ := hswap
  obtain ⟨hbefore, hafter⟩ := refers_apiMove.mp hrefers
  rw [List.append_nil] at hbefore
  obtain ⟨words, more, hwords, -⟩ :=
    Text.wordsOf_append (apiMove.oldConstant.toList ++ after) hbefore
  have hword : (apiMove.oldConstant.toList ++ after).takeWhile Text.isWord = "API".toList :=
    takeWhile_append_of_startsWithWord hafter
  refine absurd ?_ h
  rw [htext, hwords, hword]
  simp

theorem notMem_wordsOf_renameApiIn (text : List Char) : "API".toList ∉ wordsOf (renameApiIn text) := by
  intro hmem
  obtain ⟨front, after, hresult, hfront, hafter⟩ := Text.exists_of_mem_wordsOf hmem
  have hrefers : apiMove.Refers (front.reverse ++ []) after :=
    refers_apiMove.mpr ⟨by rwa [List.append_nil], hafter⟩
  exact apart_apiMove.clear.not_refers_of_pass (Pattern.pass_replaceAll swaps_apiName text) [] front
    (fun _ => rfl) hresult hrefers

/-- A file whose text, if it can be read, does not have the old name of the module. -/
def IsRenamed (bytes : ByteArray) : Prop :=
  ∀ text, Text.decode? bytes = some text → "API".toList ∉ wordsOf text

theorem IsRenamed.edited?_eq_none (h : IsRenamed bytes) : edited? apiRenaming bytes = none := by
  rw [edited?, Option.bind_eq_none_iff]
  intro text hdecode
  rw [apiRenaming, renameApiIn_eq_self (h text hdecode)]
  exact if_pos rfl

theorem isRenamed_edited (bytes : ByteArray) :
    IsRenamed ((edited? apiRenaming bytes).getD bytes) := by
  intro text htext
  cases hdecode : Text.decode? bytes with
  | none =>
    rw [edited?, hdecode, Option.bind_none, Option.getD_none, hdecode] at htext
    cases htext
  | some old =>
    have hold := Text.return_notMem_of_decode? hdecode
    have hkept : '\r' ∉ renameApiIn old :=
      (Pattern.pass_replaceAll swaps_apiName old).notMem hold fun before taken after new hswap => by
        rw [hswap.2.2]
        decide
    have hchange : apiRenaming old = .ok (renameApiIn old) := rfl
    rw [decode?_edited hdecode hchange hkept] at htext
    rw [← Option.some.inj htext]
    exact notMem_wordsOf_renameApiIn old

/-- Redirecting references to other classes does not bring the old name of the module back. -/
theorem IsRenamed.leaves (h : IsRenamed bytes) (hr : Asked o r)
    (hplain : '\\' ∉ r.newConstant.toList) (hnew : "API".toList ∉ wordsOf r.newConstant.toList)
    (hsource : r.source ≠ Path.ofNames names) : IsRenamed (leaves r names bytes) := by
  rw [Project.leaves, if_neg hsource]
  split
  · intro text htext
    obtain ⟨old, hdecode, hredirect⟩ := redirect_of_edited hr hplain htext
    obtain ⟨fill, hfill, hpass⟩ := Relocation.pass_of_redirect hr.old_ne hredirect
    rw [Relocation.replacement?_of_notMem hplain] at hfill
    cases hfill
    intro hmem
    rcases Relocation.mem_wordsOf_pass hr.old_starts hr.last (by decide) hpass [] (fun _ => rfl) hmem
      with hold | hword
    · exact h old hdecode hold
    · exact hnew hword
  · exact h

theorem apiGlobs_subset (o : Options) : apiGlobs o ⊆ apiFiles := by
  unfold apiGlobs
  split
  · exact List.Subset.refl _
  · exact List.nil_subset _

/-- No job is where the API is. -/
theorem renamed?_jobs (o : Options) (rest : List String) (bytes : ByteArray) :
    renamed? (apiGlobs o) ("app" :: "jobs" :: rest) bytes = none := by
  have hcovers : ∀ glob ∈ apiFiles, Glob.covers glob ("app" :: "jobs" :: rest) = false := by
    intro glob hglob
    simp only [apiFiles, List.mem_cons, List.not_mem_nil, or_false] at hglob
    obtain rfl | rfl | rfl | rfl := hglob <;> rfl
  rw [renamed?, if_neg]
  rw [List.any_eq_true]
  rintro ⟨glob, hglob, hcovered⟩
  rw [hcovers glob (apiGlobs_subset o hglob)] at hcovered
  cases hcovered

theorem Asked.source_jobs (h : Asked o r) : ∃ rest, Path.AreNames ("app" :: "jobs" :: rest) ∧
    r.source = Path.ofNames ("app" :: "jobs" :: rest) := by
  cases h with
  | stock names _ hnames hcovers =>
    obtain ⟨name, rfl, -⟩ := covers_stockJobs hcovers
    exact ⟨_, hnames, rfl⟩
  | order kind names _ hkind hnames hcovers =>
    obtain ⟨name, rfl, -⟩ := covers_orderJobs hkind hcovers
    exact ⟨_, hnames, rfl⟩
  | pos _ => exact ⟨["check_job.rb"], ⟨by decide, by decide⟩, by decide⟩

/-! ### Stubs that stay stubs -/

/-- A file that begins as stubs do, if it can be read. -/
def IsStub (bytes : ByteArray) : Prop :=
  ∀ text, Text.decode? bytes = some text → Relocation.stubHeader.toList <+: text

theorem isStub_encode (h : Relocation.stubHeader.toList <+: text) : IsStub (Text.encode text) := by
  obtain ⟨rest, rfl⟩ := h
  intro text htext
  rw [Text.decode?_encode, Text.unixNewlines_append (by decide)] at htext
  rw [← Option.some.inj htext]
  exact List.prefix_append _ _

theorem isStub_stub (r : Relocation) : IsStub (Text.encode r.stub.toList) := by
  refine isStub_encode ?_
  simp [Relocation.stub, Relocation.ofLines, String.toList_intercalate]

/-- Old names begin with a character that the beginning of stubs does not have. -/
theorem Asked.exists_cons (h : Asked o r) : ∃ x, x ∉ Relocation.stubHeader.toList ∧
    ∃ rest, r.oldConstant.toList = x :: rest := by
  have hleads : ∀ lead ∈ oldLeads, lead.head?.any (!Relocation.stubHeader.toList.contains ·) = true := by
    decide
  obtain ⟨⟨lead, hlead, rest, hold⟩, -⟩ := h.constants
  cases lead with
  | nil => exact absurd (hleads [] hlead) (by decide)
  | cons x lead => exact ⟨x, by simpa using hleads _ hlead, lead ++ rest, hold.symm⟩

/-- Redirecting references keeps the beginning of a stub: no old name begins in it. -/
theorem IsStub.leaves (h : IsStub bytes) (hr : Asked o r) (hsource : r.source ≠ Path.ofNames names) :
    IsStub (leaves r names bytes) := by
  rw [Project.leaves, if_neg hsource]
  split
  · cases hdecode : Text.decode? bytes with
    | none =>
      rw [edited?, hdecode]
      exact h
    | some text =>
      cases hnew : r.redirect text with
      | error e =>
        rw [edited?, hdecode, Option.bind_some, redirection, hnew]
        exact h
      | ok new =>
        have hedited : edited? (redirection r) bytes =
            if new = text then none else some (Text.encode new) := by
          rw [edited?, hdecode, Option.bind_some, redirection, hnew]
          rfl
        rw [hedited]
        split
        · exact h
        · refine isStub_encode ?_
          -- The header of a stub names nothing that the move renames, so that the pass skips over it.
          obtain ⟨rest, rfl⟩ := h text hdecode
          obtain ⟨fill, -, hpass⟩ := Relocation.pass_of_redirect hr.old_ne hnew
          obtain ⟨more, rfl, -⟩ := hpass.skip fun lead more taken after swapped hheader hmore htaken => by
            rintro ⟨rfl, -, -⟩
            obtain ⟨x, hx, tail, htail⟩ := hr.exists_cons
            rw [htail] at htaken
            obtain ⟨y, more, rfl⟩ := List.exists_cons_of_ne_nil hmore
            obtain ⟨rfl, -⟩ := List.cons_eq_cons.mp htaken
            exact hx (by simp [hheader])
          exact List.prefix_append _ _
  · exact h

/-- A class that an update has moved is not found again. -/
theorem not_movable_of_mem_movesOf (ht : w.tree.WellFormed)
    (h : Run.exec (updateNamespaces root o) w = (.ok written, w')) (hr : r ∈ movesOf root o w)
    (text : List Char) (c : ClassText) : ¬ Movable root r w'.tree text c := by
  intro hmovable
  obtain ⟨earlier, later, hmoves⟩ := List.append_of_mem hr
  obtain ⟨source, target, hnamed, -, hlater, -, hfile⟩ := file?_source_updateNamespaces ht h hmoves
  have hstub : IsStub (leftBy later source (Text.encode r.stub.toList)) :=
    List.foldlRecOn later _ (isStub_stub r) fun bytes hbytes r' hr' =>
      hbytes.leaves (hlater r' hr').1 (hlater r' hr').2
  have ht' := (file?_updateNamespaces ht h).1
  have hread := hmovable.read
  rw [hnamed.source_eq, Tree.read_of_look (Tree.look_of_file? ht' hnamed.source_ne hfile)] at hread
  cases hdecode : Text.decode? (leftBy later source (Text.encode r.stub.toList)) with
  | none =>
    rw [hdecode] at hread
    cases hread
  | some left =>
    rw [hdecode] at hread
    cases hread
    have hopen := hmovable.isOpen
    rw [List.isPrefixOf_iff_prefix.mpr (hstub _ hdecode)] at hopen
    cases hopen

/-! ### Moves that have nothing to do -/

/-- A move with a class tells its old file. -/
theorem source_mem_of_movable {c : ClassText} (h : Movable root r w.tree text c)
    (hrun : Run.exec (relocate root r) w = (.ok written, w')) : r.source ∈ written := by
  rw [relocate_of_movable h] at hrun
  obtain ⟨new, _, -, hrun⟩ := Run.exec_bind_eq_ok hrun
  obtain ⟨redirected, _, -, hrun⟩ := Run.exec_bind_eq_ok hrun
  obtain ⟨_, _, -, hrun⟩ := Run.exec_bind_eq_ok hrun
  obtain ⟨_, _, -, hrun⟩ := Run.exec_bind_eq_ok hrun
  have htold : new ++ redirected ++ [r.source] = written := Except.ok.inj (Prod.mk.inj hrun).1
  simp [← htold]

/-- Moves tell nothing and change nothing exactly if none of their classes is found. -/
theorem relocateAll_idle_iff {plan : List Relocation} :
    (∃ w', Run.exec (relocateAll root plan) w = (.ok [], w') ∧ w'.tree = w.tree) ↔
      ∀ r ∈ plan, ∀ text c, ¬ Movable root r w.tree text c := by
  induction plan generalizing w with
  | nil => exact iff_of_true ⟨w, rfl, rfl⟩ (by simp)
  | cons r plan ih =>
    rw [List.forall_mem_cons]
    rcases relocate_idle root r w with ⟨text, c, hmovable⟩ | ⟨-, notices, hidle⟩
    -- A move that is possible tells its own source, hence is never idle.
    · refine iff_of_false ?_ fun h => h.1 text c hmovable
      rintro ⟨w', hrun, -⟩
      rw [relocateAll] at hrun
      obtain ⟨told, w₁, hmove, hrest⟩ := Run.exec_bind_eq_ok hrun
      obtain ⟨more, w₂, -, hdone⟩ := Run.exec_bind_eq_ok hrest
      have htold : told ++ more = [] := Except.ok.inj (Prod.mk.inj hdone).1
      have hsource := source_mem_of_movable hmovable hmove
      rw [(List.append_eq_nil_iff.mp htold).1] at hsource
      cases hsource
    -- An idle move leaves the tree, so that the others find what they found before.
    · have hself : ∀ text c, ¬ Movable root r w.tree text c := fun text c hmovable => by
        have hsource := source_mem_of_movable hmovable hidle
        cases hsource
      have hstep : Run.exec (relocateAll root (r :: plan)) w =
          Run.exec (relocateAll root plan) { w with notices } := by
        rw [relocateAll, Run.exec_bind_of_ok hidle]
        simp
      rw [and_iff_right hself, hstep]
      exact ih (w := { w with notices })

/-! ### The second update -/

/-- After an update that ends, a second one tells nothing and changes nothing exactly if no file of the
API has the old name of the module, and no class is found that the first one has not moved. -/
theorem updateNamespaces_again_iff (ht : w.tree.WellFormed)
    (h : Run.exec (updateNamespaces root o) w = (.ok written, w')) :
    (∃ w'', Run.exec (updateNamespaces root o) w' = (.ok [], w'') ∧ w''.tree = w'.tree) ↔
      (∀ names bytes, Path.AreNames names → w'.tree.file? (root.place ++ names) = some bytes →
        renamed? (apiGlobs o) names bytes = none) ∧
      ∀ r ∈ askedPlan o w.tree root, r ∉ movesOf root o w →
        ∀ text c, ¬ Movable root r w'.tree text c := by
  obtain ⟨ht', hfiles⟩ := file?_updateNamespaces ht h
  -- The second update has the same plan: the jobs are where they were.
  have hplan : askedPlan o w'.tree root = askedPlan o w.tree root := by
    refine askedPlan_congr o ht' ht fun names hnames hplace => ?_
    rw [hfiles names hnames hplace, Option.isSome_map]
  have hleft : (∀ r ∈ askedPlan o w.tree root, r ∉ movesOf root o w →
        ∀ text c, ¬ Movable root r w'.tree text c) ↔
      ∀ r ∈ askedPlan o w.tree root, ∀ text c, ¬ Movable root r w'.tree text c := by
    refine ⟨fun hleft r hr text c => ?_, fun hall r hr _ => hall r hr⟩
    by_cases hmoved : r ∈ movesOf root o w
    · exact not_movable_of_mem_movesOf ht h hmoved text c
    · exact hleft r hr hmoved text c
  obtain ⟨api, w₁, hapi, -, hidle, -, hnil⟩ := exec_renamedApi root o ht'
  rw [hleft, exec_updateNamespaces ht', hplan, Run.exec_bind_of_ok hapi, ← hnil]
  constructor
  · rintro ⟨w'', hrun, htree⟩
    obtain ⟨moved, w₂, hmoved, hdone⟩ := Run.exec_bind_eq_ok hrun
    have htold : api ++ moved = [] := Except.ok.inj (Prod.mk.inj hdone).1
    obtain ⟨rfl, rfl⟩ := List.append_eq_nil_iff.mp htold
    obtain rfl : w₂ = w'' := (Prod.mk.inj hdone).2
    rw [← hidle rfl]
    exact ⟨rfl, relocateAll_idle_iff.mp ⟨w₂, hmoved, htree.trans (hidle rfl).symm⟩⟩
  · rintro ⟨rfl, hnone⟩
    rw [← hidle rfl] at hnone
    obtain ⟨w₂, hmoved, htree⟩ := relocateAll_idle_iff.mpr hnone
    refine ⟨w₂, ?_, htree.trans (hidle rfl)⟩
    rw [Run.exec_bind_of_ok hmoved]
    rfl

/-- Moves of jobs leave no file of the API with the old name of the module. -/
theorem isRenamed_leftBy {moves : List Relocation} (hnames : Path.AreNames names)
    (hplace : ∀ rest, names ≠ "app" :: "jobs" :: rest)
    (hmoves : ∀ r ∈ moves, Asked o r ∧ '\\' ∉ r.newConstant.toList ∧
      "API".toList ∉ wordsOf r.newConstant.toList) (h : IsRenamed bytes) :
    IsRenamed (leftBy moves names bytes) := by
  refine List.foldlRecOn moves _ h fun bytes hbytes r hr => ?_
  obtain ⟨hasked, hplain, hnew⟩ := hmoves r hr
  refine hbytes.leaves hasked hplain hnew fun hsource => ?_
  obtain ⟨rest, hrest, hjobs⟩ := hasked.source_jobs
  exact hplace rest
    (Path.ofNames_inj hnames.ne_nil hrest.ne_nil hnames.isName hrest.isName (hsource.symm.trans hjobs))

/-- After an update that ends, a second one tells nothing and changes nothing exactly if no class is
found that the first one has not moved. A backslash in a new name would be read as a part of a
template. -/
theorem second_update_idle_iff (ht : w.tree.WellFormed)
    (hnew : ∀ r ∈ askedPlan o w.tree root,
      '\\' ∉ r.newConstant.toList ∧ "API".toList ∉ wordsOf r.newConstant.toList)
    (h : Run.exec (updateNamespaces root o) w = (.ok written, w')) :
    (∃ w'', Run.exec (updateNamespaces root o) w' = (.ok [], w'') ∧ w''.tree = w'.tree) ↔
      ∀ r ∈ askedPlan o w.tree root, r ∉ movesOf root o w →
        ∀ text c, ¬ Movable root r w'.tree text c := by
  rw [updateNamespaces_again_iff ht h, and_iff_right]
  intro names bytes hnames hfile
  by_cases hjobs : ∃ rest, names = "app" :: "jobs" :: rest
  · obtain ⟨rest, rfl⟩ := hjobs
    exact renamed?_jobs o rest bytes
  rw [not_exists] at hjobs
  have hplace : names.take 3 ≠ newJobs := by
    intro htake
    refine hjobs ("sidekiq" :: names.drop 3) ?_
    conv_lhs => rw [← List.take_append_drop 3 names, htake]
    rfl
  cases hcovered : (apiGlobs o).any (Glob.covers · names) with
  | false => rw [renamed?, hcovered]; rfl
  | true =>
    -- The first update has renamed the module in this file, and its moves have not brought it back.
    have hrenamed : ∀ bytes, renamed? (apiGlobs o) names bytes = edited? apiRenaming bytes :=
      fun bytes => if_pos hcovered
    rw [(file?_updateNamespaces ht h).2 names hnames hplace] at hfile
    obtain ⟨before, -, rfl⟩ := Option.map_eq_some_iff.mp hfile
    rw [hrenamed, hrenamed]
    have hsub : (movesOf root o w).Sublist (askedPlan o w.tree root) := performed_sublist _ _ _
    have hmoves : ∀ r ∈ movesOf root o w, Asked o r ∧ '\\' ∉ r.newConstant.toList ∧
        "API".toList ∉ wordsOf r.newConstant.toList :=
      fun r hr => ⟨asked_of_mem_askedPlan ht (hsub.subset hr), hnew r (hsub.subset hr)⟩
    exact (isRenamed_leftBy hnames hjobs hmoves (isRenamed_edited before)).edited?_eq_none

/-! ### A class that is found too late -/

/-- A job about orders. -/
def zedJob : Relocation :=
  ⟨"app/jobs/sidekiq_jobs/orders/process/zed.rb", "app/jobs/sidekiq/orders/process/zed.rb",
    "SidekiqJobs::Orders::Process::Zed", "Sidekiq::Orders::Process::Zed", false⟩

/-- A job about orders with the name of the module that all of them are in. -/
def namesakeJob : Relocation :=
  ⟨"app/jobs/sidekiq_jobs/orders/process/sidekiq_jobs.rb",
    "app/jobs/sidekiq/orders/process/sidekiq_jobs.rb",
    "SidekiqJobs::Orders::Process::SidekiqJobs", "Sidekiq::Orders::Process::SidekiqJobs", false⟩

def namesakeNames : List String :=
  ["app", "jobs", "sidekiq_jobs", "orders", "process", "sidekiq_jobs.rb"]

/-- The file of this job: what it begins with looks like the class, and it has no end. -/
def namesakeFile : List Char :=
  "  class SidekiqJobs::Orders::Process::Zed; end\nclass SidekiqJobs\nend\n".toList

/-- The file once the other job has moved. -/
def redirectedFile : List Char :=
  "  class Sidekiq::Orders::Process::Zed; end\nclass SidekiqJobs\nend\n".toList

/-- An application with both jobs. -/
def namesakeSpace : Workspace :=
  { tree := { files :=
      [(namesakeNames, Text.encode namesakeFile),
       (["app", "jobs", "sidekiq_jobs", "orders", "process", "zed.rb"],
          Text.encode "class Zed\nend\n".toList)] } }

/-- Jobs about orders are to be moved. -/
def orderJobs : Options := { updateOrderJobs := true }

theorem askedPlan_namesakeSpace :
    askedPlan orderJobs namesakeSpace.tree ⟨[], "."⟩ = [namesakeJob, zedJob] := by
  have hprocess : (Braces.expand "app/jobs/sidekiq_jobs/orders/process/*.rb").mapM
      (Glob.filesOf? namesakeSpace.tree ⟨[], "."⟩) =
        some [["app/jobs/sidekiq_jobs/orders/process/sidekiq_jobs.rb",
          "app/jobs/sidekiq_jobs/orders/process/zed.rb"]] := by decide +kernel
  have hnotifications : (Braces.expand "app/jobs/sidekiq_jobs/orders/notifications/*.rb").mapM
      (Glob.filesOf? namesakeSpace.tree ⟨[], "."⟩) = some [[]] := by decide +kernel
  have hsorted : sortedTexts (distinct ["app/jobs/sidekiq_jobs/orders/process/sidekiq_jobs.rb",
      "app/jobs/sidekiq_jobs/orders/process/zed.rb"]) =
      ["app/jobs/sidekiq_jobs/orders/process/sidekiq_jobs.rb",
        "app/jobs/sidekiq_jobs/orders/process/zed.rb"] :=
    List.mergeSort_of_pairwise (by decide +kernel)
  have horder : orderPlan namesakeSpace.tree ⟨[], "."⟩ = [namesakeJob, zedJob] := by
    simp only [orderPlan, orderKinds, List.flatMap_cons, List.flatMap_nil, List.append_nil]
    rw [show "app/jobs/sidekiq_jobs/orders/" ++ "process" ++ "/*.rb" =
        "app/jobs/sidekiq_jobs/orders/process/*.rb" by decide,
      show "app/jobs/sidekiq_jobs/orders/" ++ "notifications" ++ "/*.rb" =
        "app/jobs/sidekiq_jobs/orders/notifications/*.rb" by decide,
      Glob.files?, Glob.files?, hprocess, hnotifications, Option.map_some, List.flatten_singleton,
      hsorted]
    have hjobs : orderRelocation "process" "app/jobs/sidekiq_jobs/orders/process/sidekiq_jobs.rb" =
          namesakeJob ∧
        orderRelocation "process" "app/jobs/sidekiq_jobs/orders/process/zed.rb" = zedJob := by
      decide +kernel
    simp [distinct, addNew, sortedTexts, hjobs]
  rw [askedPlan, horder]
  rfl

theorem named_namesakeSpace :
    namesakeJob.Named namesakeNames ["app", "jobs", "sidekiq", "orders", "process", "sidekiq_jobs.rb"] ∧
      zedJob.Named ["app", "jobs", "sidekiq_jobs", "orders", "process", "zed.rb"]
        ["app", "jobs", "sidekiq", "orders", "process", "zed.rb"] :=
  ⟨⟨by decide, by decide, by decide, by decide, by decide, by decide⟩,
    ⟨by decide, by decide, by decide, by decide, by decide, by decide⟩⟩

theorem wellFormed_namesakeSpace : namesakeSpace.tree.WellFormed := by decide +kernel

/-- The class of the first job is not found, so its move does nothing. -/
theorem relocate_namesakeJob : ∃ notices,
    Run.exec (relocate ⟨[], "."⟩ namesakeJob) namesakeSpace =
      (.ok [], { namesakeSpace with notices }) := by
  rcases relocate_idle ⟨[], "."⟩ namesakeJob namesakeSpace with ⟨text, c, hmovable⟩ | ⟨-, hidle⟩
  · have hread : namesakeSpace.tree.read ⟨[], "."⟩ namesakeJob.source = .ok namesakeFile :=
      read_of_encode wellFormed_namesakeSpace named_namesakeSpace.1.source_ne rfl (by decide)
    have hnone : classIn? namesakeJob.oldName namesakeFile = none := by decide +kernel
    have hsome := hmovable.found
    rw [← Except.ok.inj (hread.symm.trans hmovable.read), hnone] at hsome
    cases hsome
  · exact hidle

/-- The other job moves, and its name is redirected in the file of the first one. -/
theorem relocate_zedJob (notices : List Notice) : ∃ told w',
    Run.exec (relocate ⟨[], "."⟩ zedJob) { namesakeSpace with notices } = (.ok told, w') ∧
      zedJob.source ∈ told ∧ w'.tree.WellFormed ∧
      w'.tree.file? namesakeNames = some (Text.encode redirectedFile) := by
  have hmovable : Movable ⟨[], "."⟩ zedJob namesakeSpace.tree "class Zed\nend\n".toList ⟨"", ""⟩ :=
    ⟨Run.eq_ok_of_toOption (by decide +kernel), by decide +kernel, by decide +kernel⟩
  have hwrites : moveWrites ⟨[], "."⟩ zedJob namesakeSpace.tree ≠ [] :=
    moveWrites_ne_nil hmovable fun _ => by decide +kernel
  have hredirect : zedJob.redirect namesakeFile = .ok redirectedFile :=
    Run.eq_ok_of_toOption (by decide +kernel)
  have hleaves : leaves zedJob namesakeNames (Text.encode namesakeFile) = Text.encode redirectedFile :=
    leaves_encode (by decide +kernel) (by decide +kernel) (by decide +kernel) hredirect (by decide +kernel)
  obtain ⟨told, w', hmove, htold, ht', hfiles⟩ := exists_relocated
    (w := { namesakeSpace with notices }) wellFormed_namesakeSpace named_namesakeSpace.2
    (by decide +kernel) hwrites
  refine ⟨told, w', hmove, htold, ht', ?_⟩
  rw [← hleaves]
  exact hfiles namesakeNames ⟨by decide, by decide⟩ (by decide +kernel)

/-- So the first update moves the other job only, and leaves the class where it is found. -/
theorem updateNamespaces_namesakeSpace : ∃ written w',
    Run.exec (updateNamespaces ⟨[], "."⟩ orderJobs) namesakeSpace = (.ok written, w') ∧
      movesOf ⟨[], "."⟩ orderJobs namesakeSpace = [zedJob] ∧
      Movable ⟨[], "."⟩ namesakeJob w'.tree redirectedFile ⟨"", ""⟩ := by
  obtain ⟨notices, hidle⟩ := relocate_namesakeJob
  obtain ⟨told, w', hmove, htold, ht', hfile⟩ := relocate_zedJob notices
  have hrun : Run.exec (relocateAll ⟨[], "."⟩ [namesakeJob, zedJob]) namesakeSpace =
      (.ok ([] ++ (told ++ [])), w') := by
    rw [relocateAll, Run.exec_bind_of_ok hidle, relocateAll, bind_assoc, Run.exec_bind_of_ok hmove]
    rfl
  have hapi : Run.exec (renamedApi ⟨[], "."⟩ orderJobs) namesakeSpace = (.ok [], namesakeSpace) := rfl
  refine ⟨[] ++ ([] ++ (told ++ [])), w', ?_, ?_, ?_, by decide +kernel, by decide +kernel⟩
  · rw [exec_updateNamespaces wellFormed_namesakeSpace, askedPlan_namesakeSpace,
      Run.exec_bind_of_ok hapi, Run.exec_bind_of_ok hrun]
    rfl
  · rw [movesOf, hapi, askedPlan_namesakeSpace, performed, hidle]
    simp only [List.not_mem_nil, if_false, performed, hmove, if_pos htold]
  · exact read_of_encode ht' named_namesakeSpace.1.source_ne hfile (by decide +kernel)

/-- The first update moves the other job, as the class is not found, and the second one finds the
class. -/
theorem second_update_idle_iff_namesake : ∃ written w',
    Run.exec (updateNamespaces ⟨[], "."⟩ orderJobs) namesakeSpace = (.ok written, w') ∧
      ¬ ∃ w'', Run.exec (updateNamespaces ⟨[], "."⟩ orderJobs) w' = (.ok [], w'') ∧
        w''.tree = w'.tree := by
  obtain ⟨written, w', hdone, hmoves, hmovable⟩ := updateNamespaces_namesakeSpace
  have hnew : ∀ r ∈ [namesakeJob, zedJob],
      '\\' ∉ r.newConstant.toList ∧ "API".toList ∉ wordsOf r.newConstant.toList := by decide +kernel
  rw [← askedPlan_namesakeSpace] at hnew
  refine ⟨written, w', hdone, fun hagain => ?_⟩
  have hidle := (second_update_idle_iff wellFormed_namesakeSpace hnew hdone).mp hagain namesakeJob
  rw [askedPlan_namesakeSpace, hmoves] at hidle
  exact hidle List.mem_cons_self (by decide +kernel) _ _ hmovable

end Project

end RailsUpgrade
