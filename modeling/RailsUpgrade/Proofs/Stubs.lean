import RailsUpgrade.Proofs.Encoding
import RailsUpgrade.Proofs.Namespaces

/-!
# `RailsUpgrade.Proofs.Stubs`: what becomes of a stub

A move leaves a stub of its old file, an alias of the old name for the new one. The moves behind it
redirect references in all Ruby files, and the stub is one of them.

* `Strays`: two texts part at a letter that old names have and new ones have not, so they never meet
  again (`Strays.trans`);
* `strays_of_redirect`: redirecting a reference makes a text stray;
* `relocateAll_from`: a run of moves from one of them on;
* `stub_survives_iff`: a stub is found after an update exactly if it is in a protected file or no later
  move finds a reference in it.
-/

set_option autoImplicit false

namespace RailsUpgrade

theorem Workspace.tree_done (w : Workspace) (writes : List Write) (notices : List Notice) :
    (w.done writes notices).tree = w.tree.performAll writes := rfl

namespace Project

open Pattern (found_iff)

variable {root : Root} {r : Relocation} {o : Options} {t : Tree} {w w' : Workspace}
  {names source target : List String} {written : List String} {s s' text : List Char}

/-! ### Texts that have parted -/

/-- Two texts are alike up to a letter. The first one goes on as an old name does where it differs
from the names that classes move to, and the second one as these names do. -/
def Strays (s s' : List Char) : Prop :=
  ∃ lead x y rest rest', s = lead ++ x :: rest ∧ s' = lead ++ y :: rest' ∧
    x ∈ ['I', 'C', 'J'] ∧ y ∈ ['S', ':']

/-- No letter is of both kinds. -/
theorem kinds_apart {x : Char} (hx : x ∈ ['I', 'C', 'J']) : x ∉ ['S', ':'] := by
  simp only [List.mem_cons, List.not_mem_nil, or_false] at hx
  rcases hx with rfl | rfl | rfl <;> decide

theorem Strays.ne (h : Strays s s') : s ≠ s' := by
  obtain ⟨lead, x, y, rest, rest', rfl, rfl, hx, hy⟩ := h
  intro heq
  obtain ⟨rfl, -⟩ := List.cons_eq_cons.mp (List.append_cancel_left heq)
  exact kinds_apart hx hy

theorem Strays.frame (h : Strays s s') (lead rest rest' : List Char) :
    Strays (lead ++ (s ++ rest)) (lead ++ (s' ++ rest')) := by
  obtain ⟨front, x, y, back, back', rfl, rfl, hx, hy⟩ := h
  exact ⟨lead ++ front, x, y, back ++ rest, back' ++ rest', by simp, by simp, hx, hy⟩

/-- A text that strays from one that has strayed does not find back. -/
theorem Strays.trans {s'' : List Char} (h : Strays s s') (h' : Strays s' s'') : Strays s s'' := by
  obtain ⟨lead, x, y, rest, rest', rfl, rfl, hx, hy⟩ := h
  obtain ⟨lead', x', y', back, back', hs', rfl, hx', hy'⟩ := h'
  rcases List.append_eq_append_iff.mp hs' with ⟨part, rfl, hpart⟩ | ⟨part, rfl, hpart⟩
  · cases part with
    | nil =>
      -- Both parts at one letter: it would be of both kinds.
      obtain ⟨rfl, -⟩ : y = x' ∧ _ := by simpa using hpart
      exact absurd hy (kinds_apart hx')
    | cons z part =>
      obtain ⟨rfl, rfl⟩ : y = z ∧ _ := by simpa using hpart
      exact ⟨lead, x, y, rest, part ++ y' :: back', rfl, by simp, hx, hy⟩
  · cases part with
    | nil =>
      obtain ⟨rfl, -⟩ : x' = y ∧ _ := by simpa using hpart
      exact absurd hy (kinds_apart hx')
    | cons z part =>
      obtain ⟨rfl, -⟩ : x' = z ∧ _ := by simpa using hpart
      exact ⟨lead', x', y', part ++ x :: rest, back', by simp, rfl, hx', hy'⟩

/-- Reading a text again makes no difference to this. -/
theorem Strays.unixNewlines (h : Strays s s') (hs : '\r' ∉ s) : Strays s (Text.unixNewlines s') := by
  obtain ⟨lead, x, y, rest, rest', rfl, rfl, hx, hy⟩ := h
  have hlead : '\r' ∉ lead ++ [y] := by
    rw [List.mem_append, not_or] at hs ⊢
    refine ⟨hs.1, fun hmem => ?_⟩
    rw [← List.mem_singleton.mp hmem] at hy
    exact absurd hy (by decide)
  refine ⟨lead, x, y, rest, Text.unixNewlines rest', rfl, ?_, hx, hy⟩
  have hread := Text.unixNewlines_append hlead rest'
  simpa using hread

/-! ### Redirecting a reference -/

theorem strays_leads : ∀ lead ∈ oldLeads, Strays lead newLead := by
  have hinventory : "Inventory::".toList = [] ++ 'I' :: "nventory::".toList := by decide
  have hsidekiq : "SidekiqJobs::".toList = "Sidekiq".toList ++ 'J' :: "obs::".toList := by decide
  have hcheck : "CheckJob".toList = [] ++ 'C' :: "heckJob".toList := by decide
  have hnew : newLead = [] ++ 'S' :: "idekiq::".toList := by decide
  have hnew' : newLead = "Sidekiq".toList ++ ':' :: ":".toList := by decide
  intro lead hlead
  simp only [oldLeads, List.mem_cons, List.not_mem_nil, or_false] at hlead
  obtain rfl | rfl | rfl := hlead
  · exact ⟨_, _, _, _, _, hinventory, hnew, by decide, by decide⟩
  · exact ⟨_, _, _, _, _, hsidekiq, hnew', by decide, by decide⟩
  · exact ⟨_, _, _, _, _, hcheck, hnew, by decide, by decide⟩

/-- What references are swapped for begins as all new names do. -/
theorem lead_of_replacement? (h : Asked o r) {fill : List Char} (hfill : r.replacement? = some fill) :
    newLead <+: fill := by
  obtain ⟨parts, hparts, rfl⟩ := Option.map_eq_some_iff.mp hfill
  obtain ⟨-, rest, hnew⟩ := h.constants
  have hread := Run.eq_ok_of_toOption hparts
  obtain ⟨more, hmore⟩ := Pattern.chars_of_readTemplate hnew.symm (by decide) hread
  refine ⟨more.flatMap r.filled, ?_⟩
  rw [← hmore, List.flatMap_append, List.flatMap_map]
  simp [Relocation.filled]

theorem Asked.old_ne (h : Asked o r) : r.oldConstant ≠ "" := by
  obtain ⟨⟨lead, hlead, rest, hold⟩, -⟩ := h.constants
  intro hempty
  have hne : ∀ lead ∈ oldLeads, lead ≠ [] := by decide
  rw [hempty] at hold
  exact hne lead hlead (List.append_eq_nil_iff.mp hold).1

/-- A text without references to a class stays as it is. -/
theorem redirect_of_not_found {new : List Char} (h : Asked o r)
    (hnew : r.redirect text = .ok new) (hnone : r.references.expr.found text = false) : new = text := by
  obtain ⟨fill, hfill, hpass⟩ := Relocation.pass_of_redirect h.old_ne hnew
  rcases hpass.first with ⟨-, hsame⟩ | ⟨lead, taken, after, new', more, htext, hswap, -⟩
  · exact hsame
  · have hfound := (found_iff (Relocation.swaps_references h.old_ne []) text).mpr
      ⟨lead, taken, after, [], htext, hswap.1, by simpa using hswap.2.1, rfl⟩
    rw [hnone] at hfound
    cases hfound

/-- A reference that is found is redirected. -/
theorem strays_of_found {new : List Char} (h : Asked o r) (hnew : r.redirect text = .ok new)
    (hfound : r.references.expr.found text = true) : Strays text new := by
  obtain ⟨fill, hfill, hpass⟩ := Relocation.pass_of_redirect h.old_ne hnew
  obtain ⟨lead, taken, after, new', htext, rfl, hrefers, rfl⟩ :=
    (found_iff (Relocation.swaps_references h.old_ne []) text).mp hfound
  have hne : r.oldConstant.toList ≠ [] := by simpa using h.old_ne
  rcases hpass.first with ⟨hnone, -⟩ | ⟨lead, taken, after, new', more, rfl, ⟨rfl, -, rfl⟩, rfl⟩
  · exact absurd ⟨rfl, by simpa using hrefers, rfl⟩ (hnone lead _ after fill htext hne)
  · obtain ⟨⟨old, hold, rest, hrest⟩, -⟩ := h.constants
    obtain ⟨rest', hrest'⟩ := lead_of_replacement? h hfill
    rw [← hrest, ← hrest', List.append_assoc, List.append_assoc]
    exact (strays_leads old hold).frame lead _ _

/-- A text whose references were redirected is as it was, or it strays from what it was. -/
theorem strays_of_redirect {new : List Char} (h : Asked o r) (hnew : r.redirect text = .ok new) :
    new = text ∨ Strays text new := by
  cases hfound : r.references.expr.found text with
  | false => exact .inl (redirect_of_not_found h hnew hfound)
  | true => exact .inr (strays_of_found h hnew hfound)

/-! ### Moves behind a move -/

/-- A file whose text has strayed from a text. -/
def Strayed (s : List Char) (bytes : ByteArray) : Prop :=
  ∃ text, Text.decode? bytes = some text ∧ Strays s text

theorem strayed_encode {new : List Char} (h : Strays s new) (hs : '\r' ∉ s) :
    Strayed s (Text.encode new) :=
  ⟨_, Text.decode?_encode new, h.unixNewlines hs⟩

/-- What a move of another class leaves of a file that has strayed has strayed. -/
theorem Strayed.leaves {bytes : ByteArray} (h : Strayed s bytes) (hs : '\r' ∉ s) (hr : Asked o r)
    (hsource : r.source ≠ Path.ofNames names) : Strayed s (leaves r names bytes) := by
  obtain ⟨text, hdecode, hstrays⟩ := h
  rw [Project.leaves, if_neg hsource]
  split
  · cases hnew : r.redirect text with
    | error e =>
      rw [Run.edited?, hdecode, Option.bind_some, redirection, hnew]
      exact ⟨text, hdecode, hstrays⟩
    | ok new =>
      have hedited : Run.edited? (redirection r) bytes =
          if new = text then none else some (Text.encode new) := by
        rw [Run.edited?, hdecode, Option.bind_some, redirection, hnew]
        rfl
      rw [hedited]
      rcases strays_of_redirect hr hnew with rfl | hmore
      · rw [if_pos rfl]
        exact ⟨new, hdecode, hstrays⟩
      · rw [if_neg hmore.ne.symm]
        exact strayed_encode (hstrays.trans hmore) hs
  · exact ⟨text, hdecode, hstrays⟩

/-- What moves of other classes leave of a stub that is read again: it is as it was if none of them
finds a reference in it, and else it has strayed. -/
theorem foldl_leaves_eq_iff {later : List Relocation} (hopen : isOpenRuby names = true)
    (hasked : ∀ r ∈ later, Asked o r) (hsources : ∀ r ∈ later, r.source ≠ Path.ofNames names)
    (hfills : ∀ r ∈ later, r.replacement?.isSome = true) (stub : List Char) :
    later.foldl (fun bytes r => leaves r names bytes) (Text.encode stub) = Text.encode stub ↔
      ∀ r ∈ later, r.references.expr.found (Text.unixNewlines stub) = false := by
  have hreturn := Text.return_notMem_unixNewlines stub
  -- Once the file has strayed no later move brings it back.
  have hlost : ∀ later : List Relocation, (∀ r ∈ later, Asked o r) →
      (∀ r ∈ later, r.source ≠ Path.ofNames names) → ∀ bytes,
      Strayed (Text.unixNewlines stub) bytes → Strayed (Text.unixNewlines stub)
        (later.foldl (fun bytes r => leaves r names bytes) bytes) := by
    intro later
    induction later with
    | nil => exact fun _ _ bytes h => h
    | cons r later ih =>
      intro hasked hsources bytes h
      exact ih (fun r hr => hasked r (List.mem_cons_of_mem _ hr))
        (fun r hr => hsources r (List.mem_cons_of_mem _ hr)) _
        (h.leaves hreturn (hasked r List.mem_cons_self) (hsources r List.mem_cons_self))
  induction later with
  | nil => simp
  | cons r later ih =>
    have hr := hasked r List.mem_cons_self
    have hasked' : ∀ r ∈ later, Asked o r := fun r hr => hasked r (List.mem_cons_of_mem _ hr)
    have hsources' : ∀ r ∈ later, r.source ≠ Path.ofNames names :=
      fun r hr => hsources r (List.mem_cons_of_mem _ hr)
    obtain ⟨new, hnew⟩ : ∃ new, r.redirect (Text.unixNewlines stub) = .ok new := by
      obtain ⟨parts, hparts⟩ := Option.isSome_iff_exists.mp
        (Option.isSome_map.symm.trans (hfills r List.mem_cons_self))
      exact ⟨_, by rw [Relocation.redirect, Pattern.replaceTemplate, Run.eq_ok_of_toOption hparts]; rfl⟩
    have hleaves : leaves r names (Text.encode stub) =
        if new = Text.unixNewlines stub then Text.encode stub else Text.encode new := by
      rw [leaves, if_neg (hsources r List.mem_cons_self), if_pos hopen, Run.edited?,
        Text.decode?_encode, Option.bind_some, redirection, hnew]
      simp only [Except.mapError]
      split <;> rfl
    rw [List.foldl_cons, List.forall_mem_cons, hleaves]
    cases hfound : r.references.expr.found (Text.unixNewlines stub) with
    | false =>
      have hrest := ih hasked' hsources' fun r hr => hfills r (List.mem_cons_of_mem _ hr)
      rw [if_pos (redirect_of_not_found hr hnew hfound)]
      exact hrest.trans (by simp)
    | true =>
      have hstrays := strays_of_found hr hnew hfound
      rw [if_neg hstrays.ne.symm]
      refine iff_of_false (fun heq => ?_) (by simp)
      obtain ⟨text, hdecode, hstrays'⟩ := hlost later hasked' hsources' _
        (strayed_encode hstrays hreturn)
      rw [heq, Text.decode?_encode] at hdecode
      exact hstrays'.ne (Option.some.inj hdecode)

/-- A run of moves from one of them on: it has left its stub, and the others go on from there. -/
theorem relocateAll_from {plan earlier later : List Relocation} (ht : w.tree.WellFormed)
    (hplan : ∀ r ∈ plan, ∃ source target, r.Named source target)
    (hnodup : (plan.map Relocation.source).Nodup)
    (h : Run.exec (relocateAll root plan) w = (.ok written, w'))
    (hmoves : performed root plan w = earlier ++ r :: later) (hnamed : r.Named source target)
    (htarget : r.target ≠ r.source) :
    ∃ rest w₁ told, (rest.Sublist plan ∧ r.source ∉ rest.map Relocation.source) ∧
      w₁.tree.WellFormed ∧
      w₁.tree.file? (root.place ++ source) = some (Text.encode r.stub.toList) ∧
      Run.exec (relocateAll root rest) w₁ = (.ok told, w') ∧ performed root rest w₁ = later := by
  induction plan generalizing w written earlier with
  | nil => simp [performed] at hmoves
  | cons first plan ih =>
    rw [List.map_cons, List.nodup_cons] at hnodup
    rw [relocateAll] at h
    obtain ⟨told, w₁, hmove, hrest⟩ := Run.exec_bind_eq_ok h
    obtain ⟨more, w₂, hmore, hdone⟩ := Run.exec_bind_eq_ok hrest
    obtain rfl : w₂ = w' := (Prod.mk.inj hdone).2
    obtain ⟨source₁, target₁, hfirst⟩ := hplan first List.mem_cons_self
    obtain ⟨ht₁, hcases⟩ := relocate_eq_ok_cases ht hfirst hmove
    have hplan' : ∀ r ∈ plan, ∃ source target, r.Named source target :=
      fun r hr => hplan r (List.mem_cons_of_mem _ hr)
    rw [performed, hmove] at hmoves
    simp only at hmoves
    -- An idle move is skipped; of the others the first is either the one in question or before it.
    rcases hcases with ⟨hidle, -⟩ | ⟨htold, hleaves⟩
    · rw [if_neg hidle] at hmoves
      obtain ⟨rest, w₃, told', ⟨hsub, hsource⟩, hfound⟩ := ih ht₁ hplan' hnodup.2 hmore hmoves
      exact ⟨rest, w₃, told', ⟨hsub.cons first, hsource⟩, hfound⟩
    · rw [if_pos htold] at hmoves
      cases earlier with
      | nil =>
        obtain ⟨rfl, hlater⟩ := List.cons_eq_cons.mp hmoves
        refine ⟨plan, w₁, more, ⟨List.sublist_cons_self _ _, hnodup.1⟩, ht₁, ?_, hmore, hlater⟩
        have hnames : Path.AreNames source := ⟨hnamed.source_ne, hnamed.source_names⟩
        have hother : first.target ≠ Path.ofNames source := hnamed.source_eq ▸ htarget
        -- Only a file that is there can be left behind as a stub.
        have hthere : (w.tree.file? (root.place ++ source)).isSome = true := by
          rcases relocate_idle root first w with ⟨text, c, hmovable⟩ | ⟨-, notices, hidle⟩
          · exact source_isSome_of_movable ht hnamed hmovable
          · rw [hidle] at hmove
            cases hmove
            cases htold
        obtain ⟨bytes, hbytes⟩ := Option.isSome_iff_exists.mp hthere
        rw [hleaves source hnames hother, hbytes, Option.map_some, leaves, if_pos hnamed.source_eq]
      | cons _ earlier =>
        obtain ⟨-, hmoves⟩ := List.cons_eq_cons.mp hmoves
        obtain ⟨rest, w₃, told', ⟨hsub, hsource⟩, hfound⟩ := ih ht₁ hplan' hnodup.2 hmore hmoves
        exact ⟨rest, w₃, told', ⟨hsub.cons first, hsource⟩, hfound⟩

/-- Moves that redirect references in a file have templates for their new names. -/
theorem replacement?_isSome_of_relocateAll {plan : List Relocation} (ht : w.tree.WellFormed)
    (hplan : ∀ r ∈ plan, ∃ source target, r.Named source target)
    (h : Run.exec (relocateAll root plan) w = (.ok written, w'))
    (hnames : Path.AreNames names) (hopen : isOpenRuby names = true)
    (hsources : ∀ r ∈ plan, r.source ≠ Path.ofNames names)
    (htargets : ∀ r ∈ plan, r.target ≠ Path.ofNames names) {bytes : ByteArray}
    (hfile : w.tree.file? (root.place ++ names) = some bytes)
    (htext : (Text.decode? bytes).isSome = true) :
    ∀ r ∈ performed root plan w, r.replacement?.isSome = true := by
  induction plan generalizing w written bytes with
  | nil => simp [performed]
  | cons first plan ih =>
    rw [relocateAll] at h
    obtain ⟨told, w₁, hmove, hrest⟩ := Run.exec_bind_eq_ok h
    obtain ⟨more, w₂, hmore, hdone⟩ := Run.exec_bind_eq_ok hrest
    obtain rfl : w₂ = w' := (Prod.mk.inj hdone).2
    obtain ⟨source₁, target₁, hfirst⟩ := hplan first List.mem_cons_self
    obtain ⟨ht₁, hcases⟩ := relocate_eq_ok_cases ht hfirst hmove
    -- The rest of the plan runs on the tree that the first move leaves.
    have hnext : ∀ bytes, w₁.tree.file? (root.place ++ names) = some bytes →
        (Text.decode? bytes).isSome = true →
        ∀ r ∈ performed root plan w₁, r.replacement?.isSome = true :=
      fun bytes => ih ht₁ (fun r hr => hplan r (List.mem_cons_of_mem _ hr)) hmore
        (fun r hr => hsources r (List.mem_cons_of_mem _ hr))
        (fun r hr => htargets r (List.mem_cons_of_mem _ hr))
    rw [performed, hmove]
    simp only
    rcases hcases with ⟨hidle, htree⟩ | ⟨htold, hleaves⟩
    · rw [if_neg hidle]
      exact hnext bytes (htree ▸ hfile) htext
    · rw [if_pos htold, List.forall_mem_cons]
      have hsource := hsources first List.mem_cons_self
      have htarget := htargets first List.mem_cons_self
      obtain ⟨text, hdecode⟩ := Option.isSome_iff_exists.mp htext
      refine ⟨replacement?_isSome_of_relocate ht hfirst hmove htold hnames hopen hsource htarget hfile
        hdecode, hnext _ (by rw [hleaves names hnames htarget, hfile, Option.map_some]) ?_⟩
      -- The moved references are texts too, so that the next move reads the file as well.
      rw [leaves, if_neg hsource, if_pos hopen]
      cases hedited : Run.edited? (redirection first) bytes with
      | none => exact htext
      | some new =>
        obtain ⟨text, -, hnew⟩ := Option.bind_eq_some_iff.mp hedited
        split at hnew
        · split at hnew
          · cases hnew
          · obtain rfl := Option.some.inj hnew
            rw [Option.getD_some, Text.decode?_encode, Option.isSome_some]
        · cases hnew

/-! ### A whole update -/

/-- What an update leaves of the old file of a class that it has moved: what the later moves make of
the stub. -/
theorem file?_source_updateNamespaces {earlier later : List Relocation} (ht : w.tree.WellFormed)
    (h : Run.exec (updateNamespaces root o) w = (.ok written, w'))
    (hmoves : movesOf root o w = earlier ++ r :: later) :
    ∃ source target, r.Named source target ∧ Asked o r ∧
      (∀ r' ∈ later, Asked o r' ∧ r'.source ≠ Path.ofNames source) ∧
      (isOpenRuby source = true → ∀ r' ∈ later, r'.replacement?.isSome = true) ∧
      w'.tree.file? (root.place ++ source) =
        some (leftBy later source (Text.encode r.stub.toList)) := by
  obtain ⟨api, w₁, moved, -, ht₁, -, hmoved, hperformed, -⟩ := updateNamespaces_eq_ok ht h
  rw [hperformed] at hmoves
  have hsub := performed_sublist root (askedPlan o w.tree root) w₁
  have hasked : ∀ r ∈ askedPlan o w.tree root, Asked o r := fun r => asked_of_mem_askedPlan ht
  have hr : Asked o r := hasked r (hsub.subset (by rw [hmoves]; simp))
  obtain ⟨source, target, hnamed, hplace, -⟩ := hr.exists_places
  have hnames : Path.AreNames source := ⟨hnamed.source_ne, hnamed.source_names⟩
  have hother : ∀ r ∈ askedPlan o w.tree root, r.target ≠ Path.ofNames source :=
    fun r hr => (hasked r hr).target_ne hnames hplace
  obtain ⟨rest, w₂, told, ⟨hrest, hsource⟩, ht₂, hstub, hrun, hlater⟩ := relocateAll_from ht₁
    (fun r hr => (hasked r hr).exists_named) (nodup_sources_askedPlan ht) hmoved hmoves hnamed
    (by rw [hnamed.source_eq]; exact hr.target_ne hnames hplace)
  have hasked' : ∀ r ∈ rest, Asked o r := fun r hr => hasked r (hrest.subset hr)
  have hsources : ∀ r ∈ rest, r.source ≠ Path.ofNames source := by
    intro r' hr' heq
    rw [hnamed.source_eq, ← heq] at hsource
    exact hsource (List.mem_map_of_mem hr')
  have hkept := performed_sublist root rest w₂
  rw [hlater] at hkept
  -- All that happens to the stub is what the later moves make of it.
  obtain ⟨-, hfiles⟩ := file?_relocateAll ht₂ (fun r hr => (hasked' r hr).exists_named) hrun
  refine ⟨source, target, hnamed, hr,
    fun r' hr' => ⟨hasked' r' (hkept.subset hr'), hsources r' (hkept.subset hr')⟩, fun hopen => ?_, ?_⟩
  · have hfills := replacement?_isSome_of_relocateAll ht₂ (fun r hr => (hasked' r hr).exists_named)
      hrun hnames hopen hsources (fun r hr => hother r (hrest.subset hr)) hstub
      (by rw [Text.decode?_encode, Option.isSome_some])
    rwa [hlater] at hfills
  · rw [hfiles source hnames fun r hr => hother r (hrest.subset hr), hstub, hlater]
    rfl

/-- A stub is as its move has left it, after an update of namespaces, exactly if no later move of the
update finds a reference in it. Protected files are not looked at. -/
theorem stub_survives_iff {earlier later : List Relocation} (ht : w.tree.WellFormed)
    (h : Run.exec (updateNamespaces root o) w = (.ok written, w'))
    (hmoves : movesOf root o w = earlier ++ r :: later) :
    w'.tree.file? (root.place ++ Path.namesOf r.source) = some (Text.encode r.stub.toList) ↔
      Path.isProtected r.source = true ∨
        ∀ r' ∈ later, r'.references.expr.found (Text.unixNewlines r.stub.toList) = false := by
  obtain ⟨source, target, hnamed, hr, hlater, hfills, hfile⟩ :=
    file?_source_updateNamespaces ht h hmoves
  rw [hnamed.source_eq, Path.namesOf_ofNames hnamed.source_ne hnamed.source_names, hfile,
    Option.some_inj]
  have hopen : isOpenRuby source = !Path.isProtected (Path.ofNames source) := by
    rw [isOpenRuby, hr.covers_source hnamed, Bool.true_and]
  cases hprotected : Path.isProtected (Path.ofNames source) with
  | true =>
    refine iff_of_true ?_ (.inl rfl)
    rw [hprotected] at hopen
    refine List.foldlRecOn (motive := (· = Text.encode r.stub.toList)) later _ rfl
      fun bytes hbytes r' hr' => ?_
    rw [leaves, if_neg (hlater r' hr').2, hopen]
    exact hbytes
  | false =>
    rw [hprotected] at hopen
    rw [leftBy, foldl_leaves_eq_iff hopen (fun r' hr' => (hlater r' hr').1)
      (fun r' hr' => (hlater r' hr').2) (hfills hopen)]
    simp

/-! ### A stub that is lost -/

/-- A move that has something to write happens, if its new name can be read as a template. -/
theorem relocate_of_writes (ht : w.tree.WellFormed) (hnamed : r.Named source target)
    (hfill : r.replacement?.isSome = true) (h : moveWrites root r w.tree ≠ []) :
    ∃ written notices, Run.exec (relocate root r) w =
        (.ok written, w.done (moveWrites root r w.tree) notices) ∧ r.source ∈ written := by
  rcases exec_relocate root ht hnamed with ⟨failure, w', -, ⟨text, e, he⟩ | ⟨-, hnone⟩⟩ |
    ⟨written, notices, hrun, htold⟩
  · obtain ⟨new, hnew⟩ := Relocation.exists_redirect hfill text
    rw [hnew] at he
    cases he
  · exact absurd hnone h
  · exact ⟨written, notices, hrun, htold.mpr h⟩

/-- Such a move ends with a tree in which every file but its target is what the move leaves of it. -/
theorem exists_relocated (ht : w.tree.WellFormed) (hnamed : r.Named source target)
    (hfill : r.replacement?.isSome = true) (h : moveWrites root r w.tree ≠ []) :
    ∃ written w', Run.exec (relocate root r) w = (.ok written, w') ∧ r.source ∈ written ∧
      w'.tree.WellFormed ∧ ∀ names, Path.AreNames names → r.target ≠ Path.ofNames names →
        w'.tree.file? (root.place ++ names) =
          (w.tree.file? (root.place ++ names)).map (leaves r names) := by
  obtain ⟨written, notices, hrun, htold⟩ := relocate_of_writes ht hnamed hfill h
  refine ⟨written, _, hrun, htold, ?_⟩
  rw [Workspace.tree_done]
  exact file?_performAll_moveWrites ht hnamed h

/-- A class that can be moved to a path where it can be written, if need be, has something to write. -/
theorem moveWrites_ne_nil {c : ClassText} (h : Movable root r t text c)
    (hwrite : t.existsAt root r.target = false →
      (t.write root r.target (r.movedClass c).toList).toOption.isSome = true) :
    moveWrites root r t ≠ [] := by
  rw [moveWrites_of_movable h]
  split
  · simp
  · rename_i hfree
    split
    · rename_i fault hfault
      have hadmits := hwrite (by simpa using hfree)
      rw [hfault] at hadmits
      cases hadmits
    · simp

/-- A job about orders with the name of the job about the status of points of sale. -/
def orderCheck : Relocation := orderRelocation "process" "app/jobs/sidekiq_jobs/orders/process/check_job.rb"

/-- An application with both jobs. One of them has been written to its new file before. -/
def twoChecks : Workspace :=
  { tree := { files :=
      [(["app", "jobs", "check_job.rb"], Text.encode "class CheckJob\nend\n".toList),
       (["app", "jobs", "sidekiq", "pos_status", "check.rb"], Text.encode "class Check\nend\n".toList),
       (["app", "jobs", "sidekiq_jobs", "orders", "process", "check_job.rb"],
          Text.encode "class CheckJob\nend\n".toList)] } }

theorem wellFormed_twoChecks : twoChecks.tree.WellFormed := by decide

/-- Both kinds of jobs are to be moved. -/
def bothJobs : Options := { updateOrderJobs := true, updatePosStatusJobs := true }

theorem askedPlan_twoChecks :
    askedPlan bothJobs twoChecks.tree ⟨[], "."⟩ = [orderCheck, posRelocation] := by
  have hprocess : (Braces.expand "app/jobs/sidekiq_jobs/orders/process/*.rb").mapM
      (Glob.filesOf? twoChecks.tree ⟨[], "."⟩) =
        some [["app/jobs/sidekiq_jobs/orders/process/check_job.rb"]] := by decide +kernel
  have hnotifications : (Braces.expand "app/jobs/sidekiq_jobs/orders/notifications/*.rb").mapM
      (Glob.filesOf? twoChecks.tree ⟨[], "."⟩) = some [[]] := by decide +kernel
  have hpos : posPlan twoChecks.tree ⟨[], "."⟩ = [posRelocation] := by decide +kernel
  have horder : orderPlan twoChecks.tree ⟨[], "."⟩ = [orderCheck] := by
    simp only [orderPlan, orderKinds, List.flatMap_cons, List.flatMap_nil, List.append_nil]
    rw [show "app/jobs/sidekiq_jobs/orders/" ++ "process" ++ "/*.rb" =
        "app/jobs/sidekiq_jobs/orders/process/*.rb" by decide,
      show "app/jobs/sidekiq_jobs/orders/" ++ "notifications" ++ "/*.rb" =
        "app/jobs/sidekiq_jobs/orders/notifications/*.rb" by decide,
      Glob.files?, Glob.files?, hprocess, hnotifications]
    simp [distinct, addNew, sortedTexts, orderCheck]
  rw [askedPlan, hpos, horder]
  rfl

theorem named_twoChecks :
    orderCheck.Named ["app", "jobs", "sidekiq_jobs", "orders", "process", "check_job.rb"]
        ["app", "jobs", "sidekiq", "orders", "process", "check_job.rb"] ∧
      posRelocation.Named ["app", "jobs", "check_job.rb"]
        ["app", "jobs", "sidekiq", "pos_status", "check.rb"] :=
  ⟨⟨by decide, by decide, by decide, by decide, by decide, by decide⟩,
    ⟨by decide, by decide, by decide, by decide, by decide, by decide⟩⟩

/-- The job about orders has a class to move. -/
theorem moveWrites_orderCheck : moveWrites ⟨[], "."⟩ orderCheck twoChecks.tree ≠ [] := by
  have hmovable : Movable ⟨[], "."⟩ orderCheck twoChecks.tree "class CheckJob\nend\n".toList ⟨"", ""⟩ :=
    ⟨Run.eq_ok_of_toOption (by decide +kernel), by decide +kernel, by decide +kernel⟩
  exact moveWrites_ne_nil hmovable fun _ => by decide +kernel

/-- And so has the other one, once the first has moved. -/
theorem moveWrites_posRelocation {t : Tree} (ht : t.WellFormed)
    (hsource : t.file? ["app", "jobs", "check_job.rb"] =
      some (Text.encode "class CheckJob\nend\n".toList))
    (htarget : (t.file? ["app", "jobs", "sidekiq", "pos_status", "check.rb"]).isSome = true) :
    moveWrites ⟨[], "."⟩ posRelocation t ≠ [] := by
  have hlook : t.look ⟨[], "."⟩ (Path.ofNames ["app", "jobs", "check_job.rb"]) = .file _ _ :=
    Tree.look_of_file? ht named_twoChecks.2.source_ne hsource
  have hread := Tree.read_of_look hlook
  rw [Text.decode?_encode_of_notMem (by decide)] at hread
  have hmovable : Movable ⟨[], "."⟩ posRelocation t "class CheckJob\nend\n".toList ⟨"", ""⟩ :=
    ⟨hread, by decide, by decide⟩
  obtain ⟨bytes, hbytes⟩ := Option.isSome_iff_exists.mp htarget
  have hexists : t.existsAt ⟨[], "."⟩ posRelocation.target = true := by
    have hlook' : t.look ⟨[], "."⟩ (Path.ofNames ["app", "jobs", "sidekiq", "pos_status", "check.rb"]) =
        .file _ _ := Tree.look_of_file? ht named_twoChecks.2.target_ne hbytes
    rw [Tree.existsAt, named_twoChecks.2.target_eq, hlook']
  exact moveWrites_ne_nil hmovable fun hfree => absurd (hexists.symm.trans hfree) (by decide)

/-- The stub of the first job sets a name that the second move looks for. -/
theorem found_stub_orderCheck :
    posRelocation.references.expr.found (Text.unixNewlines orderCheck.stub.toList) = true := by
  have hsegments : Relocation.segments orderCheck.oldConstant =
      ["SidekiqJobs", "Orders", "Process", "CheckJob"] := by decide +kernel
  have hname : orderCheck.oldName = "CheckJob" := by
    rw [Relocation.oldName, Relocation.lastName, hsegments]
    rfl
  have hold : orderCheck.oldConstant = "SidekiqJobs::Orders::Process::CheckJob" := by decide +kernel
  have hnew : orderCheck.newConstant = "Sidekiq::Orders::Process::CheckJob" := by decide +kernel
  -- The stub is spelled out as characters, as the kernel is slow at putting strings together.
  rw [Relocation.stub, hsegments, hname, hold, hnew]
  simp only [Relocation.ofLines, Relocation.nest, Relocation.pad, Relocation.stubHeader,
    List.dropLast, List.map, List.cons_append, List.nil_append, apply_ite String.toList,
    String.toList_append, String.toList_intercalate]
  repeat rw [String.toList_ofList]
  decide +kernel

/-- The first move makes its own writes only, so the source and the target of the second stay. -/
theorem relocate_orderCheck : ∃ told w₁,
    Run.exec (relocate ⟨[], "."⟩ orderCheck) twoChecks = (.ok told, w₁) ∧ orderCheck.source ∈ told ∧
      w₁.tree.WellFormed ∧
      w₁.tree.file? ["app", "jobs", "check_job.rb"] =
        some (Text.encode "class CheckJob\nend\n".toList) ∧
      (w₁.tree.file? ["app", "jobs", "sidekiq", "pos_status", "check.rb"]).isSome = true := by
  obtain ⟨told, w₁, hmove, htold, ht₁, hfiles⟩ := exists_relocated wellFormed_twoChecks
    named_twoChecks.1 (by decide +kernel) moveWrites_orderCheck
  have hsource := hfiles ["app", "jobs", "check_job.rb"] ⟨by decide, by decide⟩ (by decide +kernel)
  have htarget := hfiles ["app", "jobs", "sidekiq", "pos_status", "check.rb"] ⟨by decide, by decide⟩
    (by decide +kernel)
  exact ⟨told, w₁, hmove, htold, ht₁, hsource.trans (by decide +kernel),
    (congrArg Option.isSome htarget).trans (by decide +kernel)⟩

/-- So both jobs move. -/
theorem updateNamespaces_twoChecks : ∃ written w',
    Run.exec (updateNamespaces ⟨[], "."⟩ bothJobs) twoChecks = (.ok written, w') ∧
      movesOf ⟨[], "."⟩ bothJobs twoChecks = [orderCheck, posRelocation] := by
  obtain ⟨told, w₁, hmove, htold, ht₁, hsource, htarget⟩ := relocate_orderCheck
  obtain ⟨told', w₂, hmove', htold', -⟩ := exists_relocated ht₁ named_twoChecks.2 (by decide +kernel)
    (moveWrites_posRelocation ht₁ hsource htarget)
  have hrun : Run.exec (relocateAll ⟨[], "."⟩ [orderCheck, posRelocation]) twoChecks =
      (.ok (told ++ (told' ++ [])), w₂) := by
    rw [relocateAll, Run.exec_bind_of_ok hmove, relocateAll, bind_assoc, Run.exec_bind_of_ok hmove']
    rfl
  have hapi : Run.exec (renamedApi ⟨[], "."⟩ bothJobs) twoChecks = (.ok [], twoChecks) := rfl
  refine ⟨[] ++ (told ++ (told' ++ [])), w₂, ?_, ?_⟩
  · rw [exec_updateNamespaces wellFormed_twoChecks, askedPlan_twoChecks, Run.exec_bind_of_ok hapi,
      Run.exec_bind_of_ok hrun]
    rfl
  · rw [movesOf, hapi, askedPlan_twoChecks, performed, hmove]
    simp only [if_pos htold, performed, hmove', if_pos htold']

/-- Both jobs move, and the second move takes a name in the stub of the first one for a reference. -/
theorem stub_survives_iff_twoChecks : ∃ written w',
    Run.exec (updateNamespaces ⟨[], "."⟩ bothJobs) twoChecks = (.ok written, w') ∧
      movesOf ⟨[], "."⟩ bothJobs twoChecks = [orderCheck, posRelocation] ∧
      w'.tree.file? ["app", "jobs", "sidekiq_jobs", "orders", "process", "check_job.rb"] ≠
        some (Text.encode orderCheck.stub.toList) := by
  obtain ⟨written, w', hdone, hmoves⟩ := updateNamespaces_twoChecks
  have hsplit : movesOf ⟨[], "."⟩ bothJobs twoChecks = [] ++ orderCheck :: [posRelocation] := hmoves
  refine ⟨written, w', hdone, hmoves, fun hstub => ?_⟩
  -- A stub that survived would be protected or name nothing that the second move renames.
  rcases (stub_survives_iff wellFormed_twoChecks hdone hsplit).mp hstub with hprotected | hnone
  · have hopen : Path.isProtected orderCheck.source = false := by decide +kernel
    rw [hopen] at hprotected
    cases hprotected
  · have hnotFound := hnone posRelocation List.mem_cons_self
    rw [found_stub_orderCheck] at hnotFound
    cases hnotFound

end Project

end RailsUpgrade
