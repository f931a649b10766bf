import RailsUpgrade.Proofs.Frame
import RailsUpgrade.Proofs.Stubs

/-!
# `RailsUpgrade.Proofs.LeftReferences`: which references a move leaves

A move redirects the references to its class in all files but its own two: the old file gets the stub,
which names the old constant, and the new file keeps the text that it has or that the class came with.
In every other file that can be rewritten no reference is left, unless the names of the move clash:

* `Relocation.Clashes`: redirecting a reference can make a new one;
* `Asked.clear`: the names of a job that do not clash do not lead into each other;
* `Redirected`: where references are left after a move, and where none are;
* `relocate_redirects`: a move that ends with its stub leaves references there only;
* `LeavesIn`: a file where a move leaves a reference, its new one or one that clashing names are in.
-/

set_option autoImplicit false

namespace RailsUpgrade

/-! ### Words of a text -/

namespace Text

open Pattern (startsWithWord)

/-- The pieces between those characters of a text that belong to no word. -/
def wordsOf (s : List Char) : List (List Char) := s.splitOnP fun c => !isWord c

theorem wordsOf_cons (c : Char) (s : List Char) : wordsOf (c :: s) =
    if isWord c then (wordsOf s).modifyHead (c :: ·) else [] :: wordsOf s := by
  rw [wordsOf, List.splitOnP_cons_eq_if_modifyHead]
  cases isWord c <;> rfl

/-- A text begins with its first word. -/
theorem exists_wordsOf (s : List Char) : ∃ more, wordsOf s = s.takeWhile isWord :: more := by
  induction s with
  | nil => exact ⟨[], List.splitOnP_nil⟩
  | cons c s ih =>
    obtain ⟨more, hmore⟩ := ih
    rw [wordsOf_cons, hmore]
    cases hc : isWord c with
    | true => exact ⟨more, by simp [hc]⟩
    | false => exact ⟨s.takeWhile isWord :: more, by simp [hc]⟩

/-- Where no word character stands before a place, one of the words begins there. -/
theorem wordsOf_append {lead : List Char} (rest : List Char)
    (h : startsWithWord false lead.reverse = false) : ∃ words more,
      wordsOf (lead ++ rest) = words ++ rest.takeWhile isWord :: more ∧ (lead ≠ [] → words ≠ []) := by
  induction lead with
  | nil =>
    obtain ⟨more, hmore⟩ := exists_wordsOf rest
    exact ⟨[], more, hmore, fun hne => absurd rfl hne⟩
  | cons c lead ih =>
    have hend : lead ≠ [] → startsWithWord false (c :: lead).reverse =
        startsWithWord false lead.reverse := by
      intro hne
      rw [List.reverse_cons, startsWithWord_append (List.reverse_ne_nil_iff.mpr hne)]
    have hfree : startsWithWord false lead.reverse = false := by
      by_cases hnil : lead = []
      · rw [hnil]
        rfl
      · rwa [← hend hnil]
    obtain ⟨words, more, hwords, hne⟩ := ih hfree
    rw [List.cons_append, wordsOf_cons, hwords]
    cases hc : isWord c with
    | false => exact ⟨[] :: words, more, rfl, fun _ => by simp⟩
    | true =>
      -- The word goes on, because no word character stands at its end.
      have hlead : lead ≠ [] := by
        rintro rfl
        have hlast : isWord c = false := h
        rw [hc] at hlast
        cases hlast
      obtain ⟨word, words, rfl⟩ := List.exists_cons_of_ne_nil (hne hlead)
      exact ⟨(c :: word) :: words, more, rfl, fun _ => by simp⟩

end Text

/-! ### Names that clash -/

namespace Relocation

/-- The names of a move clash: the first word of the old one is a word of the new one, or the first word
of the new one is a later word of the old one. -/
def Clashes (r : Relocation) : Prop :=
  r.oldConstant.toList.takeWhile Text.isWord ∈ Text.wordsOf r.newConstant.toList ∨
    r.newConstant.toList.takeWhile Text.isWord ∈ (Text.wordsOf r.oldConstant.toList).tail

instance (r : Relocation) : Decidable r.Clashes := inferInstanceAs (Decidable (_ ∨ _))

end Relocation

namespace Project

open Pattern (startsWithWord)
open Run (edited?)

variable {root : Root} {r : Relocation} {o : Options} {t : Tree} {w w' : Workspace}
  {names source target : List String} {written : List String}

/-- The two constants of a job share its name, which the old one may end with. -/
theorem Asked.shared (h : Asked o r) : ∃ lead job ending lead',
    r.oldConstant.toList = lead ++ (job ++ ending) ∧ r.newConstant.toList = lead' ++ job ∧
      '\r' ∉ lead' ∧ (startsWithWord false ending.reverse = true ∨ ending = [] ∧ job ≠ []) := by
  cases h with
  | stock names _ _ _ =>
    let job := (stem (Path.ofNames names)).toList.take
      ((stem (Path.ofNames names)).length - "_stock_job".length)
    refine ⟨"Inventory::".toList, (camelize (String.ofList job)).toList, "StockJob".toList,
      "Sidekiq::Stock::".toList, ?_, ?_, by decide, .inl (by decide)⟩
    · rw [stockRelocation, String.toList_append, String.toList_append, List.append_assoc]
    · rw [stockRelocation, String.toList_append]
  | order kind names _ _ _ _ =>
    refine ⟨"SidekiqJobs".toList, "::Orders::".toList ++ ((camelize kind).toList ++ ("::".toList
      ++ (camelize (stem (Path.ofNames names))).toList)), [], "Sidekiq".toList, ?_, ?_, by decide,
      .inr ⟨rfl, by simp⟩⟩
    · simp [orderRelocation]
    · simp [orderRelocation]
  | pos _ => exact ⟨[], "Check".toList, "Job".toList, "Sidekiq::PosStatus::".toList, by decide,
      by decide, by decide, .inl (by decide)⟩

theorem Asked.return_mem (h : Asked o r) (hnew : '\r' ∈ r.newConstant.toList) :
    '\r' ∈ r.oldConstant.toList := by
  obtain ⟨lead, job, ending, lead', hold, hshared, hlead, -⟩ := h.shared
  rw [hshared] at hnew
  have hjob := (List.mem_append.mp hnew).resolve_left hlead
  rw [hold]
  simp [hjob]

/-- The old name of a job begins with a word. -/
theorem Asked.old_starts (h : Asked o r) : startsWithWord false r.oldConstant.toList = true := by
  obtain ⟨⟨lead, hlead, rest, hold⟩, -⟩ := h.constants
  have hword : ∀ lead ∈ oldLeads, lead ≠ [] ∧ startsWithWord false lead = true := by decide
  rw [← hold, startsWithWord_append (hword lead hlead).1, (hword lead hlead).2]

/-- The old name of a job ends with a word, or both names end with the same character. -/
theorem Asked.last (h : Asked o r) : startsWithWord false r.oldConstant.toList.reverse = true ∨
    r.newConstant.toList.getLast? = r.oldConstant.toList.getLast? := by
  obtain ⟨lead, job, ending, lead', hold, hnew, -, hends | ⟨rfl, hne⟩⟩ := h.shared
  · have hne : ending ≠ [] := by
      rintro rfl
      cases hends
    rw [hold, ← List.append_assoc, List.reverse_append,
      startsWithWord_append (List.reverse_ne_nil_iff.mpr hne)]
    exact .inl hends
  · right
    rw [hold, hnew, List.append_nil, List.getLast?_append_of_ne_nil _ hne,
      List.getLast?_append_of_ne_nil _ hne]

/-- The names of a job that do not clash do not lead into each other. -/
theorem Asked.clear (h : Asked o r) (hclash : ¬ r.Clashes) : r.Clear r.newConstant.toList where
  old_starts := h.old_starts
  fill_starts := by
    obtain ⟨-, rest, hnew⟩ := h.constants
    rw [← hnew]
    rfl
  last := h.last
  first := by
    intro lead rest hnew hfree hsame
    obtain ⟨words, more, hwords, -⟩ := Text.wordsOf_append rest hfree
    refine hclash (.inl ?_)
    rw [hnew, hwords, ← hsame]
    simp
  later := by
    intro lead rest hold hne hfree hsame
    obtain ⟨words, more, hwords, hfirst⟩ := Text.wordsOf_append rest hfree
    obtain ⟨word, words, rfl⟩ := List.exists_cons_of_ne_nil (hfirst hne)
    refine hclash (.inr ?_)
    rw [hold, hwords, ← hsame]
    simp

/-! ### References that are left -/

/-- What an edit leaves of a file is read as the text that it makes, if that has no carriage return. -/
theorem decode?_edited {change : List Char → Except Failure (List Char)} {bytes : ByteArray}
    {old new : List Char}
    (hdecode : Text.decode? bytes = some old) (hchange : change old = .ok new) (hnew : '\r' ∉ new) :
    Text.decode? ((edited? change bytes).getD bytes) = some new := by
  by_cases hsame : new = old
  · simp [edited?, hdecode, hchange, hsame]
  · simp only [edited?, hdecode, Option.bind_some, hchange, if_neg hsame, Option.getD_some,
      Text.decode?_encode_of_notMem hnew]

/-- What redirecting the references leaves of a file is read as the text with redirected references. -/
theorem redirect_of_edited (h : Asked o r) (hplain : '\\' ∉ r.newConstant.toList)
    {bytes : ByteArray} {text : List Char}
    (htext : Text.decode? ((edited? (redirection r) bytes).getD bytes) = some text) :
    ∃ old, Text.decode? bytes = some old ∧ r.redirect old = .ok text := by
  cases hdecode : Text.decode? bytes with
  | none =>
    rw [edited?, hdecode, Option.bind_none, Option.getD_none, hdecode] at htext
    cases htext
  | some old =>
    obtain ⟨new, hnew⟩ := Relocation.exists_redirect_of_notMem hplain old
    have hold := Text.return_notMem_of_decode? hdecode
    have hkept : '\r' ∉ new := by
      by_cases hreturn : '\r' ∈ r.newConstant.toList
      · -- A name with a carriage return is in no text that was read.
        have hnone : r.references.expr.found old = false := by
          rw [← Bool.not_eq_true, Relocation.found_references_iff h.old_ne]
          rintro ⟨front, after, rfl, -⟩
          have hname := h.return_mem hreturn
          simp [hname] at hold
        rwa [redirect_of_not_found h hnew hnone]
      · exact Relocation.notMem_of_redirect h.old_ne (Relocation.replacement?_of_notMem hplain) hreturn
          hold hnew
    rw [decode?_edited hdecode (by rw [redirection, hnew]; rfl) hkept] at htext
    exact ⟨old, rfl, hnew.trans (congrArg _ (Option.some.inj htext))⟩

/-- What a move makes of a file with a text whose references it redirects. -/
theorem leaves_encode (hopen : isOpenRuby names = true) (hsource : r.source ≠ Path.ofNames names)
    {text new : List Char} (hunix : '\r' ∉ text) (hnew : r.redirect text = .ok new)
    (hchange : new ≠ text) : leaves r names (Text.encode text) = Text.encode new := by
  have hchanged : redirection r text = .ok new := by rw [redirection, hnew]; rfl
  rw [leaves, if_neg hsource, if_pos hopen, edited?, Text.decode?_encode_of_notMem hunix,
    Option.bind_some, hchanged]
  simp only [if_neg hchange, Option.getD_some]

/-- What redirecting the references in a file leaves can be read without finding one. -/
theorem not_found_of_edited (h : Asked o r) (hclash : ¬ r.Clashes)
    (hplain : '\\' ∉ r.newConstant.toList) {bytes : ByteArray} {text : List Char}
    (htext : Text.decode? ((edited? (redirection r) bytes).getD bytes) = some text) :
    r.references.expr.found text = false := by
  obtain ⟨old, -, hredirect⟩ := redirect_of_edited h hplain htext
  exact (h.clear hclash).not_found_redirect (Relocation.replacement?_of_notMem hplain) hredirect

/-- A move keeps what is at the path of its new file. -/
theorem file?_target_of_exists (ht : w.tree.WellFormed) (hnamed : r.Named source target)
    (hapart : source ≠ target) (hexists : w.tree.existsAt root r.target = true)
    (h : Run.exec (relocate root r) w = (.ok written, w')) :
    w'.tree.file? (root.place ++ target) = w.tree.file? (root.place ++ target) := by
  rw [relocate, Run.exec_tree_bind] at h
  split at h
  · cases h
    rfl
  · split at h
    · cases h
      rfl
    · split at h
      · cases h
        rfl
      -- Only references and the source are written, and the target is neither.
      · obtain ⟨_, w₁, htarget, h₁⟩ := Run.exec_bind_eq_ok h
        obtain ⟨_, w₂, hreferences, h₂⟩ := Run.exec_bind_eq_ok h₁
        obtain ⟨_, w₃, hsource, h₃⟩ := Run.exec_bind_eq_ok h₂
        cases h₃
        rw [writeTarget, Run.exec_tree_bind, if_pos hexists, Run.exec_note_bind] at htarget
        cases htarget
        obtain ⟨ht₂, hfiles₂⟩ :=
          updateReferences_eq_ok (w := { w with notices := w.notices ++ [.targetKept r.target] }) ht
            hreferences
        obtain ⟨place₃, hwrite₃⟩ := Run.write_eq_ok hsource
        rw [hnamed.source_eq] at hwrite₃
        obtain ⟨-, hfiles₃⟩ := Tree.write_eq_ok ht₂ hnamed.source_ne hnamed.source_names hwrite₃
        have hother : root.place ++ target ≠ root.place ++ source :=
          fun heq => hapart (List.append_cancel_left heq).symm
        show w₃.tree.file? _ = _
        rw [hfiles₃, if_neg hother, hfiles₂ target (.inr hnamed.target_eq.symm)]

/-- Where references are left after a move, and where none are. -/
structure Redirected (root : Root) (r : Relocation) (target : List String) (before after : Tree) :
    Prop where
  /-- None are left in a Ruby file that can be read and is not protected, but in the two of the
  move. -/
  others : ∀ path ∈ (Glob.files? after root rubyFiles).getD [], path ≠ r.source → path ≠ r.target →
    Path.isProtected path = false → ∀ text, after.read root path = .ok text →
    r.references.expr.found text = false
  /-- A new file that was there keeps its references. -/
  kept : before.existsAt root r.target = true →
    after.file? (root.place ++ target) = before.file? (root.place ++ target)
  /-- Else it has those that the class came with. -/
  moved : before.existsAt root r.target = false → ∃ text c,
    before.read root r.source = .ok text ∧ classIn? r.oldName text = some c ∧
    after.file? (root.place ++ target) = some (Text.encode (r.movedClass c).toList)

/-- A planned move whose names do not clash leaves no references but in its new file, if it ends with
its stub. A backslash in the new name would be read as a part of a template. -/
theorem relocate_redirects (ht : w.tree.WellFormed) (hr : r ∈ planned w.tree root)
    (hclash : ¬ r.Clashes) (hplain : '\\' ∉ r.newConstant.toList)
    (h : Run.exec (relocate root r) w = (.ok written, w')) (hmoved : r.source ∈ written) :
    ∃ source target, r.Named source target ∧ Redirected root r target w.tree w'.tree := by
  have hasked := asked_of_planned ht hr
  obtain ⟨source, target, hnamed, hsource, htarget⟩ := hasked.exists_places
  have hapart : source ≠ target := fun heq => hsource (heq ▸ htarget)
  refine ⟨source, target, hnamed, ?_, ?_, ?_⟩
  · intro path hpath hnotSource hnotTarget hopen text htext
    obtain ⟨ht', ⟨hidle, -⟩ | ⟨-, hfiles⟩⟩ := relocate_eq_ok_cases ht hnamed h
    · exact absurd hmoved hidle
    · obtain ⟨names, hnames, rfl, hcovers⟩ :=
        Glob.exists_names_of_mem_files? ht' isPlain_rubyFiles hpath
      obtain ⟨place, bytes, hlook, hdecode⟩ := Tree.look_of_read htext
      obtain rfl := Tree.place_of_look ht' hnames hlook
      have hruby : isOpenRuby names = true := by rw [isOpenRuby, hcovers, hopen]; rfl
      -- The bytes that are read are what redirecting leaves of those before.
      have hbytes := Tree.file?_of_look hlook
      rw [hfiles names hnames (Ne.symm hnotTarget)] at hbytes
      obtain ⟨old, -, rfl⟩ := Option.map_eq_some_iff.mp hbytes
      rw [leaves, if_neg (Ne.symm hnotSource), if_pos hruby] at hdecode
      exact not_found_of_edited hasked hclash hplain hdecode
  · exact fun hexists => file?_target_of_exists ht hnamed hapart hexists h
  · intro hnew
    obtain ⟨text, c, hread, hclass, hfile, -⟩ := relocate_eq_ok ht hnamed hnew h hmoved
    exact ⟨text, c, hread, hclass, hfile⟩

/-- A file is read as the text that was written into it. -/
theorem read_of_encode (ht : t.WellFormed) (hne : names ≠ []) {text : List Char}
    (hfile : t.file? (root.place ++ names) = some (Text.encode text)) (hunix : '\r' ∉ text) :
    t.read root (Path.ofNames names) = .ok text := by
  rw [Tree.read_of_look (Tree.look_of_file? ht hne hfile), Text.decode?_encode_of_notMem hunix]

/-- A job that names itself. -/
def againFile : String := "class CheckJob\n  retry_on CheckJob::Busy\nend\n"

/-- The class in the file. -/
def againClass : ClassText := ⟨"", "retry_on CheckJob::Busy"⟩

/-- A reference to this job, and references to others that make new ones once they are redirected. -/
def itemFile : List Char :=
  "CheckJob\nInventory::InventoryStockJob::InventoryStockJob\nInventory::\\g<0>StockJob\n".toList ++
    "SidekiqJobs::Orders::Process::SidekiqJobs::Orders::Process::Sidekiq\n".toList

/-- A job whose new name ends as the old one begins. -/
def inventoryJob : Relocation :=
  ⟨"app/jobs/inventory/inventory_stock_job.rb", "app/jobs/sidekiq/stock/inventory.rb",
    "Inventory::InventoryStockJob", "Sidekiq::Stock::Inventory", false⟩

/-- A job whose old name ends as the new one begins. -/
def sidekiqJob : Relocation :=
  ⟨"app/jobs/sidekiq_jobs/orders/process/sidekiq.rb", "app/jobs/sidekiq/orders/process/sidekiq.rb",
    "SidekiqJobs::Orders::Process::Sidekiq", "Sidekiq::Orders::Process::Sidekiq", false⟩

/-- A job whose new name stands for the old one, read as a template. -/
def templateJob : Relocation :=
  ⟨"app/jobs/inventory/\\g<0>_stock_job.rb", "app/jobs/sidekiq/stock/\\g<0>.rb",
    "Inventory::\\g<0>StockJob", "Sidekiq::Stock::\\g<0>", false⟩

/-- An application with all of these jobs. -/
def itemSpace : Workspace :=
  { tree := { files :=
      [(["app", "jobs", "check_job.rb"], Text.encode againFile.toList),
       (["app", "jobs", "inventory", "inventory_stock_job.rb"],
          Text.encode "class InventoryStockJob\nend\n".toList),
       (["app", "jobs", "inventory", "\\g<0>_stock_job.rb"],
          Text.encode "class \\g<0>StockJob\nend\n".toList),
       (["app", "jobs", "sidekiq_jobs", "orders", "process", "sidekiq.rb"],
          Text.encode "class Sidekiq\nend\n".toList),
       (["app", "models", "item.rb"], Text.encode itemFile)] } }

theorem wellFormed_itemSpace : itemSpace.tree.WellFormed := by decide

theorem posRelocation_mem_planned : posRelocation ∈ planned itemSpace.tree ⟨[], "."⟩ :=
  mem_planned wellFormed_itemSpace (.pos rfl) named_twoChecks.2 rfl

/-- What the first job starts from: its class, and a place for it that can be written. -/
theorem posRelocation_movable :
    Movable ⟨[], "."⟩ posRelocation itemSpace.tree againFile.toList againClass ∧
      (itemSpace.tree.write ⟨[], "."⟩ posRelocation.target
        (posRelocation.movedClass againClass).toList).toOption.isSome = true :=
  have hread : itemSpace.tree.read ⟨[], "."⟩ posRelocation.source = .ok againFile.toList := by
    rw [named_twoChecks.2.source_eq]
    exact read_of_encode wellFormed_itemSpace (by decide) rfl (by decide)
  ⟨⟨hread, by decide, by decide⟩, by decide⟩

/-- The new file of the first job. -/
theorem movedClass_again : posRelocation.movedClass againClass =
    "module Sidekiq\n  module PosStatus\n    class Check\n      retry_on CheckJob::Busy\n    end\n  end\nend\n" := by
  decide

/-- The first job leaves nothing in the file that refers to it. -/
theorem relocate_redirects_item : posRelocation.references.expr.found itemFile = true ∧
    ∃ written w', Run.exec (relocate ⟨[], "."⟩ posRelocation) itemSpace = (.ok written, w') ∧
      posRelocation.source ∈ written ∧ ∃ source target, posRelocation.Named source target ∧
        Redirected ⟨[], "."⟩ posRelocation target itemSpace.tree w'.tree := by
  obtain ⟨hmovable, hwrite⟩ := posRelocation_movable
  obtain ⟨written, notices, h, hmoved⟩ := relocate_of_writes wellFormed_itemSpace named_twoChecks.2
    (by decide) (moveWrites_ne_nil hmovable fun _ => hwrite)
  exact ⟨by decide, written, _, h, hmoved, relocate_redirects wellFormed_itemSpace
    posRelocation_mem_planned (by decide) (by decide) h hmoved⟩

/-! ### References that stay -/

/-- A move that ends with its stub leaves a reference in another file that can be rewritten. -/
def LeavesIn (root : Root) (r : Relocation) (w : Workspace) (path : String) : Prop :=
  ∃ written w' text, Run.exec (relocate root r) w = (.ok written, w') ∧ r.source ∈ written ∧
    path ∈ (Glob.files? w'.tree root rubyFiles).getD [] ∧ path ≠ r.source ∧
    Path.isProtected path = false ∧ w'.tree.read root path = .ok text ∧
    r.references.expr.found text = true

theorem leavesIn_of_file (ht : w'.tree.WellFormed)
    (h : Run.exec (relocate root r) w = (.ok written, w')) (hmoved : r.source ∈ written)
    (hnames : Path.AreNames names) (hopen : isOpenRuby names = true)
    (hsource : r.source ≠ Path.ofNames names) {text : List Char}
    (hfile : w'.tree.file? (root.place ++ names) = some (Text.encode text)) (hunix : '\r' ∉ text)
    (hfound : r.references.expr.found text = true) : LeavesIn root r w (Path.ofNames names) := by
  rw [isOpenRuby, Bool.and_eq_true, Bool.not_eq_true'] at hopen
  have hlisted := (Glob.mem_files?_iff_covers ht isPlain_rubyFiles hnames.ne_nil
    (by rw [hfile, Option.isSome_some])).mpr hopen.1
  exact ⟨written, w', text, h, hmoved, hlisted, hsource.symm, hopen.2,
    read_of_encode ht hnames.ne_nil hfile hunix, hfound⟩

/-- A class that refers to itself takes the references with it. -/
theorem leavesIn_target (ht : w.tree.WellFormed) (hnamed : r.Named source target)
    (hfill : r.replacement?.isSome = true) {text : List Char} {c : ClassText}
    (hmovable : Movable root r w.tree text c) (hnew : w.tree.existsAt root r.target = false)
    (hwrite : (w.tree.write root r.target (r.movedClass c).toList).toOption.isSome = true)
    (hopen : isOpenRuby target = true) (hapart : r.source ≠ r.target)
    (hunix : '\r' ∉ (r.movedClass c).toList)
    (hfound : r.references.expr.found (r.movedClass c).toList = true) :
    LeavesIn root r w r.target := by
  obtain ⟨written, notices, h, hmoved⟩ :=
    relocate_of_writes ht hnamed hfill (moveWrites_ne_nil hmovable fun _ => hwrite)
  obtain ⟨ht', -⟩ := relocate_eq_ok_cases ht hnamed h
  obtain ⟨text', c', hread, hclass, hfile, -⟩ := relocate_eq_ok ht hnamed hnew h hmoved
  obtain rfl : text = text' := Except.ok.inj (hmovable.read.symm.trans hread)
  obtain rfl : c = c' := Option.some.inj (hmovable.found.symm.trans hclass)
  rw [hnamed.target_eq] at hapart ⊢
  exact leavesIn_of_file ht' h hmoved ⟨hnamed.target_ne, hnamed.target_names⟩ hopen hapart hfile hunix
    hfound

/-- A reference that redirecting makes in another file stays there. -/
theorem leavesIn_of_redirect (ht : w.tree.WellFormed) (hnamed : r.Named source target)
    (hfill : r.replacement?.isSome = true) (hwrites : moveWrites root r w.tree ≠ [])
    (hnames : Path.AreNames names) (hopen : isOpenRuby names = true)
    (hsource : r.source ≠ Path.ofNames names) (htarget : r.target ≠ Path.ofNames names)
    {text new : List Char} (hfile : w.tree.file? (root.place ++ names) = some (Text.encode text))
    (hunix : '\r' ∉ text) (hnew : r.redirect text = .ok new) (hchange : new ≠ text)
    (hunix' : '\r' ∉ new) (hfound : r.references.expr.found new = true) :
    LeavesIn root r w (Path.ofNames names) := by
  obtain ⟨written, notices, h, hmoved⟩ := relocate_of_writes ht hnamed hfill hwrites
  obtain ⟨ht', ⟨hidle, -⟩ | ⟨-, hfiles⟩⟩ := relocate_eq_ok_cases ht hnamed h
  · exact absurd hmoved hidle
  · refine leavesIn_of_file ht' h hmoved hnames hopen hsource ?_ hunix' hfound
    rw [hfiles names hnames htarget, hfile, Option.map_some,
      leaves_encode hopen hsource hunix hnew hchange]

theorem named_clashing :
    inventoryJob.Named ["app", "jobs", "inventory", "inventory_stock_job.rb"]
        ["app", "jobs", "sidekiq", "stock", "inventory.rb"] ∧
      sidekiqJob.Named ["app", "jobs", "sidekiq_jobs", "orders", "process", "sidekiq.rb"]
        ["app", "jobs", "sidekiq", "orders", "process", "sidekiq.rb"] ∧
      templateJob.Named ["app", "jobs", "inventory", "\\g<0>_stock_job.rb"]
        ["app", "jobs", "sidekiq", "stock", "\\g<0>.rb"] :=
  ⟨⟨by decide, by decide, by decide, by decide, by decide, by decide⟩,
    ⟨by decide, by decide, by decide, by decide, by decide, by decide⟩,
    ⟨by decide, by decide, by decide, by decide, by decide, by decide⟩⟩

theorem clashing_mem_planned :
    ∀ r ∈ [inventoryJob, sidekiqJob, templateJob], r ∈ planned itemSpace.tree ⟨[], "."⟩ := by
  obtain ⟨hself, horder, htemplate⟩ := named_clashing
  have hselfJob : stockRelocation
      (Path.ofNames ["app", "jobs", "inventory", "inventory_stock_job.rb"]) = inventoryJob := by
    decide
  have horderJob : orderRelocation "process"
      (Path.ofNames ["app", "jobs", "sidekiq_jobs", "orders", "process", "sidekiq.rb"]) =
        sidekiqJob := by
    decide
  have htemplateJob : stockRelocation
      (Path.ofNames ["app", "jobs", "inventory", "\\g<0>_stock_job.rb"]) = templateJob := by
    decide
  -- The three jobs are planned, as their files are covered by the globs of the plans.
  have hselfAsked : Asked allJobs inventoryJob := by
    rw [← hselfJob]
    exact .stock _ rfl ⟨by decide, by decide⟩ (by decide)
  have horderAsked : Asked allJobs sidekiqJob := by
    rw [← horderJob]
    exact .order _ _ rfl List.mem_cons_self ⟨by decide, by decide⟩ (by decide)
  have htemplateAsked : Asked allJobs templateJob := by
    rw [← htemplateJob]
    exact .stock _ rfl ⟨by decide, by decide⟩ (by decide)
  simp only [List.forall_mem_cons]
  exact ⟨mem_planned wellFormed_itemSpace hselfAsked hself rfl,
    mem_planned wellFormed_itemSpace horderAsked horder rfl,
    mem_planned wellFormed_itemSpace htemplateAsked htemplate rfl, fun r hr => absurd hr List.not_mem_nil⟩

/-- Redirecting the references to a job in a text makes a new one. -/
def remakes (r : Relocation) (text : List Char) : Bool :=
  (r.redirect text).toOption.any fun new =>
    new != text && decide ('\r' ∉ new) && r.references.expr.found new

theorem remakes_item : ∀ r ∈ [inventoryJob, sidekiqJob, templateJob], remakes r itemFile = true := by
  unfold itemFile
  rw [String.toList_ofList, String.toList_ofList]
  decide +kernel

/-- A job of the application moves, and redirecting makes references to it. -/
theorem leavesIn_item (text : String) (hnamed : r.Named source target)
    (hfill : r.replacement?.isSome = true)
    (hfile : itemSpace.tree.file? source = some (Text.encode text.toList))
    (hunix : '\r' ∉ text.toList)
    (hopen : Relocation.stubHeader.toList.isPrefixOf text.toList = false)
    (hclass : classIn? r.oldName text.toList = some ⟨"", ""⟩)
    (hwrite : (itemSpace.tree.write ⟨[], "."⟩ r.target
      (r.movedClass ⟨"", ""⟩).toList).toOption.isSome = true)
    (hsource : r.source ≠ "app/models/item.rb") (htarget : r.target ≠ "app/models/item.rb")
    (hleft : remakes r itemFile = true) :
    LeavesIn ⟨[], "."⟩ r itemSpace "app/models/item.rb" ∧ "app/models/item.rb" ≠ r.target := by
  have hread : itemSpace.tree.read ⟨[], "."⟩ r.source = .ok text.toList := by
    rw [hnamed.source_eq]
    exact read_of_encode wellFormed_itemSpace hnamed.source_ne hfile hunix
  have hwrites := moveWrites_ne_nil ⟨hread, hopen, hclass⟩ fun _ => hwrite
  -- The file is redirected, and its new text refers to the class again.
  obtain ⟨new, hnew, hfound⟩ := (Option.any_eq_true ..).mp hleft
  simp only [Bool.and_eq_true, bne_iff_ne, decide_eq_true_eq] at hfound
  obtain ⟨⟨hchange, hunix'⟩, hfound⟩ := hfound
  have hnames : Path.AreNames ["app", "models", "item.rb"] := ⟨by decide, by decide⟩
  have hopen : isOpenRuby ["app", "models", "item.rb"] = true := by
    rw [isOpenRuby, Path.isProtected_eq]
    decide
  refine ⟨?_, htarget.symm⟩
  exact leavesIn_of_redirect wellFormed_itemSpace hnamed hfill hwrites hnames hopen hsource htarget rfl
    (by
      unfold itemFile
      rw [String.toList_ofList, String.toList_ofList]
      decide) (Run.eq_ok_of_toOption hnew) hchange hunix' hfound

/-- The references to the first job are in its new file after its move, as the class has come with
one. The references to the other jobs are in a file that refers to them, whose references were
redirected: two of these jobs have names that clash, and the new name of one is a template. -/
theorem relocate_item_leaves :
    (posRelocation ∈ planned itemSpace.tree ⟨[], "."⟩ ∧
      LeavesIn ⟨[], "."⟩ posRelocation itemSpace posRelocation.target) ∧
    ∀ r ∈ [inventoryJob, sidekiqJob, templateJob], r ∈ planned itemSpace.tree ⟨[], "."⟩ ∧
      LeavesIn ⟨[], "."⟩ r itemSpace "app/models/item.rb" ∧ "app/models/item.rb" ≠ r.target := by
  refine ⟨⟨posRelocation_mem_planned, ?_⟩, fun r hr => ⟨clashing_mem_planned r hr, ?_⟩⟩
  · obtain ⟨hmovable, hwrite⟩ := posRelocation_movable
    have hopen : isOpenRuby ["app", "jobs", "sidekiq", "pos_status", "check.rb"] = true := by
      rw [isOpenRuby, Path.isProtected_eq]
      decide
    have htext : '\r' ∉ (posRelocation.movedClass againClass).toList ∧
        posRelocation.references.expr.found (posRelocation.movedClass againClass).toList = true := by
      rw [movedClass_again, String.toList_ofList]
      decide
    exact leavesIn_target wellFormed_itemSpace named_twoChecks.2 (by decide) hmovable
      (by decide) hwrite hopen (by decide) htext.1 htext.2
  -- For each of the other jobs the class is in a module that its own name begins.
  · obtain ⟨hself, horder, htemplate⟩ := named_clashing
    revert r
    simp only [List.forall_mem_cons]
    refine ⟨?_, ?_, ?_, fun r hr => absurd hr List.not_mem_nil⟩
    · exact leavesIn_item "class InventoryStockJob\nend\n" hself (by decide) rfl
        (by decide) (by decide) (by decide) (by decide)
        (by decide) (by decide) (remakes_item _ (by simp))
    · exact leavesIn_item "class Sidekiq\nend\n" horder (by decide) rfl
        (by decide) (by decide) (by decide) (by decide)
        (by decide) (by decide) (remakes_item _ (by simp))
    · exact leavesIn_item "class \\g<0>StockJob\nend\n" htemplate (by decide) rfl
        (by decide) (by decide) (by decide) (by decide)
        (by decide) (by decide) (remakes_item _ (by simp))

end Project

end RailsUpgrade
