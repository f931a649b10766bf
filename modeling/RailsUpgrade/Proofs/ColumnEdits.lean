import RailsUpgrade.Proofs.KeptTimestamps
import RailsUpgrade.Proofs.Places

/-!
# `RailsUpgrade.Proofs.ColumnEdits`: the options that are added to columns

Each of the three edits of columns adds one option behind a call, whose key is its own. What an edit does
to a line that has at most one call is told once for all three:

* `beginsCall`, `optionKeys`, `Doubled`: the calls and the keys of options on a line;
* `ColumnEdit`: a rewrite with the key that it adds, and what its places and its texts are like;
* `timestampEdit`, `referenceEdit`, `jsonEdit`: the three edits;
* `ColumnEdit.cases`: a pass changes a line at its one call, or not at all;
* `Passes.doubled_iff`: the passes of some edits double a key on a line exactly if one of them adds its
  key to a line that has it in front of the call or behind it.
-/

set_option autoImplicit false

namespace RailsUpgrade

open Pattern (Pass Swap startsWithWord)
open Text (StartsBreak firstLine splitChar places inFront IsOpaque IsSolid)
open Gemfile (exists_of_notMem prefix_of_startsBreak)

/-! ### Lines around a part -/

theorem exists_last_break (s : List Char) : ∃ front last, '\n' :: s = front ++ '\n' :: last ∧ '\n' ∉ last := by
  induction s using List.reverseRecOn with
  | nil => exact ⟨[], [], rfl, List.not_mem_nil⟩
  | append_singleton s x ih =>
    by_cases hx : x = '\n'
    · exact ⟨'\n' :: s, [], by rw [hx]; rfl, List.not_mem_nil⟩
    · obtain ⟨front, last, heq, hlast⟩ := ih
      refine ⟨front, last ++ [x], ?_, by simp [hlast, Ne.symm hx]⟩
      rw [← List.cons_append, heq, List.append_assoc, List.cons_append]

/-- The line around a part of a text that has no line break. -/
theorem Text.exists_line_around (lead : List Char) {part : List Char} (hpart : '\n' ∉ part)
    (after : List Char) :
    ∃ front, front ++ (part ++ firstLine after) ∈ splitChar '\n' (lead ++ (part ++ after)) := by
  obtain ⟨front, last, hlead, hlast⟩ := exists_last_break lead
  have hbehind : last ++ (part ++ after) ∈ behindBreaks ('\n' :: (lead ++ (part ++ after))) := by
    rw [mem_behindBreaks_iff]
    refine ⟨front, ?_⟩
    rw [← List.cons_append, hlead, List.append_assoc, List.cons_append]
  refine ⟨last, ?_⟩
  rw [splitChar_eq_map]
  have hline := List.mem_map_of_mem (f := firstLine) hbehind
  rwa [firstLine_append hlast, firstLine_append hpart] at hline

namespace Migration

variable {line result lead old after new rest : List Char}

/-! ### Calls on a line -/

/-- One of some words stands here, and the rest passes a test. -/
def goesOn (words : List (List Char)) (test : List Char → Bool) (s : List Char) : Bool :=
  words.any fun w => w.isPrefixOf s && test (s.drop w.length)

theorem goesOn_iff {words : List (List Char)} {test : List Char → Bool} {s : List Char} :
    goesOn words test s = true ↔ ∃ w ∈ words, ∃ rest, s = w ++ rest ∧ test rest = true := by
  simp only [goesOn, List.any_eq_true, Bool.and_eq_true, List.isPrefixOf_iff_prefix]
  refine exists_congr fun w => and_congr_right fun _ => ⟨?_, ?_⟩
  · rintro ⟨⟨rest, rfl⟩, htest⟩
    exact ⟨rest, rfl, by simpa using htest⟩
  · rintro ⟨rest, rfl, htest⟩
    exact ⟨List.prefix_append w rest, by simpa using htest⟩

/-- Nothing of what follows counts if no word reaches into it. -/
theorem goesOn_congr {words : List (List Char)} {test : List Char → Bool} {front t : List Char}
    (hclear : ∀ w ∈ words, IsOpaque w front)
    (htest : ∀ u s s', test (u ++ (front ++ s)) = test (u ++ (front ++ s'))) (ht : t ≠ [])
    (s s' : List Char) :
    goesOn words test (t ++ (front ++ s)) = goesOn words test (t ++ (front ++ s')) := by
  have hgo : ∀ s s', goesOn words test (t ++ (front ++ s)) = true →
      goesOn words test (t ++ (front ++ s')) = true := by
    intro s s' h
    obtain ⟨w, hw, rest, heq, hrest⟩ := goesOn_iff.mp h
    obtain ⟨u, rfl⟩ := (hclear w hw).ends ht ⟨rest, heq.symm⟩
    rw [List.append_assoc] at heq
    obtain rfl := List.append_cancel_left heq
    exact goesOn_iff.mpr ⟨w, hw, u ++ (front ++ s'), List.append_assoc _ _ _, by rw [htest u s' s, hrest]⟩
  rw [Bool.eq_iff_iff]
  exact ⟨hgo s s', hgo s' s⟩

/-- The calls for columns with a name. -/
def namedCalls : List (List Char) := ["t.references".toList, "t.belongs_to".toList, "t.json".toList]

/-- The calls that are edited. -/
def columnCalls : List (List Char) := "t.timestamps".toList :: namedCalls

/-- A call stands here. -/
def beginsCall : List Char → Bool := goesOn columnCalls fun rest => !startsWithWord false rest

/-- A call for a column stands here without a name: it ends its text. -/
def isBareCall : List Char → Bool := goesOn namedCalls fun rest => rest.all Text.isBlank

theorem beginsCall_iff {s : List Char} : beginsCall s = true ↔
    ∃ w ∈ columnCalls, ∃ rest, s = w ++ rest ∧ startsWithWord false rest = false := by
  simp [beginsCall, goesOn_iff]

theorem columnCalls_dotted : ∀ w ∈ columnCalls, "t.".toList <+: w := by
  decide

/-- Calls begin with a `t.`. -/
theorem exists_of_beginsCall {s : List Char} (h : beginsCall s = true) : ∃ rest, s = 't' :: '.' :: rest := by
  obtain ⟨w, hw, rest, rfl, -⟩ := beginsCall_iff.mp h
  obtain ⟨word, hword⟩ := columnCalls_dotted w hw
  have hdot : "t.".toList = ['t', '.'] := by decide
  rw [hdot] at hword
  exact ⟨word ++ rest, by rw [← hword]; rfl⟩

theorem startsWithWord_of_blank {s : List Char} (h : s.all Text.isBlank = true) :
    startsWithWord false s = false := by
  cases s with
  | nil => rfl
  | cons x s =>
    rw [List.all_cons, Bool.and_eq_true] at h
    exact Text.isWord_eq_false_of_isBlank h.1

theorem beginsCall_of_bare {s : List Char} (h : isBareCall s = true) : beginsCall s = true := by
  obtain ⟨w, hw, rest, rfl, hrest⟩ := goesOn_iff.mp h
  exact beginsCall_iff.mpr ⟨w, List.mem_cons_of_mem _ hw, rest, rfl, startsWithWord_of_blank hrest⟩

/-- A call with a colon behind it is not bare. -/
theorem isBareCall_of_colon {s : List Char} (h : ':' ∈ s) : isBareCall s = false := by
  rw [← Bool.not_eq_true, isBareCall, goesOn_iff]
  rintro ⟨w, hw, rest, rfl, hrest⟩
  have hword : ∀ w ∈ namedCalls, ':' ∉ w := by decide
  rcases List.mem_append.mp h with h | h
  · exact hword w hw h
  · exact Helper.notMem_of_blank hrest (by decide) h

/-- Calls in front of a `t.` do not depend on what follows it. -/
theorem inFront_beginsCall (a s s' : List Char) : inFront beginsCall a ('t' :: '.' :: s) =
    inFront beginsCall a ('t' :: '.' :: s') := by
  refine Text.inFront_congr fun t _ ht => ?_
  have hclear : ∀ w ∈ columnCalls, IsOpaque w ['t', '.'] := by decide
  exact goesOn_congr hclear (fun u s s' => by cases u <;> rfl) ht s s'

/-! ### Keys on a line -/

/-- The keys of the options that are added. -/
def optionKeys : List (List Char) := ["precision:".toList, "foreign_key:".toList, "default:".toList]

/-- A line has one of the keys twice. -/
def Doubled (line : List Char) : Prop := ∃ k ∈ optionKeys, 1 < places k.isPrefixOf line

theorem optionKeys_plain : ∀ k ∈ optionKeys, k ≠ [] ∧ IsOpaque k ['t', '.'] ∧ IsOpaque k ['c', 'l'] ∧
    ':' ∈ k ∧ ',' ∉ k ∧ k.all (!Text.isBlank ·) = true := by
  decide

/-- No key begins in a word that another character than a colon follows. -/
theorem inFront_key_of_word {k name : List Char} (hk : k ∈ optionKeys) (hname : name.all Text.isWord = true)
    {x : Char} (hx : x ∉ k) (s : List Char) : inFront k.isPrefixOf name (x :: s) = 0 := by
  have hcolon := (optionKeys_plain k hk).2.2.2.1
  refine Text.inFront_eq_zero fun t ht _ => ?_
  have hword : ':' ∉ t := fun hmem =>
    Helper.notMem_of_word hname (x := ':') (by decide) (ht.subset hmem)
  rw [← Bool.not_eq_true, List.isPrefixOf_iff_prefix]
  intro hkey
  rcases Text.prefix_append_cases hkey with hkey | ⟨u, rfl, hu⟩
  · exact hword (hkey.subset hcolon)
  · cases u with
    | nil =>
      rw [List.append_nil] at hcolon
      exact hword hcolon
    | cons y u =>
      obtain ⟨rfl, -⟩ := List.cons_prefix_cons.mp hu
      exact hx (by simp)

/-! ### Edits -/

/-- A line on which no call for a column lacks its name, and that does not begin with the comma of an
option. -/
structure IsWhole (line : List Char) : Prop where
  called : places isBareCall line = 0
  comma : (line.dropWhile Text.isBlank).head? ≠ some ','

/-- An edit of columns, with the key of the option that it adds. -/
structure ColumnEdit where
  rule : Rewrite
  key : List Char
  /-- What the words behind a `t.` begin with. -/
  initials : List Char
  key_mem : key ∈ optionKeys
  initial : ∀ {old after new}, rule old after new →
    ∃ x ∈ initials, old.head? = some x ∧ new.head? = some x
  begins : ∀ {old after new}, rule old after new → beginsCall ('t' :: '.' :: (old ++ after)) = true
  colon : ∀ {old after new}, rule old after new → ':' ∈ new
  /-- No call is added behind the one that is edited. -/
  calls : ∀ {old after new}, rule old after new → '\n' ∉ after →
    places beginsCall ('.' :: (new ++ after)) ≤ places beginsCall ('.' :: (old ++ after))
  /-- The edit adds its key, and has no other one in what it puts in. -/
  once : ∀ {old after new}, rule old after new → '\n' ∉ after →
    places key.isPrefixOf ('t' :: '.' :: (new ++ after)) = 1 + places key.isPrefixOf after
  /-- No other key is added. -/
  others : ∀ {old after new}, rule old after new → '\n' ∉ after → ∀ k ∈ optionKeys, k ≠ key →
    places k.isPrefixOf ('t' :: '.' :: (new ++ after)) ≤ places k.isPrefixOf ('t' :: '.' :: (old ++ after))
  /-- However the call is read, the key stands behind it or not. -/
  same : ∀ {old after new old' after' new'}, rule old after new → rule old' after' new' →
    '\n' ∉ after → old ++ after = old' ++ after' → key <:+: after → key <:+: after'
  lengthens : rule.swap.Extends
  onLines : ∀ {text}, (∀ line ∈ splitChar '\n' text, IsWhole line) → rule.swap.OnLines text

/-! ### Edits of columns with a name -/

section

variable {helper : Helper} {admits : List Char → Prop}

theorem Call.head?_text (call : Call) (after : List Char) :
    startsWithWord false (call.text ++ after) = false := by
  have hhead := head?_of_all call.gap_blank call.gap_ne (fun _ => Text.isWord_eq_false_of_isBlank)
    (':' :: call.name ++ after)
  rwa [← List.append_assoc] at hhead

theorem Helper.begins (hcalls : ∀ w ∈ helper.words, 't' :: '.' :: w.1 ∈ namedCalls)
    (h : helper.rule admits old after new) : beginsCall ('t' :: '.' :: (old ++ after)) = true := by
  obtain ⟨w, hw, call, -, rfl, -⟩ := h
  refine beginsCall_iff.mpr ⟨_, List.mem_cons_of_mem _ (hcalls w hw), call.text ++ after, ?_,
    call.head?_text after⟩
  rw [List.append_assoc]
  rfl

theorem Helper.places_calls_le (h : helper.rule admits old after new) :
    places beginsCall ('.' :: (new ++ after)) ≤ places beginsCall ('.' :: (old ++ after)) := by
  have hnone : inFront beginsCall ('.' :: new) after = 0 := by
    refine Text.inFront_eq_zero fun part hpart hne => ?_
    obtain ⟨lead, hlead⟩ := hpart
    rw [← Bool.not_eq_true]
    intro hcall
    obtain ⟨rest, hrest⟩ := exists_of_beginsCall hcall
    have hput : 't' :: '.' :: new = ('t' :: lead) ++ part := by rw [List.cons_append, hlead]
    exact Helper.not_dotted h hput (List.cons_ne_nil _ _) hne hrest
  calc places beginsCall ('.' :: new ++ after)
      = places beginsCall after := by rw [Text.places_append, hnone, Nat.zero_add]
    _ ≤ places beginsCall ('.' :: old ++ after) := Text.places_le_append _ _ _

/-- What is put in has the keys that are in what is added, and no other ones. -/
theorem Helper.places_put (hput : ∀ w ∈ helper.words, ∀ k ∈ optionKeys,
      IsSolid k ('t' :: '.' :: (w.2 ++ [' ', ':'])) ∧
        places k.isPrefixOf ('t' :: '.' :: (w.2 ++ [' ', ':'])) = 0)
    (hadded : ∀ k ∈ optionKeys, IsSolid k helper.added) (h : helper.rule admits old after new)
    {k : List Char} (hk : k ∈ optionKeys) : places k.isPrefixOf ('t' :: '.' :: (new ++ after)) =
      places k.isPrefixOf helper.added + places k.isPrefixOf after := by
  obtain ⟨w, hw, call, -, -, rfl⟩ := h
  obtain ⟨hsolid, hzero⟩ := hput w hw k hk
  have hcomma : ',' ∉ k := (optionKeys_plain k hk).2.2.2.2.1
  have hname := inFront_key_of_word hk call.name_word hcomma (helper.option ++ [helper.last] ++ after)
  have hsplit : 't' :: '.' :: (w.2 ++ ' ' :: ':' :: (call.name ++ helper.added) ++ after) =
      't' :: '.' :: (w.2 ++ [' ', ':']) ++ (call.name ++ (helper.added ++ after)) := by
    simp
  rw [hsplit, Text.places_append, hsolid.inFront_eq, hzero, Text.places_append, Text.places_append,
    (hadded k hk).inFront_eq, Nat.zero_add]
  rw [show helper.added ++ after = ',' :: (helper.option ++ [helper.last] ++ after) from rfl, hname,
    Nat.zero_add]

theorem Helper.lengthens (hadmits : ∀ line behind, admits line → '\n' ∉ line → StartsBreak behind →
    admits (line ++ behind)) : (helper.rule admits).swap.Extends := by
  rintro before _ line behind _ ⟨old, new, rfl, rfl, w, hw, call, hline, hrest⟩ hsolid hbehind
  exact ⟨old, new, rfl, rfl, w, hw, call, hadmits line behind hline hsolid hbehind, hrest⟩

/-- On whole lines the calls of columns are not broken. -/
theorem Helper.onLines (hcalls : ∀ w ∈ helper.words, 't' :: '.' :: w.1 ∈ namedCalls) {text : List Char}
    (hwhole : ∀ line ∈ splitChar '\n' text, IsWhole line)
    (hadmits : ∀ lead after, text = lead ++ after → admits after → admits (firstLine after)) :
    (helper.rule admits).swap.OnLines text where
  solid := by
    rintro lead _ after _ rfl ⟨_, _, rfl, rfl, w, hw, call, -, rfl, rfl⟩
    have hword : '\n' ∉ 't' :: '.' :: w.1 := by
      simp only [List.mem_cons, not_or]
      exact ⟨by decide, by decide, notMem_of_word (helper.words_word w hw).1 (by decide)⟩
    have hgap : '\n' ∉ call.gap := by
      intro hmem
      -- The call would end its line.
      obtain ⟨gap, others, hgap, hfirst⟩ := List.eq_append_cons_of_mem hmem
      have hcall : isBareCall ('t' :: '.' :: w.1 ++ gap) = true := by
        refine goesOn_iff.mpr ⟨_, hcalls w hw, gap, rfl, ?_⟩
        have hblank := call.gap_blank
        rw [hgap, List.all_append, Bool.and_eq_true] at hblank
        exact hblank.1
      have hpart : '\n' ∉ 't' :: '.' :: w.1 ++ gap := by
        rw [List.mem_append, not_or]
        exact ⟨hword, hfirst⟩
      obtain ⟨front, hline⟩ := Text.exists_line_around lead hpart
        ('\n' :: (others ++ (':' :: call.name ++ after)))
      have htext : lead ++ ('t' :: '.' :: w.1 ++ gap ++ '\n' :: (others ++ (':' :: call.name ++ after))) =
          lead ++ ('t' :: '.' :: (w.1 ++ call.text) ++ after) := by
        simp [Call.text, hgap]
      rw [htext, Text.firstLine_break, List.append_nil] at hline
      have hpos := Text.places_pos hcall (by simp) front
      rw [(hwhole _ hline).called] at hpos
      omega
    have hname : '\n' ∉ call.name := notMem_of_word call.name_word (by decide)
    have hput := break_notMem_put call.name w.2 call.name_word (helper.words_word w hw).2
    have hlast : '\n' ≠ helper.last := fun h => by
      have hblank := helper.last_plain.2
      rw [← h] at hblank
      exact absurd hblank (by decide)
    have hoption := helper.option_plain '\n' (by simp)
    simp only [List.mem_cons, List.mem_append, not_or] at hword hput
    constructor
    · simp only [Call.text, List.mem_cons, List.mem_append, not_or]
      exact ⟨hword.1, hword.2.1, hword.2.2, hgap, by decide, hname⟩
    · simp only [added, List.mem_cons, List.mem_append, List.not_mem_nil, or_false, not_or]
      exact ⟨hword.1, hword.2.1, hput.1, by decide, by decide, hname, by decide, hoption, hlast⟩
  ends := by
    rintro lead taken after _ htext ⟨old, new, rfl, rfl, w, hw, call, hafter, hrest⟩
    refine ⟨old, new, rfl, rfl, w, hw, call, ?_, hrest⟩
    exact hadmits (lead ++ 't' :: '.' :: old) after (by rw [htext, List.append_assoc]) hafter

end

/-! ### The three edits -/

theorem not_blocked_firstLine {s : List Char} (h : ¬ Blocked s) : ¬ Blocked (firstLine s) := by
  intro hblocked
  refine h ?_
  have hsplit : firstLine s ++ s.dropWhile (· != '\n') = s := List.takeWhile_append_dropWhile
  rw [← hsplit]
  exact hblocked.append_right _

theorem not_blocked_append {line behind : List Char} (h : ¬ Blocked line) (hbehind : StartsBreak behind) :
    ¬ Blocked (line ++ behind) := by
  intro hblocked
  have hhead : behind.head?.any Text.isWord = false := by
    rcases hbehind with rfl | ⟨s, rfl⟩ <;> rfl
  rcases hblocked.cases hhead with hline | ⟨-, run, rest, hsplit, hrun, k, hk, hrest⟩
  · exact h hline
  · obtain ⟨y, key, hkey⟩ := List.exists_cons_of_ne_nil (ne_nil_of_mem_keywords hk)
    cases run with
    | cons x run =>
      rcases hbehind with rfl | ⟨s, rfl⟩
      · cases hsplit
      · obtain ⟨rfl, -⟩ := List.cons_eq_cons.mp hsplit
        simp at hrun
    | nil =>
      obtain ⟨tail, rfl⟩ := hrest
      rw [hsplit, List.nil_append, hkey] at hhead
      have hword := List.all_eq_true.mp (keywords_plain k hk).1 y (by rw [hkey]; simp)
      have hword' : Text.isWord y = false := hhead
      rw [hword] at hword'
      cases hword'

/-- A line that is not blocked has no foreign key. -/
theorem not_foreignKey {s : List Char} (h : ¬ Blocked s) (hs : '\n' ∉ s) :
    ¬ "foreign_key:".toList <:+: s := by
  rintro ⟨run, rest, rfl⟩
  simp only [List.mem_append, not_or] at hs
  have hkey : "foreign_key:".toList = "foreign_key".toList ++ [':'] := by decide
  refine h ⟨run, "foreign_key:".toList ++ rest, by rw [List.append_assoc], hs.1.1, "foreign_key".toList,
    by decide, ?_⟩
  rw [hkey, List.append_assoc]
  exact List.prefix_append _ _

/-- References get a foreign key. -/
def referenceEdit : ColumnEdit where
  rule := referenceRule
  key := "foreign_key:".toList
  initials := ['r', 'b']
  key_mem := by decide
  initial := by
    rintro _ after _ ⟨w, hw, call, -, rfl, rfl⟩
    have hinitial : ∀ w ∈ referenceHelper.words, ∃ x ∈ ['r', 'b'], w.1.head? = some x ∧
        w.2.head? = some x := by
      simp only [referenceHelper, List.forall_mem_cons]
      exact ⟨⟨'r', by simp, by decide⟩, ⟨'b', by simp, by decide⟩, List.forall_mem_nil _⟩
    obtain ⟨x, hx, hfirst, hput⟩ := hinitial w hw
    exact ⟨x, hx, List.mem_head?_append_of_mem_head? hfirst, List.mem_head?_append_of_mem_head? hput⟩
  begins := Helper.begins (by decide)
  colon := by
    rintro _ after _ ⟨w, -, call, -, -, rfl⟩
    simp
  calls h _ := Helper.places_calls_le h
  once h _ := by
    rw [Helper.places_put (by decide) (by decide) h (by decide)]
    congr 1
  others h _ k hk hne := by
    have hnone : ∀ k ∈ optionKeys, k ≠ "foreign_key:".toList →
        places k.isPrefixOf referenceHelper.added = 0 := by decide
    rw [Helper.places_put (by decide) (by decide) h hk, hnone k hk hne, Nat.zero_add]
    exact Text.places_le_append _ ('t' :: '.' :: _) _
  same h _ hafter _ hkey := by
    obtain ⟨-, -, -, hfree, -, -⟩ := h
    exact absurd hkey (not_foreignKey hfree hafter)
  lengthens := Helper.lengthens fun _ _ h _ => not_blocked_append h
  onLines hwhole := Helper.onLines (by decide) hwhole fun _ _ _ => not_blocked_firstLine

/-- What is put in place of the call for timestamps, with what stands in front of the rest of the line. -/
def timestampFronts : List (List Char) :=
  ["t.timestamps precision: 6".toList, "t.timestamps precision: 6 ".toList,
    "t.timestamps precision: 6, ".toList]

theorem opensCall_append {after : List Char} (hafter : StartsBreak after) :
    OpensCall (rest ++ after) ↔ OpensCall rest := by
  constructor
  · rintro ⟨run, open', hsplit, hrun, hopen⟩
    obtain ⟨x, tail, rfl⟩ := List.exists_cons_of_ne_nil (show open' ≠ [] by rintro rfl; cases hopen)
    obtain rfl : x = '(' := Option.some.inj hopen
    have hsolid : '\n' ∉ run ++ ['('] := by
      rw [List.mem_append, not_or]
      exact ⟨fun hmem => absurd (List.all_eq_true.mp hrun _ hmem) (by decide), by decide⟩
    have hwhole : (run ++ ['(']) ++ tail = rest ++ after := by
      rw [hsplit, List.append_assoc]
      rfl
    obtain ⟨more, rfl⟩ := prefix_of_startsBreak hsolid hafter hwhole
    exact ⟨run, '(' :: more, by simp, hrun, rfl⟩
  · rintro ⟨run, open', rfl, hrun, hopen⟩
    refine ⟨run, open' ++ after, List.append_assoc _ _ _, hrun, ?_⟩
    exact List.mem_head?_append_of_mem_head? hopen

theorem isPrecise_append {after : List Char} (hafter : StartsBreak after) (hrest : '\n' ∉ rest) :
    IsPrecise (rest ++ after) ↔ "precision:".toList <:+: rest := by
  constructor
  · rintro ⟨run, tail, hsplit, hrun, tail', rfl⟩
    have hsolid : '\n' ∉ run ++ "precision:".toList := by
      rw [List.mem_append, not_or]
      exact ⟨(all_lineSet run).mp hrun, by decide⟩
    have hwhole : (run ++ "precision:".toList) ++ tail' = rest ++ after := by
      rw [hsplit, List.append_assoc]
    obtain ⟨more, rfl⟩ := prefix_of_startsBreak hsolid hafter hwhole
    exact ⟨run, more, rfl⟩
  · rintro ⟨run, tail, rfl⟩
    simp only [List.mem_append, not_or] at hrest
    exact ⟨run, "precision:".toList ++ tail ++ after, by simp only [List.append_assoc],
      (all_lineSet run).mpr hrest.1.1, by rw [List.append_assoc]; exact List.prefix_append _ _⟩

theorem startsWithWord_append {after : List Char} (hafter : StartsBreak after) :
    startsWithWord false (rest ++ after) = startsWithWord false rest := by
  cases rest with
  | nil => rcases hafter with rfl | ⟨s, rfl⟩ <;> rfl
  | cons x rest => rfl

/-- The rule for timestamps does not depend on the lines that follow. -/
theorem timestampRule_iff : timestampRule old after new ↔
    ∃ rest, '\n' ∉ rest ∧ StartsBreak after ∧ startsWithWord false rest = false ∧ ¬ OpensCall rest ∧
      ¬ "precision:".toList <:+: rest ∧ old = "timestamps".toList ++ rest ∧
      new = "timestamps precision: 6".toList ++ behindPrecision (Text.trim rest) := by
  refine exists_congr fun rest => and_congr_right fun hrest => and_congr_right fun hafter => ?_
  rw [startsWithWord_append hafter, opensCall_append hafter, isPrecise_append hafter hrest]

/-- The text that takes the place of timestamps is a fixed one and a part of the line without a key. -/
theorem exists_put (h : timestampRule old after new) (hafter : '\n' ∉ after) :
    after = [] ∧ ∃ front ∈ timestampFronts, ∃ left kept right, right.all Text.isBlank = true ∧
      old = "timestamps".toList ++ (left ++ (kept ++ right)) ∧ 't' :: '.' :: new = front ++ kept ∧
      ¬ "precision:".toList <:+: kept := by
  obtain ⟨rest, hrest, hbreak, -, -, hprecise, rfl, rfl⟩ := timestampRule_iff.mp h
  obtain ⟨left, right, hsplit, hright⟩ := exists_of_trim rest
  obtain ⟨gap, hgap, hbehind⟩ := behindPrecision_eq (Text.trim rest)
  have hdot : "t.timestamps precision: 6".toList = 't' :: '.' :: "timestamps precision: 6".toList := by
    decide
  refine ⟨?_, "t.timestamps precision: 6".toList ++ gap, ?_, left, Text.trim rest, right, hright,
    by rw [← hsplit], by rw [hbehind, hdot, List.append_assoc]; rfl, fun hkey => hprecise ?_⟩
  · rcases hbreak with hnil | ⟨s, rfl⟩
    · exact hnil
    · simp at hafter
  · have hfronts : ∀ gap ∈ [[], [' '], ", ".toList],
        "t.timestamps precision: 6".toList ++ gap ∈ timestampFronts := by decide
    exact hfronts gap hgap
  · rw [hsplit]
    exact hkey.trans ((List.prefix_append _ right).isInfix.trans (List.suffix_append left _).isInfix)

theorem timestampFronts_plain : ∀ front ∈ timestampFronts, front = 't' :: front.tail ∧
    IsSolid ['t', '.'] front.tail ∧ places (['t', '.'] : List Char).isPrefixOf front.tail = 0 ∧
    ∀ k ∈ optionKeys, IsSolid k front ∧
      places k.isPrefixOf front = if k = "precision:".toList then 1 else 0 := by
  decide

theorem beginsCall_append_blank {t right : List Char} (hright : right.all Text.isBlank = true)
    (h : beginsCall t = true) : beginsCall (t ++ right) = true := by
  obtain ⟨w, hw, rest, rfl, hrest⟩ := beginsCall_iff.mp h
  refine beginsCall_iff.mpr ⟨w, hw, rest ++ right, List.append_assoc _ _ _, ?_⟩
  cases rest with
  | nil => exact startsWithWord_of_blank hright
  | cons x rest => exact hrest

/-- Timestamps get a precision. -/
def timestampEdit : ColumnEdit where
  rule := timestampRule
  key := "precision:".toList
  initials := ['t']
  key_mem := by decide
  initial := by
    rintro _ after _ ⟨rest, -, -, -, -, -, rfl, rfl⟩
    have hold : "timestamps".toList = 't' :: "imestamps".toList := by decide
    have hnew : "timestamps precision: 6".toList = 't' :: "imestamps precision: 6".toList := by decide
    rw [hold, hnew]
    exact ⟨'t', List.mem_singleton_self _, rfl, rfl⟩
  begins := by
    rintro _ after _ ⟨rest, -, -, hword, -, -, rfl, -⟩
    have hdot : "t.timestamps".toList = 't' :: '.' :: "timestamps".toList := by decide
    refine beginsCall_iff.mpr ⟨_, List.mem_cons_self, rest ++ after, ?_, hword⟩
    rw [hdot, List.append_assoc]
    rfl
  colon := by
    rintro _ after _ ⟨rest, -, -, -, -, -, -, rfl⟩
    exact List.mem_append_left _ (by decide)
  calls := by
    intro old after new h hafter
    obtain ⟨rfl, front, hfront, left, kept, right, hright, rfl, hnew, -⟩ := exists_put h hafter
    obtain ⟨hcons, hsolid, hnone, -⟩ := timestampFronts_plain front hfront
    rw [hcons] at hnew
    have htail : '.' :: new = front.tail ++ kept := (List.cons_eq_cons.mp hnew).2
    have hzero : inFront beginsCall front.tail kept = 0 := by
      refine Nat.le_zero.mp ?_
      rw [← hnone, ← hsolid.inFront_eq kept]
      refine Text.inFront_le fun t _ _ hcall => ?_
      obtain ⟨rest, hrest⟩ := exists_of_beginsCall hcall
      rw [List.isPrefixOf_iff_prefix, hrest]
      exact ⟨rest, rfl⟩
    calc places beginsCall ('.' :: (new ++ []))
        = places beginsCall kept := by
          rw [List.append_nil, htail, Text.places_append, hzero, Nat.zero_add]
      _ = inFront beginsCall kept [] := Text.places_eq_inFront _ _
      _ ≤ inFront beginsCall kept right := by
          refine Text.inFront_le fun t _ _ hcall => beginsCall_append_blank hright ?_
          rwa [List.append_nil] at hcall
      _ ≤ places beginsCall (kept ++ right) := by
          rw [Text.places_append]
          exact Nat.le_add_right _ _
      _ ≤ places beginsCall (('.' :: ("timestamps".toList ++ left)) ++ (kept ++ right)) :=
          Text.places_le_append _ _ _
      _ = _ := by
          congr 1
          simp
  once := by
    intro old after new h hafter
    obtain ⟨rfl, front, hfront, left, kept, right, -, -, hnew, hkept⟩ := exists_put h hafter
    obtain ⟨hsolid, hone⟩ := (timestampFronts_plain front hfront).2.2.2 _ (List.mem_cons_self)
    rw [List.append_nil, hnew, Text.places_append, hsolid.inFront_eq, hone,
      (Text.places_eq_zero_iff (by decide)).mpr hkept]
    rfl
  others := by
    intro old after new h hafter k hk hne
    obtain ⟨rfl, front, hfront, left, kept, right, -, rfl, hnew, -⟩ := exists_put h hafter
    obtain ⟨hsolid, hzero⟩ := (timestampFronts_plain front hfront).2.2.2 k hk
    rw [if_neg hne] at hzero
    calc places k.isPrefixOf ('t' :: '.' :: (new ++ []))
        = places k.isPrefixOf kept := by
          rw [List.append_nil, hnew, Text.places_append, hsolid.inFront_eq, hzero, Nat.zero_add]
      _ ≤ places k.isPrefixOf (kept ++ right) :=
          Nat.le_trans (Nat.le_add_right _ _) (Text.places_add_le k kept right)
      _ ≤ places k.isPrefixOf ('t' :: '.' :: ("timestamps".toList ++ left) ++ (kept ++ right)) :=
          Text.places_le_append _ _ _
      _ = _ := by
          congr 1
          simp
  same := by
    intro old after new old' after' new' h _ hafter _ hkey
    obtain ⟨rfl, -⟩ := exists_put h hafter
    exact absurd (List.infix_nil.mp hkey) (by decide)
  lengthens := by
    rintro before _ line behind _ ⟨old, new, rfl, rfl, hrule⟩ hsolid hbehind
    obtain ⟨rfl, -⟩ := exists_put hrule hsolid
    obtain ⟨rest, hrest, -, hline⟩ := timestampRule_iff.mp hrule
    exact ⟨old, new, rfl, rfl, timestampRule_iff.mpr ⟨rest, hrest, hbehind, hline⟩⟩
  onLines := by
    intro text _
    refine ⟨?_, ?_⟩
    · rintro lead _ after _ - ⟨old, new, rfl, rfl, hrule⟩
      obtain ⟨-, ⟨moved⟩⟩ := exists_moved hrule
      have hword : '\n' ∉ "t.timestamps".toList := by decide
      have hrest := moved.rest_line
      rw [moved.old_eq, moved.new_eq]
      simp only [List.mem_append, not_or] at hrest ⊢
      exact ⟨⟨hword, hrest⟩, moved.front_line, hrest.2.1⟩
    · rintro lead _ after _ - ⟨old, new, rfl, rfl, hrule⟩
      obtain ⟨rest, hrest, hafter, hline⟩ := timestampRule_iff.mp hrule
      have hnil : firstLine after = [] := by
        rcases hafter with rfl | ⟨s, rfl⟩ <;> rfl
      rw [hnil]
      exact ⟨old, new, rfl, rfl, timestampRule_iff.mpr ⟨rest, hrest, .inl rfl, hline⟩⟩

/-- On a line that no comma begins, a column ends on its line. -/
theorem EndsColumn.firstLine {text lead after : List Char}
    (hwhole : ∀ line ∈ splitChar '\n' text, IsWhole line) (htext : text = lead ++ after)
    (h : EndsColumn after) : EndsColumn (Text.firstLine after) := by
  have hblank : ∀ {run : List Char}, run.all Text.isSpaceOrTab = true → '\n' ∉ run := fun hrun hmem =>
    absurd (List.all_eq_true.mp hrun _ hmem) (by decide)
  rcases h with ⟨run, rest, rfl, hrun, hrest⟩ | ⟨run, rest, rfl, hrun, hrest⟩
  · refine .inl ⟨run, [], ?_, hrun, .inl rfl⟩
    rw [Text.firstLine_append (hblank hrun)]
    rcases hrest with rfl | ⟨s, rfl⟩ <;> rfl
  · obtain ⟨x, rest, rfl⟩ := List.exists_cons_of_ne_nil (show rest ≠ [] by rintro rfl; cases hrest)
    obtain rfl : x = ',' := Option.some.inj hrest
    have hcomma : ∀ s, Text.firstLine (',' :: s) = ',' :: Text.firstLine s :=
      Text.firstLine_cons (by decide)
    obtain ⟨front, last, hlast, hsolid⟩ := exists_last_break run
    cases front with
    | nil =>
      obtain rfl : run = last := (List.cons_eq_cons.mp hlast).2
      exact .inr ⟨run, _, by rw [Text.firstLine_append hsolid, hcomma], hrun, rfl⟩
    | cons y front =>
      -- The comma would begin a line.
      have hrunSplit : run = front ++ '\n' :: last := (List.cons_eq_cons.mp hlast).2
      subst hrunSplit
      have hline : last ++ ',' :: Text.firstLine rest ∈ splitChar '\n' text := by
        rw [Text.splitChar_eq_map, htext]
        have hbehind : last ++ ',' :: rest ∈ Text.behindBreaks
            ('\n' :: (lead ++ (front ++ '\n' :: last ++ ',' :: rest))) :=
          Text.mem_behindBreaks_iff.mpr ⟨'\n' :: (lead ++ front), by simp⟩
        have hmem := List.mem_map_of_mem (f := Text.firstLine) hbehind
        rwa [Text.firstLine_append hsolid, hcomma] at hmem
      have hlastBlank : last.all Text.isBlank = true := by
        rw [List.all_append, List.all_cons, Bool.and_eq_true, Bool.and_eq_true] at hrun
        exact hrun.2.2
      refine absurd ?_ (hwhole _ hline).comma
      rw [List.dropWhile_append_of_pos (List.all_eq_true.mp hlastBlank)]
      rfl

/-- Columns of JSON get a default. -/
def jsonEdit : ColumnEdit where
  rule := jsonRule
  key := "default:".toList
  initials := ['j']
  key_mem := by decide
  initial := by
    rintro _ after _ ⟨w, hw, call, -, rfl, rfl⟩
    obtain rfl := List.mem_singleton.mp hw
    have hold : "json".toList = 'j' :: "son".toList := by decide
    have hnew : "jsonb".toList = 'j' :: "sonb".toList := by decide
    rw [hold, hnew]
    exact ⟨'j', List.mem_singleton_self _, rfl, rfl⟩
  begins := Helper.begins (by decide)
  colon := by
    rintro _ after _ ⟨w, -, call, -, -, rfl⟩
    simp
  calls h _ := Helper.places_calls_le h
  once h _ := by
    rw [Helper.places_put (by decide) (by decide) h (by decide)]
    congr 1
  others h _ k hk hne := by
    have hnone : ∀ k ∈ optionKeys, k ≠ "default:".toList →
        places k.isPrefixOf jsonHelper.added = 0 := by decide
    rw [Helper.places_put (by decide) (by decide) h hk, hnone k hk hne, Nat.zero_add]
    exact Text.places_le_append _ ('t' :: '.' :: _) _
  same := by
    rintro _ after _ _ after' _ ⟨w, hw, call, hend, rfl, -⟩ ⟨w', hw', call', hend', rfl, -⟩ - hsame hkey
    obtain rfl := List.mem_singleton.mp hw
    obtain rfl := List.mem_singleton.mp hw'
    -- The name is the whole word behind the colon.
    have hcalls : call.gap ++ ':' :: (call.name ++ after) = call'.gap ++ ':' :: (call'.name ++ after') := by
      simpa [Call.text] using hsame
    obtain ⟨-, hnames⟩ := Text.span_unique call.gap_blank call'.gap_blank (by rfl) (by rfl) hcalls
    obtain ⟨-, rfl⟩ := Text.span_unique call.name_word call'.name_word hend.head? hend'.head?
      (List.cons_eq_cons.mp hnames).2
    exact hkey
  lengthens := by
    refine Helper.lengthens fun line behind h hsolid hbehind => ?_
    rcases h with ⟨run, rest, rfl, hrun, hrest⟩ | ⟨run, rest, rfl, hrun, hrest⟩
    · obtain rfl : rest = [] := by
        rcases hrest with rfl | ⟨s, rfl⟩
        · rfl
        · simp at hsolid
      exact .inl ⟨run, behind, by rw [List.append_nil], hrun, hbehind⟩
    · exact .inr ⟨run, rest ++ behind, List.append_assoc _ _ _, hrun,
        List.mem_head?_append_of_mem_head? hrest⟩
  onLines hwhole := Helper.onLines (by decide) hwhole fun _ _ htext h => h.firstLine hwhole htext

/-! ### A pass over a line -/

/-- A line without line breaks that is whole and has one call at most. -/
structure Editable (line : List Char) : Prop extends IsWhole line where
  solid : '\n' ∉ line
  one : places beginsCall line ≤ 1

/-- Blanks in front of another character do not hide it. -/
theorem head?_dropWhile_append {c : Char} (hc : Text.isBlank c = false) (lead s s' : List Char) :
    ((lead ++ c :: s).dropWhile Text.isBlank).head? = ((lead ++ c :: s').dropWhile Text.isBlank).head? := by
  induction lead with
  | nil => simp [hc]
  | cons x lead ih =>
    by_cases hx : Text.isBlank x = true
    · simpa [hx] using ih
    · simp [hx]

namespace ColumnEdit

variable {e : ColumnEdit}

/-- The edit adds its key to a line that has it in front of the call or behind it. -/
def Repeats (e : ColumnEdit) (line : List Char) : Prop :=
  ∃ lead old after new, line = lead ++ 't' :: '.' :: (old ++ after) ∧ e.rule old after new ∧
    (e.key <:+: lead ∨ e.key <:+: after)

/-- A pass changes a line at its one call, or it finds nothing to edit. -/
theorem cases (hpass : Pass e.rule.swap [] line result) (hline : Editable line) :
    (result = line ∧ ∀ lead old after new, line = lead ++ 't' :: '.' :: (old ++ after) →
      ¬ e.rule old after new) ∨
    ∃ lead old after new, line = lead ++ 't' :: '.' :: (old ++ after) ∧ e.rule old after new ∧
      result = lead ++ 't' :: '.' :: (new ++ after) := by
  have hone : ∀ {lead taken after new lead' taken' after' new'}, line = lead ++ (taken ++ after) →
      e.rule.swap (lead.reverse ++ []) taken after new → line = lead' ++ (taken' ++ after') →
      e.rule.swap (lead'.reverse ++ []) taken' after' new' → lead = lead' := by
    rintro lead _ after _ lead' _ after' _ hplace ⟨old, new, rfl, rfl, hrule⟩ hplace'
      ⟨old', new', rfl, rfl, hrule'⟩
    exact Text.eq_of_places_le_one hline.one hplace hplace' (e.begins hrule) (e.begins hrule')
      (List.cons_ne_nil _ _) (List.cons_ne_nil _ _)
  rcases hpass.single hone with
    ⟨hsame, hnone⟩ | ⟨lead, _, after, _, hplace, ⟨old, new, rfl, rfl, hrule⟩, hnew⟩
  · refine .inl ⟨hsame, fun lead old after new hplace hrule => ?_⟩
    exact hnone lead ('t' :: '.' :: old) after ('t' :: '.' :: new) hplace (List.cons_ne_nil _ _)
      ⟨old, new, rfl, rfl, hrule⟩
  · exact .inr ⟨lead, old, after, new, hplace, hrule, hnew⟩

/-- Once its call is edited, a line has no other one. -/
theorem eq_of_call (hline : Editable (lead ++ 't' :: '.' :: (old ++ after))) (hrule : e.rule old after new)
    {lead' s : List Char} (hplace : lead ++ 't' :: '.' :: (new ++ after) = lead' ++ s)
    (hs : beginsCall s = true) : lead' = lead := by
  have hafter : '\n' ∉ after := fun hmem => hline.solid (by simp [hmem])
  obtain ⟨hfront, hback⟩ := Text.nowhere_else hline.one (e.begins hrule)
  have hne : s ≠ [] := by
    obtain ⟨rest, rfl⟩ := exists_of_beginsCall hs
    exact List.cons_ne_nil _ _
  refine Text.only_place ?_ (Nat.le_zero.mp (hback ▸ e.calls hrule hafter)) hplace hs hne
  rw [inFront_beginsCall lead _ (old ++ after), hfront]

theorem editable_of_rule (hline : Editable (lead ++ 't' :: '.' :: (old ++ after)))
    (hrule : e.rule old after new) (hsolid : '\n' ∉ new) :
    Editable (lead ++ 't' :: '.' :: (new ++ after)) where
  called := by
    rw [Text.places_eq_inFront]
    refine Text.inFront_eq_zero fun t ht hne => ?_
    obtain ⟨lead', hplace⟩ := ht
    rw [List.append_nil, ← Bool.not_eq_true]
    -- A call that lacks its colon would be the one that the rule has rewritten, which has one.
    intro hbare
    have hsame := eq_of_call hline hrule hplace.symm (beginsCall_of_bare hbare)
    rw [hsame] at hplace
    obtain rfl := List.append_cancel_left hplace
    have hcolon := e.colon hrule
    rw [isBareCall_of_colon (by simp [hcolon])] at hbare
    cases hbare
  comma := by
    have hblank : Text.isBlank 't' = false := by decide
    rw [head?_dropWhile_append hblank lead _ ('.' :: (old ++ after))]
    exact hline.comma
  solid := by
    have hbreak := hline.solid
    simp only [List.mem_append, List.mem_cons, not_or] at hbreak ⊢
    exact ⟨hbreak.1, by decide, by decide, hsolid, hbreak.2.2.2.2⟩
  -- The rewritten call stands for the one that was there, in a line that held no other.
  one := by
    have hafter : '\n' ∉ after := fun hmem => hline.solid (by simp [hmem])
    obtain ⟨hfront, hback⟩ := Text.nowhere_else hline.one (e.begins hrule)
    have hrest := e.calls hrule hafter
    rw [hback] at hrest
    rw [Text.places_append, inFront_beginsCall lead _ (old ++ after), hfront, places]
    split <;> omega

/-- A line whose call is edited has a key twice if the edit adds one that the line has. -/
theorem doubled_iff (hline : Editable (lead ++ 't' :: '.' :: (old ++ after))) (hrule : e.rule old after new)
    (hkeys : ¬ Doubled (lead ++ 't' :: '.' :: (old ++ after))) :
    Doubled (lead ++ 't' :: '.' :: (new ++ after)) ↔ e.key <:+: lead ∨ e.key <:+: after := by
  have hafter : '\n' ∉ after := fun hmem => hline.solid (by simp [hmem])
  have hsplit : ∀ k ∈ optionKeys, ∀ s, places k.isPrefixOf (lead ++ 't' :: '.' :: s) =
      places k.isPrefixOf lead + places k.isPrefixOf ('t' :: '.' :: s) := by
    intro k hk s
    rw [Text.places_append, show 't' :: '.' :: s = ['t', '.'] ++ s from rfl,
      (optionKeys_plain k hk).2.1.inFront_eq]
  have hne := (optionKeys_plain _ e.key_mem).1
  rw [← Text.places_pos_iff hne, ← Text.places_pos_iff hne]
  constructor
  · rintro ⟨k, hk, htwice⟩
    rw [hsplit k hk] at htwice
    by_cases hkey : k = e.key
    · rw [hkey, e.once hrule hafter] at htwice
      omega
    · -- Another key is not there more often than before.
      have hmore := e.others hrule hafter k hk hkey
      refine absurd ⟨k, hk, ?_⟩ hkeys
      rw [hsplit k hk]
      omega
  · intro hthere
    refine ⟨e.key, e.key_mem, ?_⟩
    rw [hsplit _ e.key_mem, e.once hrule hafter]
    omega

end ColumnEdit

/-! ### The passes of some edits -/

/-- The passes of some edits, one after the other. -/
inductive Passes : List ColumnEdit → (text result : List Char) → Prop
  | done (text : List Char) : Passes [] text text
  | pass {e : ColumnEdit} {edits : List ColumnEdit} {text mid result : List Char}
      (first : Pass e.rule.swap [] text mid) (more : Passes edits mid result) :
      Passes (e :: edits) text result

theorem Passes.eq_self {edits : List ColumnEdit} {mid : List Char} (h : Passes edits mid result)
    (hnone : ∀ e ∈ edits, ∀ lead old after new, mid = lead ++ 't' :: '.' :: (old ++ after) →
      ¬ e.rule old after new) : result = mid := by
  induction h with
  | done => rfl
  | @pass e edits text mid result first more ih =>
    obtain rfl : mid = text := by
      refine first.eq_self ?_
      rintro lead _ after _ hplace ⟨old, new, rfl, rfl, hrule⟩
      exact absurd hrule (hnone e List.mem_cons_self lead old after new hplace)
    exact ih fun e he => hnone e (List.mem_cons_of_mem _ he)

/-- The words of two edits begin with different characters. -/
def AreApart (e e' : ColumnEdit) : Prop := ∀ x ∈ e.initials, x ∉ e'.initials

/-- The passes of some edits double a key on a line exactly if one of them adds its key to a line that has
it in front of the call or behind it. -/
theorem Passes.doubled_iff {edits : List ColumnEdit} (hapart : edits.Pairwise AreApart)
    (h : Passes edits line result) (hline : Editable line) (hkeys : ¬ Doubled line) :
    Doubled result ↔ ∃ e ∈ edits, e.Repeats line := by
  induction h with
  | done => simp [hkeys]
  | @pass e edits line mid result first more ih =>
    obtain ⟨hfirst, hlater⟩ := List.pairwise_cons.mp hapart
    rcases ColumnEdit.cases first hline with ⟨rfl, hnone⟩ | ⟨lead, old, after, new, rfl, hrule, rfl⟩
    · have hidle : ¬ e.Repeats mid := fun ⟨lead, old, after, new, hplace, hrule, _⟩ =>
        hnone lead old after new hplace hrule
      simp [ih hlater hline hkeys, hidle]
    · -- The line has no other call, so that the edits that follow change nothing.
      obtain ⟨x, hx, hold, hnew⟩ := e.initial hrule
      have hother : ∀ e' ∈ edits, ∀ {s old' after' new'}, s.head? = some x → e'.rule old' after' new' →
          s ++ after ≠ old' ++ after' := by
        intro e' he' s old' after' new' hs hrule' heq
        obtain ⟨y, hy, hy', -⟩ := e'.initial hrule'
        have hfirstOf : (s ++ after).head? = some x := List.mem_head?_append_of_mem_head? hs
        have hfirstOf' : (old' ++ after').head? = some y := List.mem_head?_append_of_mem_head? hy'
        rw [heq, hfirstOf'] at hfirstOf
        obtain rfl := Option.some.inj hfirstOf
        exact hfirst e' he' y hx hy
      obtain rfl := more.eq_self fun e' he' lead' old' after' new' hplace hrule' => by
        obtain rfl := ColumnEdit.eq_of_call hline hrule hplace (e'.begins hrule')
        have htail := (List.cons_eq_cons.mp (List.append_cancel_left hplace)).2
        exact hother e' he' hnew hrule' (List.cons_eq_cons.mp htail).2
      rw [ColumnEdit.doubled_iff hline hrule hkeys]
      constructor
      · exact fun hkey => ⟨e, List.mem_cons_self, lead, old, after, new, rfl, hrule, hkey⟩
      · rintro ⟨e', he', lead', old', after', new', hplace, hrule', hkey⟩
        obtain rfl := Text.eq_of_places_le_one hline.one rfl hplace (e.begins hrule) (e'.begins hrule')
          (List.cons_ne_nil _ _) (List.cons_ne_nil _ _)
        have hsame := (List.cons_eq_cons.mp (List.cons_eq_cons.mp (List.append_cancel_left hplace)).2).2
        rcases List.mem_cons.mp he' with rfl | he'
        · have hafter' : '\n' ∉ after' := fun hmem => by
            refine hline.solid ?_
            rw [hplace]
            simp [hmem]
          exact hkey.imp_right (e'.same hrule' hrule hafter' hsame.symm)
        · exact absurd hsame (hother e' he' hold hrule')

end Migration

end RailsUpgrade
