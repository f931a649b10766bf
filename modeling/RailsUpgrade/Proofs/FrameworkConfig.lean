import RailsUpgrade.FrameworkConfig
import RailsUpgrade.Proofs.Gemfile

/-!
# `RailsUpgrade.Proofs.FrameworkConfig`: configuration files that are up to date stay as they are

Each edit of a configuration file takes one way if the text has something already, and another one
if it has not. A second edit takes the first way where the first edit took the second one:

* `addBootsnap_addBootsnap`, `allowHosts_allowHosts`: what these edits look for is part of what they
  put in (`again_of_part`);
* `dropUglifier_dropUglifier`: behind the margin of a line that was commented out there is no choice
  of a compressor (`not_chooses_of_pass`);
* `setLoadDefaults_setLoadDefaults`: all settings that a pass leaves are the one of the target
  (`allSet_of_pass`), and so is the only one in a text that had none (`allSet_insert`);
* `settles_of_mem`: this holds of every edit in the list, and none of them makes carriage returns.
-/

set_option autoImplicit false

namespace RailsUpgrade.FrameworkConfig

open Pattern (Expr CharSet Match Pass Swap reads_chars reads_run canTake_seq canTake_star
  canTake_plus canTake_chars canTake_literal canTake_anchor canTake_group pass_replaceAll
  mem_ends_seq mem_ends_anchor mem_ends_star mem_ends_plus mem_ends_literal head?_ends_chars
  head?_ends_seq head?_ends_plus head?_after_run reads_seq_anchor hit_of_search)
open Text (StartsBreak)
open Gemfile (gapSet startsBreak_iff)

/-! ### Edits that put something in -/

section

variable {before text result : List Char}

/-- An edit that leaves a text alone once it has a part, and else changes nothing or puts the part in,
changes nothing a second time. -/
theorem again_of_part (edit : List Char → List Char) (part : List Char)
    (hskip : ∀ text, Text.hasPart part text = true → edit text = text)
    (hput : ∀ text, edit text = text ∨ part <:+: edit text) (text : List Char) :
    edit (edit text) = edit text := by
  rcases hput text with hsame | hpart
  · rw [hsame, hsame]
  · exact hskip _ (Text.hasPart_iff.mpr hpart)

theorem addBootsnap_addBootsnap (text : List Char) :
    addBootsnap (addBootsnap text) = addBootsnap text := by
  refine again_of_part addBootsnap "bootsnap/setup".toList
    (fun text h => if_pos h) (fun text => ?_) text
  unfold addBootsnap Pattern.Expr.replaceFirst
  split
  · exact .inl rfl
  · split
    · exact .inl rfl
    · rename_i m _
      -- The part stands in the new line, behind `\nrequire '`.
      refine .inr ⟨m.left ++ (m.group 1 ++ "\nrequire '".toList),
        "' # Speed up boot time by caching expensive operations.".toList ++ m.right, ?_⟩
      simp

theorem allowHosts_allowHosts (text : List Char) : allowHosts (allowHosts text) = allowHosts text := by
  have hpart : "config.hosts".toList <:+: hostsLines := Text.hasPart_iff.mp (by decide)
  refine again_of_part allowHosts "config.hosts".toList
    (fun text h => if_pos h) (fun text => ?_) text
  unfold allowHosts
  split
  · exact .inl rfl
  · split
    · rename_i m _
      refine .inr (hpart.trans ⟨m.left ++ (m.text ++ ['\n']), m.right, by simp⟩)
    · split
      · rename_i m _
        exact .inr (hpart.trans ⟨m.left ++ m.text, m.right, by simp⟩)
      · exact .inl rfl

/-! ### The compressor -/

/-- What chooses the old compressor, behind a margin. -/
def oldChoice : List Char := "config.assets.js_compressor = :uglifier".toList

/-- What comments it out. -/
def newChoice : List Char := "# config.assets.js_compressor = :terser".toList

theorem uglifier_expr : uglifier.expr = .seq (.anchor .lineStart)
    (.seq (.group 1 (.star blankSet)) (.literal oldChoice)) :=
  Pattern.expr_fixed String.toList_ofList (by decide +kernel)

theorem exists_cons_choice : (∃ more, oldChoice = 'c' :: more) ∧ ∃ more, newChoice = '#' :: more :=
  ⟨⟨"onfig.assets.js_compressor = :uglifier".toList, by decide⟩,
    ⟨" config.assets.js_compressor = :terser".toList, by decide⟩⟩

/-- A line that chooses the old compressor. -/
def Chooses (s : List Char) : Prop :=
  ∃ margin rest, margin.all Text.isSpaceOrTab = true ∧ s = margin ++ (oldChoice ++ rest)

/-- The swap that comments out the old compressor. -/
def commented : Swap := fun before taken _ new => StartsBreak before ∧
  ∃ margin, margin.all Text.isSpaceOrTab = true ∧ taken = margin ++ oldChoice ∧
    new = margin ++ newChoice

theorem swaps_uglifier : uglifier.expr.Swaps (fun m => m.group 1 ++ newChoice) commented where
  sound := by
    intro before after pos c hc
    rw [uglifier_expr] at hc
    obtain ⟨start, hstart, hc⟩ := mem_ends_seq.mp (List.mem_of_head? hc)
    obtain ⟨rfl, hholds⟩ := mem_ends_anchor.mp hstart
    obtain ⟨front, hfront, hc⟩ := mem_ends_seq.mp hc
    obtain ⟨inner, hinner, rfl⟩ := List.mem_map.mp hfront
    obtain ⟨margin, hmargin, htakes, -⟩ := mem_ends_star hinner
    obtain ⟨htakes', hgroups⟩ := mem_ends_literal hc
    have hmargin' : margin.all Text.isSpaceOrTab = true := by simpa using hmargin
    -- The margin is what the group has captured.
    have hfirst : Pattern.Cursor.Takes { before, after, pos } margin
        (inner.capture 1 { before, after, pos }) := ⟨htakes.after, htakes.before, htakes.pos⟩
    have hgroup : c.group? 1 = some margin := by
      rw [Pattern.Cursor.group?, hgroups]
      simp only [Pattern.Cursor.capture, List.lookup_cons, beq_self_eq_true, Option.map_some]
      exact congrArg some hfirst.textTo
    refine ⟨margin ++ oldChoice, ?_, hfirst.trans htakes', ?_⟩
    · obtain ⟨more, hmore⟩ := exists_cons_choice.1
      simp [hmore]
    refine ⟨startsBreak_iff.mp hholds, margin, hmargin', rfl, ?_⟩
    rw [Match.group, hgroup, Option.getD_some]
  complete := by
    rintro before taken after new pos ⟨hbefore, margin, hmargin, rfl, -⟩ hnil
    have htake : uglifier.expr.CanTake before ([] ++ (margin ++ oldChoice)) after := by
      rw [uglifier_expr]
      refine canTake_seq (canTake_anchor ?_) (canTake_seq (canTake_group (canTake_star ?_))
        canTake_literal)
      · rintro c rfl -
        exact startsBreak_iff.mpr hbefore
      · simpa using hmargin
    obtain ⟨c, hc, -⟩ := htake { before, after := (margin ++ oldChoice) ++ after, pos } rfl rfl
    rw [hnil] at hc
    cases hc

theorem break_notMem_choice {margin : List Char} (h : margin.all Text.isSpaceOrTab = true)
    {s : List Char} (hs : '\n' ∉ s) : '\n' ∉ margin ++ s := by
  rw [List.mem_append, not_or]
  exact ⟨fun hmem => absurd (List.all_eq_true.mp h _ hmem) (by decide), hs⟩

/-- A place behind a line break that lies in what a text was replaced by lies before or behind it. -/
theorem not_startsBreak {part lead rest before : List Char} (hpart : '\n' ∉ part)
    (hlead : lead ≠ []) (h : part = lead ++ rest) : ¬ StartsBreak (lead.reverse ++ before) := by
  obtain ⟨more, x, rfl⟩ := (List.eq_nil_or_concat' lead).resolve_left hlead
  rintro (hnil | ⟨others, hothers⟩)
  · simp at hnil
  · obtain ⟨rfl, -⟩ : x = '\n' ∧ _ := by simpa using hothers
    exact hpart (by rw [h]; simp)

/-- Where a pass has left a line that chooses the old compressor, there was one before. -/
theorem chooses_of_pass {kept : List Char} (hkept : kept ≠ [])
    (h : Pass commented (kept.reverse ++ before) text result) (hchooses : Chooses (kept ++ result)) :
    Chooses (kept ++ text) := by
  obtain ⟨margin, rest, hmargin, heq⟩ := hchooses
  -- A replacement begins a line, so the line that is looked for ends before it.
  have hhit : ∀ kept taken after new more found rest, kept ≠ [] → taken ++ after <:+ text →
      commented (kept.reverse ++ before) taken after new →
      Pass commented ((kept ++ taken).reverse ++ before) after more →
      kept ++ (new ++ more) = found ++ rest →
      (∃ margin, margin.all Text.isSpaceOrTab = true ∧ found = margin ++ oldChoice) →
      ∃ found' rest', kept ++ (taken ++ after) = found' ++ rest' ∧
        ∃ margin, margin.all Text.isSpaceOrTab = true ∧ found' = margin ++ oldChoice := by
    rintro kept taken after new more found rest hkept - ⟨hbreak, -⟩ - heq ⟨margin, hmargin, rfl⟩
    have hsolid := break_notMem_choice hmargin (s := oldChoice) (by decide)
    rcases List.append_eq_append_iff.mp heq with ⟨part, hfound, -⟩ | ⟨part, rfl, -⟩
    · exact absurd hbreak (not_startsBreak hsolid hkept hfound)
    · exact ⟨_, part ++ (taken ++ after), List.append_assoc _ _ _, margin, hmargin, rfl⟩
  obtain ⟨_, more, hfound, margin, hmargin, rfl⟩ := h.reflects hkept hhit
    (show kept ++ result = (margin ++ oldChoice) ++ rest by rw [heq, List.append_assoc]) ⟨margin, hmargin, rfl⟩
  exact ⟨margin, more, hmargin, by rw [hfound, List.append_assoc]⟩

/-- A line that is commented out chooses nothing. -/
theorem not_chooses_comment {margin more : List Char} (h : margin.all Text.isSpaceOrTab = true) :
    ¬ Chooses (margin ++ (newChoice ++ more)) := by
  rintro ⟨margin', rest, hmargin', heq⟩
  obtain ⟨⟨old, hold⟩, ⟨new, hnew⟩⟩ := exists_cons_choice
  rw [hold, hnew] at heq
  obtain ⟨-, hrest⟩ := Text.span_unique h hmargin' rfl rfl heq
  cases hrest

/-- After a pass no line chooses the old compressor. -/
theorem not_chooses_of_pass (h : Pass commented before text result) :
    ∀ lead rest, result = lead ++ rest → StartsBreak (lead.reverse ++ before) → ¬ Chooses rest := by
  induction h with
  | done before =>
    rintro lead rest heq - ⟨margin, more, -, rfl⟩
    obtain ⟨⟨old, hold⟩, -⟩ := exists_cons_choice
    simp [hold] at heq
  | @keep before text result x idle more ih =>
    intro lead rest heq hbreak hchooses
    cases lead with
    | nil =>
      obtain rfl : x :: result = rest := heq
      obtain ⟨margin, after, hmargin, htext⟩ : Chooses ([x] ++ text) :=
        chooses_of_pass (List.cons_ne_nil x []) more hchooses
      exact idle (margin ++ oldChoice) after (margin ++ newChoice) (by simpa using htext)
        ⟨by simpa using hbreak, margin, hmargin, rfl, rfl⟩
    | cons y lead =>
      obtain ⟨rfl, rfl⟩ := List.cons_eq_cons.mp heq
      exact ih lead rest rfl (by simpa using hbreak) hchooses
  | @hit before taken after new result _ hswap more ih =>
    obtain ⟨hstart, margin, hmargin, rfl, rfl⟩ := hswap
    intro lead rest heq hbreak hchooses
    have hsolid := break_notMem_choice hmargin (s := newChoice) (by decide)
    rcases List.append_eq_append_iff.mp heq with ⟨part, rfl, rfl⟩ | ⟨part, hnew, rfl⟩
    · -- Behind the comment: what ends it is no line break, so some text stands in between.
      cases part with
      | nil =>
        obtain ⟨-, ⟨new, hnew⟩⟩ := exists_cons_choice
        rw [List.append_nil] at hbreak
        exact not_startsBreak hsolid (by simp [hnew]) (List.append_nil _).symm hbreak
      | cons y part =>
        refine ih (y :: part) rest rfl ?_ hchooses
        rcases hbreak with hnil | ⟨others, hothers⟩
        · simp at hnil
        · obtain ⟨last, lead, hlast⟩ : ∃ last lead, (y :: part).reverse = last :: lead :=
            List.exists_cons_of_ne_nil (by simp)
          refine .inr ⟨lead ++ ((margin ++ oldChoice).reverse ++ before), ?_⟩
          rw [List.reverse_append, List.append_assoc, hlast] at hothers
          obtain ⟨rfl, -⟩ : last = '\n' ∧ _ := by simpa using hothers
          rw [hlast]
          simp
    · cases lead with
      | nil =>
        rw [List.nil_append] at hnew
        subst hnew
        exact not_chooses_comment hmargin (by simpa using hchooses)
      | cons y lead => exact not_startsBreak hsolid (by simp) hnew hbreak

theorem dropUglifier_dropUglifier (text : List Char) :
    dropUglifier (dropUglifier text) = dropUglifier text := by
  have hfirst : Pass commented [] text (dropUglifier text) := pass_replaceAll swaps_uglifier text
  have hsecond : Pass commented [] (dropUglifier text) (dropUglifier (dropUglifier text)) :=
    pass_replaceAll swaps_uglifier _
  refine hsecond.eq_self fun lead taken after new htext hswap => ?_
  obtain ⟨hbreak, margin, hmargin, rfl, -⟩ := hswap
  exact absurd ⟨margin, after, hmargin, List.append_assoc _ _ _⟩
    (not_chooses_of_pass hfirst lead _ htext hbreak)

end
/-! ### The framework defaults -/

/-- A character of a release line: a digit or a dot. -/
def isValueChar (c : Char) : Bool := Text.isDigit c || c == '.'

theorem isValueChar_eq_false_of_isBlank {c : Char} (h : Text.isBlank c = true) :
    isValueChar c = false := by
  have hcodes : ∀ n ∈ Text.blankCodes, isValueChar (Char.ofNat n) = false := by decide
  have hc := hcodes c.toNat (Text.mem_blankCodes h)
  rwa [Char.ofNat_toNat] at hc

def valueSet : CharSet := .ofItems [.kind .digit false false, .one '.']

@[simp] theorem mem_valueSet (x : Char) : valueSet.mem x = isValueChar x := by
  simp [valueSet, Pattern.CharItem.mem, Pattern.CharKind.mem, isValueChar]

theorem all_valueSet (s : List Char) : s.all valueSet.mem = s.all isValueChar := by
  rw [show valueSet.mem = isValueChar from funext mem_valueSet]

theorem loadDefaults_expr : loadDefaults.expr =
    .chars "config.load_defaults" (.seq (.plus gapSet) (.plus valueSet)) :=
  Pattern.expr_fixed String.toList_ofList (by decide)

/-- A setting of the framework defaults. -/
structure Setting where
  gap : List Char
  value : List Char
  gap_blank : gap.all Text.isBlank = true
  gap_ne : gap ≠ []
  value_plain : value.all isValueChar = true
  value_ne : value ≠ []

/-- The name of the framework defaults behind its first letter. -/
def nameTail : List Char := "onfig.load_defaults".toList

theorem name_eq : "config.load_defaults".toList = 'c' :: nameTail := by decide

namespace Setting

/-- How a setting goes on behind its first letter, which is the only `c` in it. -/
def tail (s : Setting) : List Char := nameTail ++ (s.gap ++ s.value)

def text (s : Setting) : List Char := 'c' :: s.tail

variable (s s' : Setting)

theorem text_eq : s.text = "config.load_defaults".toList ++ (s.gap ++ s.value) := by
  rw [name_eq]
  rfl

theorem c_notMem_tail : 'c' ∉ s.tail := by
  have hgap : 'c' ∉ s.gap := fun h => absurd (List.all_eq_true.mp s.gap_blank _ h) (by decide)
  have hvalue : 'c' ∉ s.value := fun h => absurd (List.all_eq_true.mp s.value_plain _ h) (by decide)
  have hname : 'c' ∉ nameTail := by decide
  simp only [tail, List.mem_append, not_or]
  exact ⟨hname, hgap, hvalue⟩

/-- The value ends where no character of it follows, so a text begins with one setting only. -/
theorem text_unique {s s' : Setting} {rest rest' : List Char}
    (hrest : rest.head?.any isValueChar = false) (hrest' : rest'.head?.any isValueChar = false)
    (h : s.text ++ rest = s'.text ++ rest') : s.text = s'.text ∧ rest = rest' := by
  have hblank : ∀ {s : Setting} {rest : List Char}, (s.value ++ rest).head?.any Text.isBlank = false := by
    intro s rest
    obtain ⟨x, value, hvalue⟩ := List.exists_cons_of_ne_nil s.value_ne
    have hx : isValueChar x = true := List.all_eq_true.mp s.value_plain x (by simp [hvalue])
    rw [hvalue]
    show Text.isBlank x = false
    by_contra hblank
    rw [isValueChar_eq_false_of_isBlank (by simpa using hblank)] at hx
    cases hx
  rw [text_eq, text_eq, List.append_assoc, List.append_assoc, List.append_assoc,
    List.append_assoc] at h
  obtain ⟨hgap, hvalue⟩ := Text.span_unique s.gap_blank s'.gap_blank hblank hblank
    (List.append_cancel_left h)
  obtain ⟨hvalue, hsame⟩ := Text.span_unique s.value_plain s'.value_plain hrest hrest' hvalue
  exact ⟨by rw [text_eq, text_eq, hgap, hvalue], hsame⟩

/-- The setting of a release. -/
def ofVersion (v : Version) : Setting where
  gap := [' ']
  value := v.line.toList
  gap_blank := Gemfile.isBlank_space
  gap_ne := Gemfile.space_ne_nil
  value_plain := by
    have hdigits : ∀ n : Nat, (toString n).toList.all isValueChar = true := by
      intro n
      refine List.all_eq_true.mpr fun c hc => ?_
      have hc' : c ∈ Nat.toDigits 10 n := by simpa using hc
      have hdigit := Nat.isDigit_of_mem_toDigits (by decide) (by decide) hc'
      simp [isValueChar, Text.isDigit, Text.digitValue?, hdigit]
    rw [Version.line, String.toList_append, String.toList_append, List.all_append, List.all_append,
      hdigits, hdigits]
    decide
  value_ne := by simp [Version.line]

end Setting

theorem setting_eq (v : Version) :
    "config.load_defaults ".toList ++ v.line.toList = (Setting.ofVersion v).text := by
  have hkey : "config.load_defaults ".toList = "config.load_defaults".toList ++ [' '] := by
    decide
  rw [Setting.text_eq, hkey, List.append_assoc]
  rfl

/-- The swap that sets the framework defaults. What follows a setting does not belong to its value. -/
def setTo (v : Version) : Swap := fun _ taken after new =>
  (∃ s : Setting, taken = s.text) ∧ after.head?.any isValueChar = false ∧
    new = (Setting.ofVersion v).text

theorem swaps_loadDefaults (v : Version) :
    loadDefaults.expr.Swaps (fun _ => (Setting.ofVersion v).text) (setTo v) where
  sound := by
    intro before after pos c hc
    rw [loadDefaults_expr] at hc
    obtain ⟨mid, htakes, hc⟩ := head?_ends_chars hc
    obtain ⟨mid', hmid, hc⟩ := head?_ends_seq hc
    obtain ⟨gap, hgap, hgapNe, htakes', -⟩ := mem_ends_plus hmid
    obtain ⟨value, hvalue, hvalueNe, htakes'', -⟩ := mem_ends_plus (List.mem_of_head? hc)
    -- The value is taken as far as it goes, so that none of its characters follows.
    have hstop := head?_after_run valueSet mid'
    rw [← head?_ends_plus hc, show valueSet.mem = isValueChar from funext mem_valueSet] at hstop
    rw [Gemfile.all_gapSet] at hgap
    rw [all_valueSet] at hvalue
    have htext := Setting.text_eq ⟨gap, value, hgap, hgapNe, hvalue, hvalueNe⟩
    refine ⟨_, List.cons_ne_nil _ _, ?_, ⟨⟨gap, value, hgap, hgapNe, hvalue, hvalueNe⟩, rfl⟩,
      hstop, rfl⟩
    show Pattern.Cursor.Takes _ (Setting.text _) _
    rw [htext]
    exact htakes.trans (htakes'.trans htakes'')
  complete := by
    -- A setting can be taken, since a gap and a value are runs that are not empty.
    rintro before taken after new pos ⟨⟨s, rfl⟩, -, -⟩ hnil
    have htake : loadDefaults.expr.CanTake before s.text after := by
      rw [loadDefaults_expr, s.text_eq]
      refine canTake_chars (canTake_seq (canTake_plus ?_ s.gap_ne) (canTake_plus ?_ s.value_ne))
      · rw [Gemfile.all_gapSet, s.gap_blank]
      · rw [all_valueSet, s.value_plain]
    obtain ⟨c, hc, -⟩ := htake { before, after := s.text ++ after, pos } rfl rfl
    rw [hnil] at hc
    cases hc

/-- Every setting in a text is the one of a release. -/
def AllSet (v : Version) (text : List Char) : Prop :=
  ∀ lead (s : Setting) rest, text = lead ++ (s.text ++ rest) → rest.head?.any isValueChar = false →
    s.text = (Setting.ofVersion v).text

theorem AllSet.replaceAll {v : Version} {text : List Char} (h : AllSet v text) :
    loadDefaults.expr.replaceAll (fun _ => (Setting.ofVersion v).text) text = text := by
  refine (pass_replaceAll (swaps_loadDefaults v) text).eq_self fun lead taken after new htext hswap => ?_
  obtain ⟨⟨s, rfl⟩, hstop, rfl⟩ := hswap
  exact (h lead s after htext hstop).symm

section

variable {v : Version} {before text result : List Char}

/-- A pass goes on with what comes next, or with a setting. -/
theorem head?_of_pass (h : Pass (setTo v) before text result)
    (htext : text.head?.any isValueChar = false) : result.head?.any isValueChar = false := by
  cases h with
  | done => rfl
  | keep => exact htext
  | hit _ hswap =>
    obtain ⟨-, -, rfl⟩ := hswap
    rfl

/-- A setting that a pass has left was there before. -/
theorem exists_setting_of_pass {x : Char} {s : Setting} {rest : List Char}
    (h : Pass (setTo v) (x :: before) text result) (heq : x :: result = s.text ++ rest)
    (hstop : rest.head?.any isValueChar = false) :
    ∃ (s' : Setting) (rest' : List Char), x :: text = s'.text ++ rest' ∧
      rest'.head?.any isValueChar = false := by
  -- A replacement begins with a `c`, and a setting has no second one.
  have hhit : ∀ kept taken after new more found rest, kept ≠ [] → taken ++ after <:+ text →
      setTo v (kept.reverse ++ before) taken after new →
      Pass (setTo v) ((kept ++ taken).reverse ++ before) after more →
      kept ++ (new ++ more) = found ++ rest →
      ((∃ s : Setting, found = s.text) ∧ rest.head?.any isValueChar = false) →
      ∃ found' rest', kept ++ (taken ++ after) = found' ++ rest' ∧
        (∃ s : Setting, found' = s.text) ∧ rest'.head?.any isValueChar = false := by
    rintro kept taken after new more found rest hkept - ⟨⟨taken, rfl⟩, -, rfl⟩ - heq ⟨⟨s, rfl⟩, hstop⟩
    rcases List.append_eq_append_iff.mp heq with ⟨part, hfound, hnew⟩ | ⟨part, rfl, hrest⟩
    · obtain ⟨y, kept, rfl⟩ := List.exists_cons_of_ne_nil hkept
      cases part with
      | nil =>
        rw [List.append_nil] at hfound
        exact ⟨s.text, taken.text ++ after, by rw [hfound], ⟨s, rfl⟩, rfl⟩
      | cons z part =>
        obtain ⟨rfl, -⟩ := List.cons_eq_cons.mp hnew
        obtain ⟨-, htail⟩ := List.cons_eq_cons.mp hfound
        exact absurd (by rw [htail]; simp) s.c_notMem_tail
    · refine ⟨s.text, part ++ (taken.text ++ after), List.append_assoc _ _ _, ⟨s, rfl⟩, ?_⟩
      cases part with
      | nil => rfl
      | cons z part =>
        rw [hrest] at hstop
        exact hstop
  obtain ⟨_, rest', htext, ⟨s', rfl⟩, hstop'⟩ := h.reflects (List.cons_ne_nil x []) hhit heq
    ⟨⟨s, rfl⟩, hstop⟩
  exact ⟨s', rest', htext, hstop'⟩

/-- After a pass every setting is the one of the release. -/
theorem allSet_of_pass (h : Pass (setTo v) before text result) : AllSet v result := by
  induction h with
  | done before =>
    intro lead s rest heq
    simp [Setting.text] at heq
  | @keep before text result x idle more ih =>
    intro lead s rest heq hstop
    cases lead with
    -- A setting that would begin here begins in the old text as well, where it is replaced.
    | nil =>
      obtain ⟨s', rest', htext, hstop'⟩ := exists_setting_of_pass more heq hstop
      exact absurd ⟨⟨s', rfl⟩, hstop', rfl⟩ (idle _ _ _ htext)
    | cons y lead =>
      obtain ⟨-, heq⟩ := List.cons_eq_cons.mp heq
      exact ih lead s rest heq hstop
  | @hit before taken after new result _ hswap more ih =>
    obtain ⟨-, hafter, rfl⟩ := hswap
    intro lead s rest heq hstop
    -- Inside of what is put in no other setting begins.
    rcases List.append_eq_append_iff.mp heq with ⟨part, rfl, hrest⟩ | ⟨part, hnew, hrest⟩
    · exact ih part s rest hrest hstop
    · cases lead with
      | nil => exact (Setting.text_unique hstop (head?_of_pass more hafter) heq.symm).1
      | cons y lead =>
        obtain ⟨-, htail⟩ := List.cons_eq_cons.mp hnew
        cases part with
        | nil => exact ih [] s rest (by simpa using hrest.symm) hstop
        | cons z part =>
          obtain ⟨rfl, -⟩ := List.cons_eq_cons.mp hrest
          exact absurd (by rw [htail]; simp) (Setting.ofVersion v).c_notMem_tail

end

/-- A part without line breaks stands before a line break or behind it. -/
theorem part_before_or_behind {part lead rest front back : List Char} (hpart : '\n' ∉ part)
    (h : lead ++ (part ++ rest) = front ++ '\n' :: back) :
    (∃ more, front = lead ++ (part ++ more) ∧ rest = more ++ '\n' :: back) ∨
      ∃ more, back = more ++ (part ++ rest) := by
  rcases List.append_eq_append_iff.mp h with ⟨more, rfl, hback⟩ | ⟨more, rfl, hback⟩
  · obtain ⟨more, rfl, hrest⟩ := Gemfile.exists_of_notMem hpart hback
    exact .inl ⟨more, rfl, hrest⟩
  · cases more with
    | nil =>
      obtain ⟨more, hnil, hrest⟩ := Gemfile.exists_of_notMem hpart (u := []) hback.symm
      obtain ⟨rfl, rfl⟩ := List.append_eq_nil_iff.mp hnil.symm
      exact .inl ⟨[], by simp, hrest⟩
    | cons x more =>
      obtain ⟨-, rfl⟩ := List.cons_eq_cons.mp hback
      exact .inr ⟨more, rfl⟩

theorem applicationClass_expr : applicationClass.expr = .seq (.anchor .lineStart)
    (.seq (.group 1 (.star blankSet)) (.chars "class Application < Rails::Application"
      (.seq (.star blankSet) (.one (.single '\n'))))) :=
  Pattern.expr_fixed String.toList_ofList (by decide)

/-- The line that opens the application class has a margin and ends with a line break. -/
theorem line_of_applicationClass {text : List Char} {m : Match} (h : applicationClass.expr.Hit text m) :
    (m.group 1).all Text.isSpaceOrTab = true ∧ ∃ line, m.text = line ++ ['\n'] := by
  obtain ⟨g, hreads, hgroups⟩ := h.reads applicationClass_expr
  rw [reads_seq_anchor] at hreads
  obtain ⟨margin, _, s, ⟨g₁, hrun, rfl⟩, hrest, htext⟩ := hreads
  obtain ⟨-, hmargin, rfl⟩ := reads_run.mp hrun
  obtain ⟨s, rfl, blanks, _, _, hblanks, ⟨⟨x, hx, rfl⟩, rfl⟩, rfl⟩ := reads_chars.mp hrest
  obtain ⟨-, -, rfl⟩ := reads_run.mp hblanks
  obtain rfl : x = '\n' := by simpa using hx
  refine ⟨?_, _, htext.trans (by rw [← List.append_assoc, ← List.append_assoc])⟩
  rw [hgroups]
  simpa using hmargin

/-- A text without settings has one of its own once a line with a setting is put in. -/
theorem allSet_insert {v : Version} {front margin right : List Char}
    (hmargin : margin.all Text.isSpaceOrTab = true)
    (hnone : ¬ "config.load_defaults".toList <:+: front ++ '\n' :: right) :
    AllSet v (front ++ '\n' :: ((margin ++ (Setting.ofVersion v).text) ++ '\n' :: right)) := by
  intro lead s rest heq hstop
  have hname : '\n' ∉ "config.load_defaults".toList := by decide
  have htext : s.text ++ rest = "config.load_defaults".toList ++ (s.gap ++ s.value ++ rest) := by
    rw [s.text_eq, List.append_assoc]
  rw [htext] at heq
  rcases part_before_or_behind hname heq.symm with ⟨more, rfl, -⟩ | ⟨lead, heq⟩
  · exact absurd ⟨lead, more ++ '\n' :: right, by simp⟩ hnone
  rcases part_before_or_behind hname heq.symm with ⟨more, hline, hrest⟩ | ⟨lead, rfl⟩
  · -- The line has one `c` only.
    have hc : 'c' ∉ margin := fun hmem => absurd (List.all_eq_true.mp hmargin _ hmem) (by decide)
    rw [name_eq, Setting.text, List.cons_append] at hline
    obtain ⟨more', rfl, hline'⟩ := Gemfile.exists_of_notMem hc hline
    cases more' with
    | nil =>
      rw [← htext, List.append_nil, List.append_assoc] at heq
      exact (Setting.text_unique hstop rfl (List.append_cancel_left heq).symm).1
    | cons x more' =>
      obtain ⟨-, htail⟩ := List.cons_eq_cons.mp hline'
      exact absurd (by rw [htail]; simp) (Setting.ofVersion v).c_notMem_tail
  · exact absurd ⟨front ++ '\n' :: lead, s.gap ++ s.value ++ rest, by simp⟩ hnone

theorem setLoadDefaults_of_part {v : Version} {text : List Char}
    (h : "config.load_defaults".toList <:+: text) : setLoadDefaults v text =
      loadDefaults.expr.replaceAll (fun _ => (Setting.ofVersion v).text) text := by
  rw [setLoadDefaults, if_pos (Text.hasPart_iff.mpr h), setting_eq]

/-- Once the framework defaults are set, a text has no setting to change and none to put in. -/
theorem settled_setLoadDefaults (v : Version) (text : List Char) :
    setLoadDefaults v text = text ∨
      "config.load_defaults".toList <:+: setLoadDefaults v text ∧
        AllSet v (setLoadDefaults v text) := by
  by_cases hpart : "config.load_defaults".toList <:+: text
  · rw [setLoadDefaults_of_part hpart]
    have hpass := pass_replaceAll (swaps_loadDefaults v) text
    rcases hpass.first with ⟨-, hsame⟩ | ⟨lead, taken, after, new, more, -, ⟨-, -, rfl⟩, hresult⟩
    · exact .inl hsame
    · refine .inr ⟨?_, allSet_of_pass hpass⟩
      rw [hresult, Setting.text_eq]
      exact ⟨lead, (Setting.ofVersion v).gap ++ (Setting.ofVersion v).value ++ more, by simp⟩
  -- Without the name of the setting a line with it is put in behind the line of the class.
  · rw [setLoadDefaults, if_neg (by rwa [Text.hasPart_iff]), setting_eq, Expr.replaceFirst]
    split
    · exact .inl rfl
    · rename_i m hsearch
      obtain ⟨htext, hhit⟩ := hit_of_search hsearch
      obtain ⟨hmargin, line, hline⟩ := line_of_applicationClass hhit
      have hmargin' : (m.group 1 ++ [' ', ' ']).all Text.isSpaceOrTab = true := by
        rw [List.all_append, hmargin]
        decide
      have hresult : m.left ++ (m.text ++ m.group 1 ++ "  ".toList ++ (Setting.ofVersion v).text ++
          "\n".toList) ++ m.right = (m.left ++ line) ++ '\n' :: (((m.group 1 ++ [' ', ' ']) ++
            (Setting.ofVersion v).text) ++ '\n' :: m.right) := by
        rw [hline]
        simp
      rw [hresult]
      refine .inr ⟨?_, allSet_insert hmargin' ?_⟩
      · rw [Setting.text_eq]
        exact ⟨m.left ++ line ++ '\n' :: (m.group 1 ++ [' ', ' ']),
          (Setting.ofVersion v).gap ++ (Setting.ofVersion v).value ++ '\n' :: m.right, by simp⟩
      · rw [htext, hline] at hpart
        simpa using hpart

theorem setLoadDefaults_setLoadDefaults (v : Version) (text : List Char) :
    setLoadDefaults v (setLoadDefaults v text) = setLoadDefaults v text := by
  rcases settled_setLoadDefaults v text with hsame | ⟨hpart, hset⟩
  · rw [hsame, hsame]
  · rw [setLoadDefaults_of_part hpart, hset.replaceAll]

/-! ### Carriage returns -/

theorem bundlerSetup_expr : bundlerSetup.expr = .seq (.anchor .lineStart) (.seq (.group 1
    (.seq (.star lineSet) (.chars "require " (.seq (.one Gemfile.quoteSet) (.chars "bundler/setup"
      (.seq (.one Gemfile.quoteSet) (.star lineSet))))))) (.anchor .lineEnd)) :=
  Pattern.expr_fixed String.toList_ofList (by decide)

/-- The first group of the line that sets up the bundle is the line. -/
theorem group_bundlerSetup {text : List Char} {m : Match} (h : bundlerSetup.expr.Hit text m) :
    m.group 1 = m.text := by
  obtain ⟨g, hreads, hgroups⟩ := h.reads bundlerSetup_expr
  rw [reads_seq_anchor] at hreads
  obtain ⟨line, _, _, ⟨g₁, -, rfl⟩, ⟨rfl, rfl⟩, htext⟩ := hreads
  rw [hgroups, htext, List.append_nil]
  simp

theorem return_notMem_margin {margin : List Char} (h : margin.all Text.isSpaceOrTab = true) :
    '\r' ∉ margin := fun hmem => absurd (List.all_eq_true.mp h _ hmem) (by decide)

theorem Setting.return_notMem (v : Version) : '\r' ∉ (Setting.ofVersion v).text := by
  have hvalue : '\r' ∉ (Setting.ofVersion v).value := fun hmem =>
    absurd (List.all_eq_true.mp (Setting.ofVersion v).value_plain _ hmem) (by decide)
  have hname : '\r' ∉ nameTail := by decide
  have hgap : '\r' ∉ (Setting.ofVersion v).gap := by
    show '\r' ∉ [' ']
    decide
  simp [Setting.text, Setting.tail, hname, hgap, hvalue]

theorem return_notMem_setLoadDefaults (v : Version) {text : List Char} (h : '\r' ∉ text) :
    '\r' ∉ setLoadDefaults v text := by
  unfold setLoadDefaults Expr.replaceFirst
  simp only [setting_eq]
  split
  · refine (pass_replaceAll (swaps_loadDefaults v) text).notMem h ?_
    rintro before taken after new ⟨-, -, rfl⟩
    exact Setting.return_notMem v
  · split
    · exact h
    · rename_i m hsearch
      obtain ⟨htext, hhit⟩ := hit_of_search hsearch
      have hmargin := return_notMem_margin (line_of_applicationClass hhit).1
      rw [htext] at h
      simp only [List.mem_append, not_or] at h ⊢
      exact ⟨⟨h.1, ⟨⟨⟨h.2.1, hmargin⟩, by decide⟩, Setting.return_notMem v⟩, by decide⟩, h.2.2⟩

theorem return_notMem_addBootsnap {text : List Char} (h : '\r' ∉ text) : '\r' ∉ addBootsnap text := by
  unfold addBootsnap Expr.replaceFirst
  split
  · exact h
  · split
    · exact h
    · rename_i m hsearch
      obtain ⟨htext, hhit⟩ := hit_of_search hsearch
      rw [htext] at h
      simp only [group_bundlerSetup hhit, List.mem_append, not_or] at h ⊢
      exact ⟨⟨h.1, h.2.1, by decide⟩, h.2.2⟩

theorem return_notMem_allowHosts {text : List Char} (h : '\r' ∉ text) : '\r' ∉ allowHosts text := by
  have hlines : '\r' ∉ hostsLines := by decide
  unfold allowHosts
  split
  · exact h
  · split
    · rename_i m hsearch
      rw [(hit_of_search hsearch).1] at h
      simp only [List.mem_append, List.mem_cons, not_or] at h ⊢
      exact ⟨⟨⟨h.1, h.2.1⟩, by decide, hlines⟩, h.2.2⟩
    · split
      · rename_i m hsearch
        rw [(hit_of_search hsearch).1] at h
        simp only [List.mem_append, not_or] at h ⊢
        exact ⟨⟨⟨h.1, h.2.1⟩, hlines⟩, h.2.2⟩
      · exact h

theorem return_notMem_dropUglifier {text : List Char} (h : '\r' ∉ text) :
    '\r' ∉ dropUglifier text := by
  have hpass : Pass commented [] text (dropUglifier text) := pass_replaceAll swaps_uglifier text
  refine hpass.notMem h ?_
  rintro before taken after new ⟨-, margin, hmargin, -, rfl⟩
  rw [List.mem_append, not_or]
  exact ⟨return_notMem_margin hmargin, by decide⟩

/-! ### All edits -/

/-- An edit that changes nothing a second time and makes no carriage returns. -/
structure Edit.Settles (e : Edit) : Prop where
  again : ∀ v text, e.apply v (e.apply v text) = e.apply v text
  solid : ∀ v {text}, '\r' ∉ text → '\r' ∉ e.apply v text

theorem settles_of_mem {e : Edit} (h : e ∈ edits) : e.Settles := by
  simp only [edits, List.mem_cons, List.not_mem_nil, or_false] at h
  obtain rfl | rfl | rfl | rfl := h
  · exact ⟨setLoadDefaults_setLoadDefaults, fun v => return_notMem_setLoadDefaults v⟩
  · exact ⟨fun _ => addBootsnap_addBootsnap, fun _ => return_notMem_addBootsnap⟩
  · exact ⟨fun _ => allowHosts_allowHosts, fun _ => return_notMem_allowHosts⟩
  · exact ⟨fun _ => dropUglifier_dropUglifier, fun _ => return_notMem_dropUglifier⟩

end RailsUpgrade.FrameworkConfig
