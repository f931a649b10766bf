import RailsUpgrade.Proofs.Comments
import RailsUpgrade.Proofs.ConfigReports

/-!
# `RailsUpgrade.Proofs.ActiveSettings`: framework defaults on a line of their own

The edit of the framework defaults changes the settings of a text that mentions them anywhere, and puts
a setting in behind the line that opens the application class else. A mention in a comment counts, and so
does a setting whose value the edit does not read. Such a text gets no setting that takes effect.

* `exists_line_iff`: a line that begins with a part behind its margin, as a place in the text;
* `sets_of_pass`, `leads_of_pass`: a pass over the settings keeps where they stand in their lines;
* `sets_setLoadDefaults_iff`: when a line sets the framework defaults to the release line of the target.
-/

set_option autoImplicit false

namespace RailsUpgrade

open Pattern (AtMargin)

/-! ### Lines that begin with a part -/

/-- A line that begins with a part behind its margin is a place in the text, behind the margin of its
line, where the part stands. -/
theorem Text.exists_line_iff {part text : List Char} (hsolid : '\n' ∉ part)
    (hhead : part.head?.any Text.isSpaceOrTab = false) (hne : part ≠ []) :
    (∃ line ∈ splitChar '\n' text, part <+: line.dropWhile isSpaceOrTab) ↔
      ∃ lead rest, text = lead ++ (part ++ rest) ∧ AtMargin lead.reverse := by
  rw [splitChar_eq_map]
  constructor
  · rintro ⟨_, hline, more, hmore⟩
    obtain ⟨s, hs, rfl⟩ := List.mem_map.mp hline
    obtain ⟨front, htext⟩ := mem_behindBreaks_iff.mp hs
    obtain ⟨rest, hrest⟩ := firstLine_isPrefix s
    have hmargin : ((firstLine s).takeWhile isSpaceOrTab).all isSpaceOrTab = true := List.all_takeWhile
    have hsplit : s = (firstLine s).takeWhile isSpaceOrTab ++ (part ++ (more ++ rest)) := by
      rw [← List.append_assoc part, hmore, ← List.append_assoc, List.takeWhile_append_dropWhile, hrest]
    generalize (firstLine s).takeWhile isSpaceOrTab = margin at hmargin hsplit
    cases front with
    | nil =>
      -- The first line begins the text.
      obtain rfl : text = s := (List.cons_eq_cons.mp htext).2
      exact ⟨margin, _, hsplit, Pattern.atMargin_reverse_iff.mpr ⟨[], margin, rfl, hmargin, .inl rfl⟩⟩
    | cons x front =>
      obtain ⟨-, rfl⟩ := List.cons_eq_cons.mp htext
      refine ⟨(front ++ ['\n']) ++ margin, more ++ rest, ?_, Pattern.atMargin_reverse_iff.mpr
        ⟨front ++ ['\n'], margin, rfl, hmargin, .inr ⟨front.reverse, by simp⟩⟩⟩
      rw [hsplit]
      simp
  · rintro ⟨lead, rest, rfl, hlead⟩
    obtain ⟨front, margin, rfl, hmargin, hfront⟩ := Pattern.atMargin_reverse_iff.mp hlead
    have hline : '\n' ∉ margin ++ part := by
      rw [List.mem_append, not_or]
      exact ⟨fun hmem => absurd (List.all_eq_true.mp hmargin _ hmem) (by decide), hsolid⟩
    have hbehind : margin ++ part ++ rest ∈ behindBreaks ('\n' :: (front ++ margin ++ (part ++ rest))) := by
      rw [mem_behindBreaks_iff]
      rcases hfront with hnil | ⟨front', hfront'⟩
      · obtain rfl := List.reverse_eq_nil_iff.mp hnil
        exact ⟨[], by simp⟩
      · obtain rfl : front = front'.reverse ++ ['\n'] := by
          rw [← List.reverse_reverse front, hfront', List.reverse_cons]
        exact ⟨'\n' :: front'.reverse, by simp⟩
    refine ⟨_, List.mem_map_of_mem hbehind, ?_⟩
    rw [firstLine_append hline, List.append_assoc, List.dropWhile_append_of_pos (List.all_eq_true.mp hmargin)]
    obtain ⟨x, part, rfl⟩ := List.exists_cons_of_ne_nil hne
    have hx : ¬ isSpaceOrTab x = true := by simpa using hhead
    rw [List.cons_append, List.dropWhile_cons_of_neg hx]
    exact ⟨firstLine rest, rfl⟩

namespace FrameworkConfig

open Pattern (Alike Pass Swap Expr hit_of_search pass_replaceAll atMargin_reverse_iff)

variable {v : Version} {before out text result : List Char}

/-! ### Settings on lines of their own -/

/-- A line sets the framework defaults to the release line of a version. -/
def Sets (v : Version) (text : List Char) : Prop :=
  ∃ line ∈ Text.splitChar '\n' text,
    "config.load_defaults ".toList ++ v.line.toList <+: line.dropWhile Text.isSpaceOrTab

instance (v : Version) (text : List Char) : Decidable (Sets v text) :=
  inferInstanceAs (Decidable (∃ line ∈ Text.splitChar '\n' text,
    "config.load_defaults ".toList ++ v.line.toList <+: line.dropWhile Text.isSpaceOrTab))

/-- A setting stands in a text behind nothing but the margin of its line. -/
def Leads (text : List Char) : Prop :=
  ∃ lead, ∃ s : Setting, ∃ rest, text = lead ++ (s.text ++ rest) ∧ AtMargin lead.reverse

theorem Setting.break_notMem_ofVersion (v : Version) : '\n' ∉ (Setting.ofVersion v).text := by
  have hvalue : '\n' ∉ (Setting.ofVersion v).value := fun hmem =>
    absurd (List.all_eq_true.mp (Setting.ofVersion v).value_plain _ hmem) (by decide)
  have hname : '\n' ∉ nameTail := by decide
  have hgap : '\n' ∉ (Setting.ofVersion v).gap := by
    show '\n' ∉ [' ']
    decide
  simp [Setting.text, Setting.tail, hname, hgap, hvalue]

theorem sets_iff : Sets v text ↔
    ∃ lead rest, text = lead ++ ((Setting.ofVersion v).text ++ rest) ∧ AtMargin lead.reverse := by
  rw [Sets, setting_eq]
  exact Text.exists_line_iff (Setting.break_notMem_ofVersion v) rfl (List.cons_ne_nil _ _)

/-- The value of a setting may be taken as long as it is. -/
theorem Setting.exists_stop (s : Setting) (rest : List Char) : ∃ (s' : Setting) (rest' : List Char),
    s.text ++ rest = s'.text ++ rest' ∧ rest'.head?.any isValueChar = false := by
  refine ⟨{ s with
    value := s.value ++ rest.takeWhile isValueChar
    value_plain := by rw [List.all_append, s.value_plain, List.all_takeWhile]; rfl
    value_ne := by simp [s.value_ne] }, rest.dropWhile isValueChar, ?_, ?_⟩
  · rw [Setting.text_eq, Setting.text_eq]
    simp [List.takeWhile_append_dropWhile]
  · have hstop := List.head?_dropWhile_not isValueChar rest
    cases hrest : (rest.dropWhile isValueChar).head? with
    | none => rfl
    | some x =>
      rw [hrest] at hstop
      exact hstop

/-- The value of a setting stands on the last line of the setting, so a setting does not end in a
margin. -/
theorem Setting.not_atMargin (s : Setting) (out : List Char) : ¬ AtMargin (s.text.reverse ++ out) := by
  obtain ⟨value, x, hvalue⟩ := (List.eq_nil_or_concat' s.value).resolve_left s.value_ne
  have hx : isValueChar x = true := List.all_eq_true.mp s.value_plain x (by simp [hvalue])
  have hplain : Text.isSpaceOrTab x = false ∧ x ≠ '\n' := by
    have hblank : Text.isBlank x = false := by
      by_contra hblank
      rw [isValueChar_eq_false_of_isBlank (by simpa using hblank)] at hx
      cases hx
    refine ⟨?_, ?_⟩
    · by_contra hspace
      rw [(Text.isBlank_of_isSpaceOrTab (by simpa using hspace)).1] at hblank
      cases hblank
    · rintro rfl
      exact absurd hblank (by decide)
  rw [text_eq, hvalue]
  have hlast : "config.load_defaults".toList ++ (s.gap ++ (value ++ [x])) =
      ("config.load_defaults".toList ++ (s.gap ++ value)) ++ x :: [] := by simp
  rw [hlast]
  exact Pattern.not_atMargin hplain.1 hplain.2 List.not_mem_nil out

/-- A setting has one `c`, so no other setting begins inside it. -/
theorem Setting.not_begins_inside (s : Setting) {s' : Setting} {x y : Char}
    {lead part more rest : List Char} (hpart : s'.text ++ rest = y :: (part ++ more)) :
    s.text ≠ x :: lead ++ y :: part := by
  obtain ⟨rfl, -⟩ := List.cons_eq_cons.mp hpart
  intro heq
  obtain ⟨-, htail⟩ := List.cons_eq_cons.mp heq
  exact s.c_notMem_tail (by rw [htail]; simp)

theorem closed_setTo (v : Version) : (setTo v).Closed := by
  rintro before taken after new ⟨⟨s, rfl⟩, -, rfl⟩ out
  exact ⟨s.not_atMargin out, (Setting.ofVersion v).not_atMargin out⟩

/-! ### What a pass makes of them -/

/-- Where a setting led its line, the pass has put its own in. -/
theorem sets_of_pass (h : Pass (setTo v) before text result) (halike : Alike before out)
    {lead rest : List Char} {s : Setting} (heq : text = lead ++ (s.text ++ rest))
    (hlead : AtMargin (lead.reverse ++ before)) :
    ∃ lead' rest', result = lead' ++ ((Setting.ofVersion v).text ++ rest') ∧
      AtMargin (lead'.reverse ++ out) := by
  induction h generalizing lead out with
  | done => simp [Setting.text] at heq
  | @keep before text result x idle more ih =>
    cases lead with
    | nil =>
      -- A setting begins here, so the pass does not go over this place.
      obtain ⟨s', rest', htext, hstop⟩ := s.exists_stop rest
      exact absurd ⟨⟨s', rfl⟩, hstop, rfl⟩ (idle s'.text rest' _ (heq.trans htext))
    | cons y lead =>
      obtain ⟨rfl, htext⟩ := List.cons_eq_cons.mp heq
      obtain ⟨lead', rest', rfl, hlead'⟩ := ih (halike.cons x) htext (by simpa using hlead)
      exact ⟨x :: lead', rest', rfl, by simpa using hlead'⟩
  | @hit before taken after new result _ swapped more ih =>
    have halike' := Alike.of_not (closed_setTo v swapped before).1 (closed_setTo v swapped out).2
    obtain ⟨⟨taken, rfl⟩, -, rfl⟩ := swapped
    rcases List.append_eq_append_iff.mp heq with ⟨lead', rfl, hafter⟩ | ⟨part, htaken, hpart⟩
    · obtain ⟨lead'', rest', rfl, hlead''⟩ := ih halike' hafter (by simpa using hlead)
      exact ⟨(Setting.ofVersion v).text ++ lead'', rest', by simp, by simpa using hlead''⟩
    · cases lead with
      | nil => exact ⟨[], result, rfl, halike.margin.mp (by simpa using hlead)⟩
      | cons y lead =>
        cases part with
        | nil =>
          -- The setting begins where the pass goes on.
          rw [List.append_nil] at htaken
          have hafter : after = [] ++ (s.text ++ rest) := hpart.symm
          obtain ⟨lead', rest', rfl, hlead'⟩ := ih halike' hafter (by rw [htaken]; simpa using hlead)
          exact ⟨(Setting.ofVersion v).text ++ lead', rest', by simp, by simpa using hlead'⟩
        | cons z part => exact absurd htaken (taken.not_begins_inside (by simpa using hpart))

/-- A setting that leads its line after a pass stands where one led its line before. -/
theorem leads_of_pass (h : Pass (setTo v) before text result) (halike : Alike before out)
    {lead rest : List Char} {s : Setting} (heq : result = lead ++ (s.text ++ rest))
    (hstop : rest.head?.any isValueChar = false) (hlead : AtMargin (lead.reverse ++ out)) :
    ∃ lead', ∃ s' : Setting, ∃ rest', text = lead' ++ (s'.text ++ rest') ∧
      AtMargin (lead'.reverse ++ before) := by
  induction h generalizing lead out with
  | done => simp [Setting.text] at heq
  | @keep before text result x idle more ih =>
    cases lead with
    | nil =>
      obtain ⟨s', rest', htext, -⟩ := exists_setting_of_pass more heq hstop
      exact ⟨[], s', rest', htext, halike.margin.mpr (by simpa using hlead)⟩
    | cons y lead =>
      obtain ⟨rfl, hresult⟩ := List.cons_eq_cons.mp heq
      obtain ⟨lead', s', rest', rfl, hlead'⟩ := ih (halike.cons x) hresult (by simpa using hlead)
      exact ⟨x :: lead', s', rest', rfl, by simpa using hlead'⟩
  | @hit before taken after new result _ swapped more ih =>
    -- What is put in and what is taken out end in the same kind of character, so margins stay told.
    have halike' := Alike.of_not (closed_setTo v swapped before).1 (closed_setTo v swapped out).2
    obtain ⟨⟨taken, rfl⟩, -, rfl⟩ := swapped
    rcases List.append_eq_append_iff.mp heq with ⟨lead', rfl, hresult⟩ | ⟨part, hnew, hpart⟩
    · obtain ⟨lead'', s', rest', rfl, hlead''⟩ := ih halike' hresult (by simpa using hlead)
      exact ⟨taken.text ++ lead'', s', rest', by simp, by simpa using hlead''⟩
    -- The setting of the result begins with the one that was put in, as none begins inside of another.
    · cases lead with
      | nil => exact ⟨[], taken, after, rfl, halike.margin.mpr (by simpa using hlead)⟩
      | cons y lead =>
        cases part with
        | nil =>
          rw [List.append_nil] at hnew
          have hresult : result = [] ++ (s.text ++ rest) := hpart.symm
          obtain ⟨lead', s', rest', rfl, hlead'⟩ := ih halike' hresult (by rw [hnew]; simpa using hlead)
          exact ⟨taken.text ++ lead', s', rest', by simp, by simpa using hlead'⟩
        | cons z part =>
          exact absurd hnew ((Setting.ofVersion v).not_begins_inside (by simpa using hpart))

/-! ### What the edit makes of a text -/

/-- In a text that mentions the framework defaults, the settings that lead their lines are changed. -/
theorem sets_iff_of_part (v : Version) (hpart : "config.load_defaults".toList <:+: text) :
    Sets v (setLoadDefaults v text) ↔ Leads text := by
  rw [setLoadDefaults_of_part hpart, sets_iff]
  have hpass := pass_replaceAll (swaps_loadDefaults v) text
  constructor
  · rintro ⟨lead, rest, hresult, hlead⟩
    obtain ⟨s, rest', htext, hstop⟩ := (Setting.ofVersion v).exists_stop rest
    rw [htext] at hresult
    obtain ⟨lead', s', rest'', rfl, hlead'⟩ :=
      leads_of_pass hpass (.refl []) hresult hstop (by simpa using hlead)
    exact ⟨lead', s', rest'', rfl, by simpa using hlead'⟩
  · rintro ⟨lead, s, rest, htext, hlead⟩
    obtain ⟨lead', rest', hresult, hlead'⟩ :=
      sets_of_pass hpass (.refl []) htext (by simpa using hlead)
    exact ⟨lead', rest', hresult, by simpa using hlead'⟩

/-- In a text without a mention, a setting is put in behind the line that opens the application class. -/
theorem sets_iff_of_not_part (v : Version) (hpart : ¬ "config.load_defaults".toList <:+: text) :
    Sets v (setLoadDefaults v text) ↔ HasLine ClassLine text := by
  rw [← found_applicationClass, Pattern.found, Expr.found, setLoadDefaults,
    if_neg (by rwa [Text.hasPart_iff]), setting_eq, Expr.replaceFirst, sets_iff]
  cases hsearch : applicationClass.expr.search text with
  | none =>
    refine iff_of_false ?_ (by simp)
    rintro ⟨lead, rest, rfl, -⟩
    rw [Setting.text_eq] at hpart
    exact hpart ⟨lead, (Setting.ofVersion v).gap ++ (Setting.ofVersion v).value ++ rest, by simp⟩
  | some m =>
    obtain ⟨-, hhit⟩ := hit_of_search hsearch
    obtain ⟨hmargin, line, hline⟩ := line_of_applicationClass hhit
    -- The new line has the margin of the class and two more blanks.
    refine iff_of_true ⟨(m.left ++ line ++ ['\n']) ++ (m.group 1 ++ [' ', ' ']), '\n' :: m.right, ?_,
      atMargin_reverse_iff.mpr ⟨m.left ++ line ++ ['\n'], m.group 1 ++ [' ', ' '], rfl, ?_,
        .inr ⟨(m.left ++ line).reverse, by simp⟩⟩⟩ rfl
    · simp [hline]
    · rw [List.all_append, hmargin]
      rfl

/-- A line sets the framework defaults to the release line of the target exactly if a setting led its
line before, or the text did not mention them and has a line that opens the application class. So a
mention in a comment, or in front of a value that is no plain number, leaves the defaults unset. -/
theorem sets_setLoadDefaults_iff (v : Version) (text : List Char) :
    Sets v (setLoadDefaults v text) ↔
      Leads text ∨ ¬ "config.load_defaults".toList <:+: text ∧ HasLine ClassLine text := by
  by_cases hpart : "config.load_defaults".toList <:+: text
  · rw [sets_iff_of_part v hpart, or_iff_left fun h => h.1 hpart]
  · have hnone : ¬ Leads text := by
      rintro ⟨lead, s, rest, rfl, -⟩
      rw [s.text_eq] at hpart
      exact hpart ⟨lead, s.gap ++ s.value ++ rest, by simp⟩
    rw [sets_iff_of_not_part v hpart, or_iff_right hnone, and_iff_right hpart]

/-- The application class in a file that mentions the defaults in a comment. -/
def commentedDefaults : List Char :=
  "# config.load_defaults 5.0\nclass Application < Rails::Application\nend\n".toList

/-- A mention in a comment is changed, and no setting is put in. -/
theorem commentedDefaults_unset : HasLine ClassLine commentedDefaults ∧
    ∃ v, Version.parse "7.0.0" = .ok v ∧ ¬ Sets v (setLoadDefaults v commentedDefaults) := by
  have hclass : HasLine ClassLine commentedDefaults :=
    ⟨"# config.load_defaults 5.0\n".toList, "class Application < Rails::Application".toList,
      "end\n".toList, by decide, .inr ⟨"# config.load_defaults 5.0".toList.reverse, by decide⟩,
      [], [], rfl, rfl, by decide⟩
  refine ⟨hclass, _, rfl, ?_⟩
  decide +kernel

end FrameworkConfig

end RailsUpgrade
