import RailsUpgrade.Catalogue.Sources
import RailsUpgrade.Proofs.Absent
import RailsUpgrade.Proofs.Comments
import RailsUpgrade.Proofs.FrameworkConfig

/-!
# `RailsUpgrade.Proofs.ConfigReports`: settings that are missing, and the edits that put them in

Two detections report configuration files in which a setting does not occur. The edits of these files
put the setting in behind a certain line, but they only find a line that a line feed ends. So a file
whose last line is the only one of that shape, without a line feed behind it, is still reported after
its edit.

* `HasLine`, `Headed`: a text has a line that begins, behind its margin, in a certain way, with the
  line feed that ends it;
* `hasLine_iff`: such a line is one of the lines of the text, and not the last one;
* `found_headedLine`: the patterns of the edits find such lines;
* `part_setLoadDefaults`, `part_allowHosts`: when a setting occurs in what the edits make;
* `found_missing_iff`: when the detections report a file, before and after its edit.
-/

set_option autoImplicit false

namespace RailsUpgrade.FrameworkConfig

open Pattern (Expr CharSet canTake_seq canTake_star canTake_chars canTake_anchor canTake_group
  canTake_one exists_ends_of_found found_of_canTake mem_ends_seq mem_ends_anchor mem_ends_star
  mem_ends_chars mem_ends_literal found_absent found_literal_iff)
open Text (StartsBreak)
open Gemfile (startsBreak_iff)
open Catalogue (loadDefaultsMissing hostsMissing)

variable {text : List Char}

/-! ### Lines -/

/-- A text has a line of a certain shape, with the line feed that ends it. -/
def HasLine (shape : List Char → Prop) (text : List Char) : Prop :=
  ∃ before line after, text = before ++ (line ++ '\n' :: after) ∧ StartsBreak before.reverse ∧
    shape line

/-- A line that begins with `head` behind its margin and goes on with certain characters only. -/
def Headed (head : String) (tail : Char → Bool) (line : List Char) : Prop :=
  ∃ margin rest, margin.all Text.isSpaceOrTab = true ∧ rest.all tail = true ∧
    line = margin ++ (head.toList ++ rest)

/-- A line of one shape has no line feed in it. -/
theorem Headed.solid {head : String} {tail : Char → Bool} (hhead : '\n' ∉ head.toList)
    (htail : tail '\n' = false) {line : List Char} (h : Headed head tail line) : '\n' ∉ line := by
  obtain ⟨margin, rest, hmargin, hrest, rfl⟩ := h
  simp only [List.mem_append, not_or]
  refine ⟨fun hmem => ?_, hhead, fun hmem => ?_⟩
  · exact absurd (List.all_eq_true.mp hmargin _ hmem) (by decide)
  · rw [List.all_eq_true.mp hrest _ hmem] at htail
    exact absurd htail (by decide)

/-- A text has a line with a line feed behind it exactly if one of its lines but the last has the
shape. -/
theorem hasLine_iff {shape : List Char → Prop} (hshape : ∀ line, shape line → '\n' ∉ line) :
    HasLine shape text ↔ ∃ line ∈ (Text.splitChar '\n' text).dropLast, shape line := by
  constructor
  · rintro ⟨before, line, after, rfl, hbefore, hline⟩
    have hne := Text.splitChar_ne_nil '\n' after
    have hlines : Text.splitChar '\n' (line ++ '\n' :: after) = line :: Text.splitChar '\n' after := by
      rw [Text.splitChar_append_cons, Text.splitChar_of_notMem (hshape line hline)]
      rfl
    refine ⟨line, ?_, hline⟩
    rcases hbefore with hnil | ⟨front, hfront⟩
    · rw [List.reverse_eq_nil_iff.mp hnil, List.nil_append, hlines, List.dropLast_cons_of_ne_nil hne]
      exact List.mem_cons_self
    · obtain rfl : before = front.reverse ++ ['\n'] := by
        rw [← List.reverse_reverse before, hfront, List.reverse_cons]
      rw [List.append_assoc, List.singleton_append, Text.splitChar_append_cons, hlines,
        List.dropLast_append_of_ne_nil (List.cons_ne_nil _ _), List.dropLast_cons_of_ne_nil hne]
      exact List.mem_append_right _ List.mem_cons_self
  · rintro ⟨line, hmem, hline⟩
    obtain ⟨before, after, hlines⟩ := List.append_of_mem hmem
    have hsplit : Text.splitChar '\n' text =
        before ++ line :: (after ++ [(Text.splitChar '\n' text).getLast (Text.splitChar_ne_nil _ _)]) := by
      conv_lhs => rw [← List.dropLast_append_getLast (Text.splitChar_ne_nil '\n' text), hlines]
      simp
    obtain ⟨rest, hrest⟩ : ∃ rest, Text.stacked
        (after ++ [(Text.splitChar '\n' text).getLast (Text.splitChar_ne_nil _ _)]) = '\n' :: rest :=
      ⟨_, Text.stacked_eq (by simp)⟩
    -- With a line feed in front of every line the text begins with one, too.
    have htext := Text.stacked_splitChar text
    rw [hsplit, Text.stacked_append, Text.stacked_cons, hrest] at htext
    rcases Text.startsBreak_stacked before with hnil | ⟨front, hfront⟩
    · rw [hnil, List.nil_append] at htext
      exact ⟨[], line, rest, (List.cons.inj htext).2.symm, .inl rfl, hline⟩
    · rw [hfront, List.cons_append] at htext
      exact ⟨front ++ ['\n'], line, rest, by simpa using (List.cons.inj htext).2.symm,
        .inr ⟨front.reverse, by simp⟩, hline⟩

/-- A pattern for such lines. The margin may be kept. -/
def headedLine (kept : Bool) (head : String) (tail : CharSet) : Expr :=
  .seq (.anchor .lineStart) (.seq (if kept then .group 1 (.star blankSet) else .star blankSet)
    (.chars head (.seq (.star tail) (.one (.single '\n')))))

theorem found_headedLine (kept : Bool) (head : String) (tail : CharSet) :
    (headedLine kept head tail).found text = true ↔ HasLine (Headed head tail.mem) text := by
  constructor
  · intro hfound
    obtain ⟨before, after, c, rfl, hc⟩ := exists_ends_of_found hfound
    obtain ⟨start, hstart, hc⟩ := mem_ends_seq.mp hc
    obtain ⟨rfl, hholds⟩ := mem_ends_anchor.mp hstart
    obtain ⟨front, hfront, hc⟩ := mem_ends_seq.mp hc
    -- Keeping the margin changes the groups only.
    obtain ⟨margin, hmargin, htakes⟩ : ∃ margin, margin.all Text.isSpaceOrTab = true ∧
        Pattern.Cursor.Takes { before := before.reverse, after, pos := before.length } margin
          front := by
      cases kept with
      | false =>
        obtain ⟨margin, hmargin, htakes, -⟩ := mem_ends_star hfront
        exact ⟨margin, by simpa using hmargin, htakes⟩
      | true =>
        obtain ⟨inner, hinner, rfl⟩ := List.mem_map.mp hfront
        obtain ⟨margin, hmargin, htakes, -⟩ := mem_ends_star hinner
        exact ⟨margin, by simpa using hmargin, htakes.after, htakes.before, htakes.pos⟩
    obtain ⟨mid, htakesHead, hc⟩ := mem_ends_chars hc
    obtain ⟨stop, hrest, hc⟩ := mem_ends_seq.mp hc
    obtain ⟨rest, htail, htakesRest, -⟩ := mem_ends_star hrest
    have hfeed : stop.Takes ['\n'] c := (mem_ends_literal hc).1
    refine ⟨before, margin ++ (head.toList ++ rest), c.after, ?_, startsBreak_iff.mp hholds,
      margin, rest, hmargin, htail, rfl⟩
    have hafter := ((htakes.trans htakesHead).trans htakesRest).trans hfeed |>.after
    simp only [List.append_assoc, List.cons_append, List.nil_append] at hafter ⊢
    rw [hafter]
  · rintro ⟨before, line, after, rfl, hbefore, margin, rest, hmargin, htail, rfl⟩
    have hmargin' : margin.all blankSet.mem = true := by simpa using hmargin
    have htake : (headedLine kept head tail).CanTake before.reverse
        ([] ++ (margin ++ (head.toList ++ (rest ++ ['\n'])))) after := by
      refine canTake_seq (canTake_anchor fun c hc _ => ?_) (canTake_seq ?_
        (canTake_chars (canTake_seq (canTake_star htail) (canTake_one (by simp)))))
      · exact startsBreak_iff.mpr (hc ▸ hbefore)
      · cases kept with
        | false => exact canTake_star hmargin'
        | true => exact canTake_group (canTake_star hmargin')
    simpa using found_of_canTake htake

/-- The line that opens the application class. -/
abbrev ClassLine : List Char → Prop := Headed "class Application < Rails::Application" Text.isSpaceOrTab

/-- A line with a setting of the mailer. -/
abbrev MailerLine : List Char → Prop := Headed "config.action_mailer" (· != '\n')

/-- The line that opens the block of an environment. -/
abbrev BlockLine : List Char → Prop := Headed "Rails.application.configure do" Text.isSpaceOrTab

theorem found_applicationClass : applicationClass.found text = true ↔ HasLine ClassLine text := by
  have hexpr : applicationClass.expr =
      headedLine true "class Application < Rails::Application" blankSet := applicationClass_expr
  rw [Pattern.found, hexpr, found_headedLine, funext mem_blankSet]

theorem found_mailerSetting : mailerSetting.found text = true ↔ HasLine MailerLine text := by
  have hexpr : mailerSetting.expr = headedLine false "config.action_mailer" lineSet :=
    Pattern.expr_fixed String.toList_ofList (by decide)
  rw [Pattern.found, hexpr, found_headedLine, funext mem_lineSet]

theorem found_configureBlock : configureBlock.found text = true ↔ HasLine BlockLine text := by
  have hexpr : configureBlock.expr = headedLine false "Rails.application.configure do" blankSet :=
    Pattern.expr_fixed String.toList_ofList (by decide)
  rw [Pattern.found, hexpr, found_headedLine, funext mem_blankSet]

/-! ### What the edits put in -/

/-- The framework defaults are set where they were, or there is a line to put them behind. -/
theorem part_setLoadDefaults (v : Version) (text : List Char) :
    "config.load_defaults".toList <:+: setLoadDefaults v text ↔
      "config.load_defaults".toList <:+: text ∨ HasLine ClassLine text := by
  by_cases hpart : "config.load_defaults".toList <:+: text
  · have hkept : "config.load_defaults".toList <:+: setLoadDefaults v text := by
      rcases settled_setLoadDefaults v text with hsame | ⟨hset, -⟩
      · rwa [hsame]
      · exact hset
    exact ⟨fun _ => .inl hpart, fun _ => hkept⟩
  · rw [or_iff_right hpart, ← found_applicationClass, Pattern.found, Expr.found, setLoadDefaults,
      if_neg (by rwa [Text.hasPart_iff]), setting_eq, Expr.replaceFirst]
    cases hsearch : applicationClass.expr.search text with
    | none => simpa using hpart
    | some m =>
      refine iff_of_true ?_ rfl
      simp only [Setting.text_eq]
      exact ⟨m.left ++ (m.text ++ m.group 1 ++ "  ".toList),
        (Setting.ofVersion v).gap ++ (Setting.ofVersion v).value ++ "\n".toList ++ m.right, by simp⟩

/-- All hosts are allowed where there was a setting, or there is a line to put one behind. -/
theorem part_allowHosts (text : List Char) : "config.hosts".toList <:+: allowHosts text ↔
    "config.hosts".toList <:+: text ∨ HasLine MailerLine text ∨ HasLine BlockLine text := by
  have hlines : "config.hosts".toList <:+: hostsLines := Text.hasPart_iff.mp (by decide)
  by_cases hpart : "config.hosts".toList <:+: text
  · have hskip : allowHosts text = text := if_pos (Text.hasPart_iff.mpr hpart)
    rw [hskip]
    exact ⟨.inl, fun _ => hpart⟩
  · rw [or_iff_right hpart, ← found_mailerSetting, ← found_configureBlock, Pattern.found,
      Pattern.found, Expr.found, Expr.found, allowHosts, if_neg (by rwa [Text.hasPart_iff])]
    cases mailerSetting.expr.search text with
    | some m =>
      exact iff_of_true (hlines.trans ⟨m.left ++ (m.text ++ ['\n']), m.right, by simp⟩) (.inl rfl)
    | none =>
      cases configureBlock.expr.search text with
      | some m => exact iff_of_true (hlines.trans ⟨m.left ++ m.text, m.right, by simp⟩) (.inr rfl)
      | none => simpa using hpart

/-! ### The reports -/

theorem found_loadDefaultsMissing : loadDefaultsMissing.found text = true ↔
    ¬ "config.load_defaults".toList <:+: text := by
  have hexpr : loadDefaultsMissing.expr = .absent (.literal "config.load_defaults".toList) :=
    Pattern.expr_fixed String.toList_ofList (by decide)
  rw [Pattern.found, hexpr, found_absent, Bool.not_eq_true', ← Bool.not_eq_true, found_literal_iff]

theorem found_hostsMissing : hostsMissing.found text = true ↔
    ¬ "config.hosts".toList <:+: text := by
  have hexpr : hostsMissing.expr = .absent (.literal "config.hosts".toList) :=
    Pattern.expr_fixed String.toList_ofList (by decide)
  rw [Pattern.found, hexpr, found_absent, Bool.not_eq_true', ← Bool.not_eq_true, found_literal_iff]

/-- A missing setting is reported exactly if it does not occur. After the edit for any target it is not
reported exactly if it occurred before, or there was a line to put it behind: the one that opens the
application class, or one with a setting of the mailer or the one that opens the block. Where hosts are
not reported, the edit has nothing to do.

The edits miss a last line without a line feed behind it. So a text is still reported after its edit
exactly if the setting does not occur and none of its lines, the last one apart, is such a line. -/
theorem found_missing_iff (text : List Char) :
    (loadDefaultsMissing.found text = true ↔ ¬ "config.load_defaults".toList <:+: text) ∧
    (hostsMissing.found text = true ↔ ¬ "config.hosts".toList <:+: text) ∧
    (∀ v, loadDefaultsMissing.found (setLoadDefaults v text) = false ↔
      "config.load_defaults".toList <:+: text ∨ HasLine ClassLine text) ∧
    (hostsMissing.found (allowHosts text) = false ↔
      "config.hosts".toList <:+: text ∨ HasLine MailerLine text ∨ HasLine BlockLine text) ∧
    (hostsMissing.found text = false → allowHosts text = text) ∧
    (∀ v, loadDefaultsMissing.found (setLoadDefaults v text) = true ↔
      ¬ "config.load_defaults".toList <:+: text ∧
        ∀ line ∈ (Text.splitChar '\n' text).dropLast, ¬ ClassLine line) ∧
    (hostsMissing.found (allowHosts text) = true ↔
      ¬ "config.hosts".toList <:+: text ∧
        ∀ line ∈ (Text.splitChar '\n' text).dropLast, ¬ (MailerLine line ∨ BlockLine line)) := by
  have hclass : HasLine ClassLine text ↔
      ∃ line ∈ (Text.splitChar '\n' text).dropLast, ClassLine line :=
    hasLine_iff fun _ => Headed.solid (by decide) (by decide)
  have hmailer : HasLine MailerLine text ↔
      ∃ line ∈ (Text.splitChar '\n' text).dropLast, MailerLine line :=
    hasLine_iff fun _ => Headed.solid (by decide) (by decide)
  have hblock : HasLine BlockLine text ↔
      ∃ line ∈ (Text.splitChar '\n' text).dropLast, BlockLine line :=
    hasLine_iff fun _ => Headed.solid (by decide) (by decide)
  refine ⟨found_loadDefaultsMissing, found_hostsMissing, fun v => ?_, ?_, fun hfound => ?_,
    fun v => ?_, ?_⟩
  · rw [← part_setLoadDefaults v, ← Bool.not_eq_true, found_loadDefaultsMissing, not_not]
  · rw [← part_allowHosts, ← Bool.not_eq_true, found_hostsMissing, not_not]
  · rw [← Bool.not_eq_true, found_hostsMissing, not_not] at hfound
    exact if_pos (Text.hasPart_iff.mpr hfound)
  · rw [found_loadDefaultsMissing, part_setLoadDefaults, hclass, not_or, not_exists]
    simp only [not_and]
  · rw [found_hostsMissing, part_allowHosts, hmailer, hblock, not_or, not_or, not_exists, not_exists]
    simp only [not_and, not_or]
    exact and_congr_right fun _ => ⟨fun h line hline => ⟨h.1 line hline, h.2 line hline⟩,
      fun h => ⟨fun line hline => (h line hline).1, fun line hline => (h line hline).2⟩⟩

/-- A line to put the defaults behind, a setting of the mailer, and hosts that are set already. -/
theorem found_missing_iff_edited :
    (∀ v, loadDefaultsMissing.found
      (setLoadDefaults v "class Application < Rails::Application\n".toList) = false) ∧
    hostsMissing.found (allowHosts "  config.action_mailer.perform_caching = false\n".toList) = false ∧
    allowHosts "  config.hosts << 'a.test'\n".toList = "  config.hosts << 'a.test'\n".toList := by
  refine ⟨fun v => ?_, ?_, ?_⟩
  · obtain ⟨-, -, hdefaults, -⟩ := found_missing_iff "class Application < Rails::Application\n".toList
    exact (hdefaults v).mpr (.inr ⟨[], "class Application < Rails::Application".toList, [], by decide,
      .inl rfl, [], [], rfl, rfl, by decide⟩)
  · obtain ⟨-, -, -, hhosts, -⟩ :=
      found_missing_iff "  config.action_mailer.perform_caching = false\n".toList
    exact hhosts.mpr (.inr (.inl ⟨[], "  config.action_mailer.perform_caching = false".toList, [],
      by decide, .inl rfl, "  ".toList, ".perform_caching = false".toList, by decide, by decide,
      by decide⟩))
  · obtain ⟨-, hhosts, -, -, hsame, -⟩ := found_missing_iff "  config.hosts << 'a.test'\n".toList
    refine hsame (Bool.eq_false_iff.mpr fun hfound => hhosts.mp hfound ?_)
    exact Text.hasPart_iff.mp (by decide)

/-- The line that opens the application class as the whole text. -/
def classOnly : List Char := "class Application < Rails::Application".toList

/-- No line feed ends the line, so the defaults are not put in, and they are still reported. -/
theorem classOnly_missing : (∃ line ∈ Text.splitChar '\n' classOnly, ClassLine line) ∧
    ∃ v, Version.parse "7.0.0" = .ok v ∧ setLoadDefaults v classOnly = classOnly ∧
      loadDefaultsMissing.found (setLoadDefaults v classOnly) = true := by
  have hlines : Text.splitChar '\n' classOnly = [classOnly] := Text.splitChar_of_notMem (by decide)
  have hclass : ClassLine classOnly := ⟨[], [], rfl, rfl, by decide⟩
  have hpart : ¬ "config.load_defaults".toList <:+: classOnly := by
    rw [← Text.hasPart_iff]
    decide
  have hmissing : ∀ v, loadDefaultsMissing.found (setLoadDefaults v classOnly) = true := by
    intro v
    rw [found_loadDefaultsMissing, part_setLoadDefaults,
      hasLine_iff fun _ => Headed.solid (by decide) (by decide), hlines]
    simpa using hpart
  refine ⟨⟨classOnly, by rw [hlines]; exact List.mem_singleton_self _, hclass⟩, _, rfl, ?_, hmissing _⟩
  -- A text with settings in it would not be reported.
  rcases settled_setLoadDefaults ⟨7, 0, 0⟩ classOnly with hsame | ⟨hset, -⟩
  · exact hsame
  · exact absurd hset (found_loadDefaultsMissing.mp (hmissing _))

end RailsUpgrade.FrameworkConfig
