import RailsUpgrade.Catalogue.Detections
import RailsUpgrade.Proofs.RubyLines

/-!
# `RailsUpgrade.Proofs.GemfileReports`: what is reported of a Gemfile after its update

Detections report gems that a release does not support, wherever a Gemfile asks for them, and a missing
line about Ruby. The update of the Gemfile edits the lines that ask for such a gem, and adds a line about
Ruby where there is none.

* `gemReports`: the detections of gems that an update edits;
* `updateTo_eq_parts`: an update as a pin, edits, a gem at the end and a line in front;
* `update_reports`: what the detections still find after an update. A call that the update has commented
  out is one of these.
-/

set_option autoImplicit false

namespace RailsUpgrade.Gemfile

open Pattern (AtMargin atMargin_append_break any_noChar pass_replaceAll)
open Catalogue (protectedAttributesGem deprecatedFindersGem coffeeGem sassGem uglifierGem
  rubyDirectiveMissing)

variable {line : ReleaseLine} {target : String} {text : List Char}

/-! ### The detections -/

/-- The gems that are reported and that an update edits, with the patterns that find them. -/
def gemReports : List (String × Pattern) :=
  [("protected_attributes", protectedAttributesGem),
   ("activerecord-deprecated_finders", deprecatedFindersGem),
   ("coffee-rails", coffeeGem), ("sass-rails", sassGem), ("uglifier", uglifierGem)]

theorem expr_of_mem_gemReports {gem : String} {report : Pattern} (h : (gem, report) ∈ gemReports) :
    report.expr = callExpr gem := by
  simp only [gemReports, List.mem_cons, List.not_mem_nil, or_false, Prod.mk.injEq] at h
  obtain ⟨rfl, rfl⟩ | ⟨rfl, rfl⟩ | ⟨rfl, rfl⟩ | ⟨rfl, rfl⟩ | ⟨rfl, rfl⟩ := h <;>
    exact Pattern.expr_fixed String.toList_ofList (by decide)

theorem found_report_iff {gem : String} {report : Pattern} (h : (gem, report) ∈ gemReports) :
    report.found text = true ↔ Opens gem.toList text ∨ Strays gem.toList text := by
  rw [Pattern.found, expr_of_mem_gemReports h, found_callExpr_iff]

/-- Every edit for some release line of Ruby. -/
def everyEdit : List Edit := allEdits "2.6" ++ (rubyPin? "2.5").toList

theorem editsFor_subset (target version : String) : editsFor target version ⊆ everyEdit := by
  intro e he
  rcases List.mem_append.mp (List.mem_of_mem_filter he) with hmem | hmem
  · exact List.mem_append_left _ (List.mem_append_left _ hmem)
  · unfold rubyPin? at hmem
    split at hmem
    · exact List.mem_append_left _ (List.mem_append_right _ hmem)
    · exact List.mem_append_right _ hmem
    · cases hmem

/-- Whether an edit does not ask for a gem, nor mentions it but to comment it out. -/
def Edit.spares (e : Edit) (gem : List Char) : Bool :=
  !asksFor gem e.replacement.toList &&
    (!Text.hasPart gem e.replacement.toList || e.gem.toList == gem && e.commentsOut)

/-- The gems that a release does not support and that no edit asks for. -/
def unsupportedGems : List String :=
  ["sass-rails", "uglifier", "coffee-rails", "jquery-rails", "grape_on_rails_routes",
   "protected_attributes", "activerecord-deprecated_finders"]

theorem mem_unsupportedGems : ∀ e ∈ incompatible, e.gem ≠ "rspec-rails" → e.gem ∈ unsupportedGems := by
  decide

theorem unsupported_of_mem_gemReports : ∀ x ∈ gemReports, x.1 ∈ unsupportedGems := by
  simp [gemReports, unsupportedGems]

/-- Whether edits spare some gems, and all edits of one gem comment it out or none does. -/
def areSpared (gems : List String) (edits : List Edit) : Bool :=
  gems.all fun gem => isName gem.toList && gem.toList != "rails".toList &&
    (edits.all fun e => isName e.gem.toList && e.spares gem.toList) &&
    ((edits.all fun e => e.gem.toList != gem.toList || e.commentsOut) ||
      edits.all fun e => e.gem.toList != gem.toList || !e.commentsOut)

theorem areSpared_everyEdit : areSpared unsupportedGems everyEdit = true := by
  simp only [areSpared, everyEdit, allEdits, rubyPin?, incompatible, unsupportedGems, Edit.spares,
    Edit.commentsOut, commentOf, Option.toList_some, List.cons_append, List.nil_append, List.all_cons,
    List.all_nil]
  -- The kernel is slow at taking literals apart, so they are spelled out first.
  repeat rw [String.toList_ofList]
  decide

section

variable {gem : String}

theorem spared (h : gem ∈ unsupportedGems) : isName gem.toList = true ∧
    gem.toList ≠ "rails".toList ∧
    (∀ e ∈ everyEdit, isName e.gem.toList = true ∧ e.spares gem.toList = true) ∧
    ((∀ e ∈ everyEdit, e.gem.toList = gem.toList → e.commentsOut = true) ∨
      ∀ e ∈ everyEdit, e.gem.toList = gem.toList → e.commentsOut = false) := by
  have hall := List.all_eq_true.mp areSpared_everyEdit gem h
  simp only [Bool.and_eq_true, Bool.or_eq_true, List.all_eq_true, bne_iff_ne, Bool.not_eq_true',
    ← imp_iff_not_or, ne_eq] at hall
  obtain ⟨⟨⟨hname, hne⟩, hspares⟩, hout⟩ := hall
  exact ⟨hname, hne, hspares, hout⟩

/-- The edits of an update are tracked for every such gem. -/
theorem tracked_editsFor (target version : String) (h : gem ∈ unsupportedGems) :
    Tracked gem.toList (editsFor target version) := by
  obtain ⟨hname, -, hall, -⟩ := spared h
  have hspares := fun e he => hall e (editsFor_subset target version he)
  simp only [Edit.spares, Bool.and_eq_true, Bool.or_eq_true, Bool.not_eq_true', beq_iff_eq] at hspares
  refine ⟨hname, (compatible_editsFor target version).plain, fun e he => (hspares e he).1,
    fun e he => (hspares e he).2.1, fun e he hmentions => (hspares e he).2.2.resolve_left ?_⟩
  rw [Bool.not_eq_false, Text.hasPart_iff]
  exact hmentions

end

/-! ### Updates -/

/-- The text with Rails pinned. -/
def withPin (hline : line ∈ releaseLines) (text : List Char) : List Char :=
  railsGem.expr.replaceAll (fun _ => (pinOf hline).text) text

theorem pass_withPin (hline : line ∈ releaseLines) (text : List Char) :
    Pattern.Pass (pinned (pinOf hline)) [] text (withPin hline text) :=
  pass_replaceAll (swaps_railsGem _) text

/-- An update pins Rails, makes its edits, adds the gem that speeds up the start, and adds a line in
front if none is about Ruby. -/
theorem updateTo_eq_parts (hline : line ∈ releaseLines) (target : String) (text : List Char) :
    ∃ version, updateTo line target text = withRuby line (rubyDirective.found text)
      (withBootsnap line
        ((editsFor target version).foldl (fun text e => e.rewrite text) (withPin hline text))) := by
  set removed := (incompatible.filter (·.admitted target)).foldl (fun text e => e.rewrite text)
    (withPin hline text) with hremoved
  have hfound : rubyDirective.found removed = rubyDirective.found text := by
    rw [Bool.eq_iff_iff, found_rubyDirective_iff, found_rubyDirective_iff]
    refine exists_congr fun margin => and_congr_right fun hmargin => ?_
    have hplain : ∀ e ∈ incompatible.filter (·.admitted target), e.isPlain = true := fun e he =>
      (compatible_allEdits "").plain e (List.mem_append_left _ (List.mem_of_mem_filter he))
    rw [hremoved, begins_foldl_iff hplain (rubyPart_of_margin hmargin),
      begins_pinned_iff (pass_withPin hline text) (rubyPart_of_margin hmargin)]
  refine ⟨rubyLineOf line removed, ?_⟩
  have hwithPin : railsGem.expr.replaceAll (fun _ => (pinOf hline).text) text = withPin hline text := rfl
  rw [editsFor_eq, List.foldl_append, ← hremoved, ← foldl_apply, withRuby, ← hfound]
  unfold updateTo
  simp only [text_pinOf hline, hwithPin]
  rw [foldl_apply, ← hremoved]
  cases rubyPin? (rubyLineOf line removed) <;> rfl

/-- A release that does not speed up its start adds nothing at the end. -/
theorem updateTo_eq_withRuby (hline : line ∈ releaseLines) (hsince : line.since ≠ "5.0.0")
    (target : String) (text : List Char) : ∃ version,
    updateTo line target text = withRuby line (rubyDirective.found text)
      ((editsFor target version).foldl (fun text e => e.rewrite text) (withPin hline text)) := by
  obtain ⟨version, hparts⟩ := updateTo_eq_parts hline target text
  refine ⟨version, ?_⟩
  rw [hparts, withBootsnap, if_neg (by simpa using hsince)]

/-! ### The line in front -/

theorem rubyLine_spec : ∀ line ∈ releaseLines, 'g' ∉ rubyLine line ∧
    line.ruby.toList.head?.any Text.isDigit = true := by
  decide

/-- The line that an update adds asks for a version of Ruby by its number. -/
theorem numbersRuby_rubyLine (hline : line ∈ releaseLines) (text : List Char) :
    NumbersRuby (rubyLine line ++ '\n' :: text) := by
  have hdigit := (rubyLine_spec line hline).2
  cases hruby : line.ruby.toList with
  | nil => simp [hruby] at hdigit
  | cons digit rest =>
    rw [hruby] at hdigit
    refine ⟨⟨[], [' '], '\'', digit, rfl, by simp, by decide, by decide, by decide, hdigit⟩, [],
      rest ++ '\'' :: '\n' :: text, ?_, .inl rfl, any_noChar _⟩
    unfold rubyLine
    rw [hruby]
    repeat rw [String.toList_ofList]
    simp [RubyLine.text]

/-- Calls behind a line without any lie as they would without the line. -/
theorem exists_call_behind_iff {gem front : List Char} (hg : 'g' ∉ front) (p : Prop → Prop) :
    (∃ lead, ∃ call : GemCall gem, ∃ rest, front ++ '\n' :: text = lead ++ (call.text ++ rest) ∧
      p (AtMargin lead.reverse)) ↔
    ∃ lead, ∃ call : GemCall gem, ∃ rest, text = lead ++ (call.text ++ rest) ∧
      p (AtMargin lead.reverse) := by
  have hplace : ∀ lead : List Char,
      AtMargin (front ++ '\n' :: lead).reverse = AtMargin lead.reverse := fun lead => by
    rw [List.reverse_append, List.reverse_cons, List.append_assoc, List.singleton_append]
    exact propext atMargin_append_break
  constructor
  · rintro ⟨lead, call, rest, heq, hlead⟩
    have hline : (front ++ ['\n']) ++ text = lead ++ 'g' :: (call.tail ++ rest) := by
      rw [List.append_assoc]
      exact heq
    obtain ⟨behind, rfl, htext⟩ := exists_of_notMem (by simpa using hg) hline
    rw [List.append_assoc, List.singleton_append, hplace] at hlead
    exact ⟨behind, call, rest, htext, hlead⟩
  · rintro ⟨lead, call, rest, rfl, hlead⟩
    exact ⟨front ++ '\n' :: lead, call, rest, by simp, by rwa [hplace]⟩

theorem opens_withRuby_iff (hline : line ∈ releaseLines) {gem : List Char} (hasRuby : Bool) :
    Opens gem (withRuby line hasRuby text) ↔ Opens gem text := by
  cases hasRuby with
  | true => exact Iff.rfl
  | false =>
    rw [withRuby_false, opens_iff, opens_iff]
    exact exists_call_behind_iff (rubyLine_spec line hline).1 id

theorem strays_withRuby_iff (hline : line ∈ releaseLines) {gem : List Char} (hasRuby : Bool) :
    Strays gem (withRuby line hasRuby text) ↔ Strays gem text := by
  cases hasRuby with
  | true => exact Iff.rfl
  | false =>
    rw [withRuby_false]
    exact exists_call_behind_iff (rubyLine_spec line hline).1 Not

/-! ### What is left to report -/

/-- A target that is compared has no number that is too long. -/
theorem overlong?_eq_none {wanted : String} (h : Version.atLeast (some target) wanted = true) :
    Version.overlong? target = none := by
  unfold Version.overlong?
  split
  · rename_i number herror
    unfold Version.atLeast Constraint.admits at h
    split at h
    · rename_i t c wanted ht hparse
      cases ht
      rw [Version.parse?, herror] at h
      cases h
    · cases h
  · rfl

/-- A target from 6.0.0 on has a release line that does not speed up its start, and its update does not
fail. -/
theorem exists_updateTo (htarget : Version.atLeast (some target) "6.0.0" = true) :
    ∃ line ∈ releaseLines, line.since ≠ "5.0.0" ∧
      ∀ text, update target text = .ok (updateTo line target text) := by
  obtain ⟨line, hline, hsince⟩ : ∃ line, releaseLine? target = some line ∧ line.since ≠ "5.0.0" := by
    by_cases h7 : Version.atLeast (some target) "7.0.0" = true
    · exact ⟨⟨"7.0.0", "~> 7.0.0", "3.0.0"⟩, by simp [releaseLine?, releaseLines, h7], by decide⟩
    · exact ⟨⟨"6.0.0", "~> 6.1.0", "2.7.0"⟩, by simp [releaseLine?, releaseLines, h7, htarget],
        by decide⟩
  refine ⟨line, List.mem_of_find?_eq_some hline, hsince, fun text => ?_⟩
  rw [update, overlong?_eq_none htarget, updated, hline]

/-- After an update to a target from 6.0.0 on, a missing version of Ruby is reported if it was reported
before and some line is about Ruby. Of a gem that the update edits no line is left. It is reported
only where a call for it strays or was commented out, and always where one was commented out. -/
theorem update_reports (htarget : Version.atLeast (some target) "6.0.0" = true) (text : List Char) :
    ∃ result, update target text = .ok result ∧
      (rubyDirectiveMissing.found result = true ↔
        rubyDirective.found text = true ∧ rubyDirectiveMissing.found text = true) ∧
      ∀ e ∈ incompatible, e.admitted target = true → ∀ report, (e.gem, report) ∈ gemReports →
        (gemLine e.gem).found result = false ∧
        (report.found result = true → Strays e.gem.toList text ∨
          e.commentsOut = true ∧ (gemLine e.gem).found text = true) ∧
        (e.commentsOut = true → (gemLine e.gem).found text = true → report.found result = true) := by
  obtain ⟨line, hline, hsince, hupdate⟩ := exists_updateTo htarget
  obtain ⟨version, hparts⟩ := updateTo_eq_withRuby hline hsince target text
  refine ⟨_, hupdate text, ?_, fun e he hadmitted report hreport => ?_⟩
  · refine found_rubyDirectiveMissing_iff.trans ?_
    rw [hparts]
    by_cases hruby : rubyDirective.found text = true
    · -- The lines about Ruby stay as they are.
      have hsame : NumbersRuby (withRuby line (rubyDirective.found text)
          ((editsFor target version).foldl (fun text e => e.rewrite text) (withPin hline text))) ↔
          NumbersRuby text := by
        rw [hruby]
        exact exists_congr fun l =>
          (begins_foldl_iff (compatible_editsFor target version).plain l.rubyPart).trans
            (begins_pinned_iff (pass_withPin hline text) l.rubyPart)
      rw [hsame, and_iff_right hruby]
      exact found_rubyDirectiveMissing_iff.symm
    · refine iff_of_false (not_not.mpr ?_) fun hboth => hruby hboth.1
      rw [Bool.eq_false_of_not_eq_true hruby, withRuby_false]
      exact numbersRuby_rubyLine hline _
  · have hmem : e ∈ editsFor target version :=
      List.mem_filter.mpr ⟨List.mem_append_left _ he, hadmitted⟩
    have hgem : e.gem ∈ unsupportedGems := unsupported_of_mem_gemReports _ hreport
    have htracked := tracked_editsFor target version hgem
    obtain ⟨hname, hne, -, hout⟩ := spared hgem
    have hpass := pass_withPin hline text
    have hclosed : ¬ Opens e.gem.toList (updateTo line target text) := fun hopens => by
      rw [hparts, opens_withRuby_iff hline] at hopens
      exact (opens_of_foldl htracked hopens).2 e hmem rfl
    rw [found_report_iff hreport, or_iff_right hclosed, ← Bool.not_eq_true, found_gemLine_iff,
      found_gemLine_iff, hparts, strays_withRuby_iff hline]
    refine ⟨hparts ▸ hclosed, fun hstrays => ?_, fun hcomments hopens => ?_⟩
    · rcases strays_of_foldl htracked hstrays with hbefore | ⟨hopens, e', he', hgem, hcomments⟩
      · exact .inl (strays_of_pinned hpass hname hne hbefore)
      · refine .inr ⟨?_, (opens_pinned_iff hpass hname hne).mp hopens⟩
        rcases hout with hall | hnone
        · exact hall e (editsFor_subset target version hmem) rfl
        · rw [hnone e' (editsFor_subset target version he') hgem] at hcomments
          cases hcomments
    · refine strays_foldl htracked (fun e' he' hgem => ?_) ⟨e, hmem, rfl⟩
        ((opens_pinned_iff hpass hname hne).mpr hopens)
      rcases hout with hall | hnone
      · exact hall e' (editsFor_subset target version he') hgem
      · rw [hnone e (editsFor_subset target version hmem) rfl] at hcomments
        cases hcomments

/-- A call that the update has commented out is reported as before, and so is a version of Ruby in a
form that the detection does not know. -/
theorem update_keeps_reports :
    update "7.0.0" "ruby '3.0.0'\ngem 'coffee-rails'\n".toList =
      .ok "ruby '3.0.0'\n# gem 'coffee-rails' # Removed in Rails 7\n".toList ∧
    coffeeGem.found "ruby '3.0.0'\n# gem 'coffee-rails' # Removed in Rails 7\n".toList = true ∧
    update "7.0.0" "ruby '~> 3.1'\n".toList = .ok "ruby '~> 3.1'\n".toList ∧
    rubyDirectiveMissing.found "ruby '~> 3.1'\n".toList = true := by
  have hbefore : "ruby '3.0.0'\ngem 'coffee-rails'\n".toList = _ := String.toList_ofList
  have hafter : "ruby '3.0.0'\n# gem 'coffee-rails' # Removed in Rails 7\n".toList = _ :=
    String.toList_ofList
  have hrange : "ruby '~> 3.1'\n".toList = _ := String.toList_ofList
  have hcoffee : coffeeGem.expr = callExpr "coffee-rails" :=
    expr_of_mem_gemReports (by simp [gemReports])
  simp only [update, updated, updateTo, rubyLineOf, Pattern.found, railsGem_expr, rubyPatterns,
    rubyDirectiveMissing_expr, hcoffee, hbefore, hafter, hrange]
  refine ⟨?_, ?_, ?_, ?_⟩
  · decide +kernel
  · decide +kernel
  · decide +kernel
  · decide +kernel

theorem update_reports_coffee : Version.atLeast (some "7.0.0") "6.0.0" = true ∧
    ∃ result, update "7.0.0" "ruby '~> 3.1'\ngem 'coffee-rails'\n".toList = .ok result ∧
      rubyDirectiveMissing.found result = true ∧ (gemLine "coffee-rails").found result = false ∧
        coffeeGem.found result = true := by
  have htarget : Version.atLeast (some "7.0.0") "6.0.0" = true := by decide
  obtain ⟨result, hupdate, hruby, hgems⟩ :=
    update_reports htarget "ruby '~> 3.1'\ngem 'coffee-rails'\n".toList
  obtain ⟨hclosed, -, hcoffee⟩ := hgems
    ⟨"coffee-rails", "# gem 'coffee-rails' # Removed in Rails 7", ">= 7.0.0"⟩ (by decide)
    (by decide +kernel) coffeeGem (by simp [gemReports])
  exact ⟨htarget, result, hupdate, hruby.mpr (by decide +kernel), hclosed,
    hcoffee (by decide +kernel) (by decide +kernel)⟩

end RailsUpgrade.Gemfile
