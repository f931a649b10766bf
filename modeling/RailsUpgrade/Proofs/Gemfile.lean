import RailsUpgrade.Proofs.GemLines

/-!
# `RailsUpgrade.Proofs.Gemfile`: a Gemfile that is up to date stays as it is

An update pins Rails, edits lines, and may add lines in front and at the end. Everything but the pin
of Rails can be told line by line:

* `search_rubyLine_eq_none`: lines that ask for a gem, and those that an edit makes, say nothing about
  Ruby;
* `Started` is a text from which an update sets out once Rails is pinned, and `updateTo_eq` what comes
  of it, as lines;
* `updateTo_join`: an update of the lines that come of an update changes nothing;
* `update_update`: a second update to the same target changes nothing, unless a call is broken over
  two lines.
-/

set_option autoImplicit false

namespace RailsUpgrade.Gemfile

open Pattern (Expr Match pass_replaceAll mem_ends_seq mem_ends_anchor mem_ends_chars mem_ends_star
  exists_ends_of_found found_of_ends canTake_seq canTake_star canTake_chars canTake_anchor)
open Text (StartsBreak)

/-! ### Lines about Ruby -/

/-- A line that begins with `ruby`, and how it goes on. -/
def rubyExpr (e : Expr) : Expr :=
  .seq (.anchor .lineStart) (.seq (.star blankSet) (.chars "ruby" e))

/-- What stands in front of the version of Ruby, and its release line as group 1. -/
def askedExpr : Expr :=
  .seq (.star (.ofItems [.one ' ', .one '\t', .one '(']))
    (.seq (.one quoteSet) (.seq (.star (.ofItems [.one '~', .one '>', .one '<', .one '=', .one '!',
      .one ' ', .one '\t']))
      (.group 1 (.seq (.plus (.ofItems [.kind .digit false false])) (.chars "."
        (.plus (.ofItems [.kind .digit false false])))))))

theorem rubyPatterns : rubyDirective.expr = rubyExpr (.anchor (.wordEdge false)) ∧
    rubyVersion.expr = rubyExpr (.seq (.anchor (.wordEdge false)) askedExpr) := by
  refine ⟨?_, ?_⟩ <;>
    exact Pattern.expr_fixed String.toList_ofList (by decide)

theorem onLine_rubyExpr {e : Expr} (he : e.OnLine) : (rubyExpr e).OnLine :=
  .seq (.anchor rfl) (.seq (.star (by decide)) (.chars (by decide) he))

theorem onLine_rubyDirective : rubyDirective.expr.OnLine := by
  rw [rubyPatterns.1]
  exact onLine_rubyExpr (.anchor rfl)

theorem onLine_rubyVersion : rubyVersion.expr.OnLine := by
  rw [rubyPatterns.2]
  refine onLine_rubyExpr (.seq (.anchor rfl) (.seq (.star (by decide)) (.seq (.one (by decide))
    (.seq (.star (by decide)) (.group 1 (.seq (.plus (by decide)) (.chars (by decide)
      (.plus (by decide)))))))))

/-- The first character of a line behind its margin. -/
def firstOf (line : List Char) : Option Char := (line.dropWhile Text.isSpaceOrTab).head?

theorem exists_parts_of_mem_ends {e : Expr} {before after : List Char} {pos : Nat} {c : Pattern.Cursor}
    (h : c ∈ (rubyExpr e).ends { before, after, pos }) :
    StartsBreak before ∧ ∃ margin mid, margin.all blankSet.mem = true ∧
      after = margin ++ ("ruby".toList ++ mid.after) ∧
      mid.before = "ruby".toList.reverse ++ (margin.reverse ++ before) ∧ c ∈ e.ends mid := by
  obtain ⟨start, hstart, h⟩ := mem_ends_seq.mp h
  obtain ⟨rfl, hholds⟩ := mem_ends_anchor.mp hstart
  obtain ⟨front, hfront, h⟩ := mem_ends_seq.mp h
  obtain ⟨margin, hmargin, htakes, -⟩ := mem_ends_star hfront
  obtain ⟨mid, htakes', hmid⟩ := mem_ends_chars h
  refine ⟨startsBreak_iff.mp hholds, margin, mid, hmargin, ?_, ?_, hmid⟩
  · rw [← htakes'.after]
    exact htakes.after
  · rw [htakes'.before, htakes.before]

/-- A line about Ruby begins with an `r`. -/
theorem search_rubyExpr_eq_none {e : Expr} {line : List Char} (hline : '\n' ∉ line)
    (hfirst : firstOf line ≠ some 'r') : (rubyExpr e).search line = none := by
  by_contra hsearch
  have hfound : (rubyExpr e).found line = true := Option.isSome_iff_ne_none.mpr hsearch
  obtain ⟨skipped, rest, c, rfl, hc⟩ := exists_ends_of_found hfound
  obtain ⟨hbefore, margin, mid, hmargin, rfl, -, -⟩ := exists_parts_of_mem_ends hc
  -- The line has no other start than its first place.
  have hskipped : skipped = [] := by
    rcases hbefore with hnil | ⟨more, hmore⟩
    · simpa using hnil
    · have hmem : '\n' ∈ skipped := by
        rw [← List.mem_reverse, hmore]
        exact List.mem_cons_self
      exact absurd (List.mem_append_left _ hmem) hline
  have hblank : ∀ x ∈ margin, Text.isSpaceOrTab x = true := by simpa using hmargin
  apply hfirst
  rw [firstOf, hskipped, List.nil_append, List.dropWhile_append_of_pos hblank]
  rfl

/-- A line that says which version of Ruby to use is a line about Ruby. -/
theorem found_rubyDirective {text : List Char} (h : rubyVersion.expr.found text = true) :
    rubyDirective.expr.found text = true := by
  rw [rubyPatterns.2] at h
  obtain ⟨skipped, rest, c, rfl, hc⟩ := exists_ends_of_found h
  obtain ⟨hbefore, margin, mid, hmargin, rfl, hmid, hc⟩ := exists_parts_of_mem_ends hc
  obtain ⟨edge, hedge, -⟩ := mem_ends_seq.mp hc
  obtain ⟨rfl, hholds⟩ := mem_ends_anchor.mp hedge
  have htake : (rubyExpr (.anchor (.wordEdge false))).CanTake skipped.reverse
      ([] ++ (margin ++ ("ruby".toList ++ []))) edge.after := by
    refine canTake_seq (canTake_anchor ?_) (canTake_seq (canTake_star hmargin)
      (canTake_chars (canTake_anchor ?_)))
    · rintro c hc -
      exact startsBreak_iff.mpr (hc ▸ hbefore)
    · rintro c hbefore' hafter'
      rw [Pattern.Anchor.holds, hbefore', hafter']
      rw [Pattern.Anchor.holds, hmid] at hholds
      exact hholds
  rw [rubyPatterns.1]
  obtain ⟨c', hc', -⟩ := htake ⟨skipped.reverse, margin ++ ("ruby".toList ++ edge.after),
    skipped.length, [], []⟩ rfl (by simp)
  exact found_of_ends (List.ne_nil_of_mem hc')

/-! ### Edits and lines about Ruby -/

/-- What a pattern finds in a line. -/
def asked (e : Expr) (line : List Char) : Option Pattern.Groups := (e.search line).map Match.texts

theorem firstOf_of_asksFor {gem line : List Char} (h : asksFor gem line = true) :
    firstOf line = some 'g' := by
  unfold asksFor at h
  split at h
  · rename_i rest hrest
    rw [firstOf, hrest]
    rfl
  · cases h

theorem firstOf_of_isEdited {edits : List Edit} (h : Compatible edits) {line : List Char}
    (hline : IsEdited edits line) : firstOf line ≠ some 'r' := by
  obtain ⟨margin, hmargin, e, he, rfl⟩ := hline
  obtain ⟨c, rest, hreplacement, hc⟩ := Edit.isPlain.exists_cons (h.plain e he)
  rw [firstOf, List.dropWhile_append_of_pos (List.all_eq_true.mp hmargin), hreplacement]
  rcases hc with rfl | rfl <;> simp [Text.isSpaceOrTab]

/-- Edits leave alone what lines say about Ruby. -/
theorem asked_settle {edits edits' : List Edit} (h : Compatible edits) (hsub : edits' ⊆ edits)
    (e : Expr) {line : List Char} (hline : '\n' ∉ line) :
    asked (rubyExpr e) (settle edits' line) = asked (rubyExpr e) line := by
  rcases h.settle_cases hsub line with ⟨hsame, -⟩ | ⟨hedited, e', he', hasks⟩
  · rw [hsame]
  · have hbefore : firstOf line ≠ some 'r' := by
      rw [firstOf_of_asksFor hasks]
      decide
    rw [asked, asked, search_rubyExpr_eq_none (h.solid_settle hsub hline)
      (firstOf_of_isEdited h hedited), search_rubyExpr_eq_none hline hbefore]

theorem findSome?_asked_settle {edits edits' : List Edit} (h : Compatible edits)
    (hsub : edits' ⊆ edits) (e : Expr) {lines : List (List Char)}
    (hlines : ∀ line ∈ lines, '\n' ∉ line) :
    (lines.map (settle edits')).findSome? (asked (rubyExpr e)) = lines.findSome? (asked (rubyExpr e)) := by
  induction lines with
  | nil => rfl
  | cons line lines ih =>
    rw [List.map_cons, List.findSome?_cons, List.findSome?_cons,
      asked_settle h hsub e (hlines line List.mem_cons_self),
      ih fun l hl => hlines l (List.mem_cons_of_mem _ hl)]

/-- A pattern is found in a text if it is found in one of its lines. -/
theorem found_join {e : Expr} (he : e.OnLine) {lines : List (List Char)} (hlines : AreLines lines) :
    e.found (Text.join ['\n'] lines) = (lines.findSome? (asked e)).isSome := by
  have hsearch := he.search_join hlines.ne_nil hlines.solid
  rw [Expr.found, ← Option.isSome_map (f := Match.texts), hsearch]
  rfl

/-- The release line of Ruby, from what the lines of a text ask for. -/
def rubyFrom (line : ReleaseLine) : Option Pattern.Groups → String
  | some groups => String.ofList ((groups.lookup 1).getD [])
  | none => ((Version.parse? line.ruby).map Version.line).getD ""

theorem rubyLineOf_join (line : ReleaseLine) {lines : List (List Char)} (hlines : AreLines lines) :
    rubyLineOf line (Text.join ['\n'] lines) =
      rubyFrom line (lines.findSome? (asked rubyVersion.expr)) := by
  have hsearch := onLine_rubyVersion.search_join hlines.ne_nil hlines.solid
  have hfrom : ∀ text, rubyLineOf line text = rubyFrom line (asked rubyVersion.expr text) := by
    intro text
    rw [rubyLineOf, asked]
    cases rubyVersion.expr.search text with
    | none => rfl
    | some m => rw [Option.map_some, rubyFrom, ← Match.group_eq]
  rw [hfrom]
  exact congrArg _ hsearch

/-! ### The edits of an update -/

/-- All edits for a release line of Ruby, whatever the target is. -/
def allEdits (rubyLine : String) : List Edit := incompatible ++ (rubyPin? rubyLine).toList

/-- Whether an edit is made for a target. -/
def Edit.admitted (target : String) (e : Edit) : Bool :=
  (Constraint.text e.constraint).admits (some target)

theorem compatible_allEdits (rubyLine : String) : Compatible (allEdits rubyLine) := by
  apply compatible_of_areCompatible
  unfold allEdits rubyPin?
  split
  all_goals
    simp only [areCompatible, Edit.isPlain, isHarmless, incompatible, Option.toList_some,
      Option.toList_none, List.cons_append, List.nil_append, List.all_cons, List.all_nil]
    -- The kernel is slow at taking literals apart, so they are spelled out first.
    repeat rw [String.toList_ofList]
    decide

/-- The edits that an update makes, in this order. -/
def editsFor (target rubyLine : String) : List Edit := (allEdits rubyLine).filter (·.admitted target)

theorem Compatible.subset {edits edits' : List Edit} (h : Compatible edits) (hsub : edits' ⊆ edits) :
    Compatible edits' :=
  ⟨fun e he => h.plain e (hsub he), fun e he e' he' => h.respect e (hsub he) e' (hsub he')⟩

theorem compatible_editsFor (target rubyLine : String) : Compatible (editsFor target rubyLine) :=
  (compatible_allEdits rubyLine).subset (List.filter_subset_self _)

theorem editsFor_eq (target rubyLine : String) : editsFor target rubyLine =
    incompatible.filter (·.admitted target) ++ (rubyPin? rubyLine).toList.filter (·.admitted target) := by
  rw [editsFor, allEdits, List.filter_append]

theorem foldl_apply (edits : List Edit) (target : String) (text : List Char) :
    edits.foldl (fun text e => e.apply target text) text =
      (edits.filter (·.admitted target)).foldl (fun text e => e.rewrite text) text := by
  rw [List.foldl_filter]
  rfl

/-! ### One update -/

theorem plain_railsPin : ∀ line ∈ releaseLines, ∀ c ∈ line.railsPin.toList,
    versionSet.mem c = true ∧ c ≠ 'g' := by
  have htest : (releaseLines.all fun line =>
      line.railsPin.toList.all fun c => versionSet.mem c && c != 'g') = true := by
    decide
  simpa using htest

/-- The pin of a release line. -/
def pinOf {line : ReleaseLine} (h : line ∈ releaseLines) : Pin := ⟨line.railsPin.toList, plain_railsPin line h⟩

theorem text_pinOf {line : ReleaseLine} (h : line ∈ releaseLines) :
    "gem 'rails', '".toList ++ line.railsPin.toList ++ "'".toList = (pinOf h).text := by
  rw [List.append_assoc]
  rfl

/-- What an update adds at the end. -/
def withBootsnap (line : ReleaseLine) (text : List Char) : List Char :=
  if line.since == "5.0.0" then addBootsnap text else text

/-- What an update adds in front, unless the text has a line about Ruby. -/
def withRuby (line : ReleaseLine) (hasRuby : Bool) (text : List Char) : List Char :=
  if hasRuby then text else "ruby '".toList ++ line.ruby.toList ++ "'\n".toList ++ text

section

variable {line : ReleaseLine} {target : String} {lines : List (List Char)}

/-- What an update makes of a tidy text, as lines. -/
theorem updateTo_eq (target : String) (hline : line ∈ releaseLines) (hlines : AreLines lines)
    (htidy : Tidy (pinOf hline) (Text.join ['\n'] lines)) :
    updateTo line target (Text.join ['\n'] lines) =
      withRuby line (rubyDirective.expr.found (Text.join ['\n'] lines)) (withBootsnap line
        (Text.join ['\n'] (lines.map (settle (editsFor target
          (rubyLineOf line (Text.join ['\n'] lines))))))) := by
  have hcompatible := compatible_editsFor target (rubyLineOf line (Text.join ['\n'] lines))
  rw [editsFor_eq] at hcompatible ⊢
  set removals := incompatible.filter (·.admitted target)
  -- The first edits, and what they leave as it was.
  have hsub : removals ⊆ removals ++
      (rubyPin? (rubyLineOf line (Text.join ['\n'] lines))).toList.filter (·.admitted target) :=
    List.subset_append_left _ _
  obtain ⟨hfirst, htidy₁, hlines₁⟩ := hcompatible.foldl_rewrite hsub hlines htidy
  have hdirective : rubyDirective.expr.found (Text.join ['\n'] (lines.map (settle removals))) =
      rubyDirective.expr.found (Text.join ['\n'] lines) := by
    rw [found_join onLine_rubyDirective hlines₁, found_join onLine_rubyDirective hlines, rubyPatterns.1,
      findSome?_asked_settle hcompatible hsub _ hlines.solid]
  have hversion : rubyLineOf line (Text.join ['\n'] (lines.map (settle removals))) =
      rubyLineOf line (Text.join ['\n'] lines) := by
    rw [rubyLineOf_join line hlines₁, rubyLineOf_join line hlines, rubyPatterns.2,
      findSome?_asked_settle hcompatible hsub _ hlines.solid]
  -- The pin for the version of Ruby comes last.
  obtain ⟨hsecond, -⟩ := hcompatible.foldl_rewrite (List.subset_append_right _ _) hlines₁ htidy₁
  have hsettle : settle (removals ++ (rubyPin? (rubyLineOf line
      (Text.join ['\n'] lines))).toList.filter (·.admitted target)) =
      settle ((rubyPin? (rubyLineOf line (Text.join ['\n'] lines))).toList.filter
        (·.admitted target)) ∘ settle removals := by
    funext l
    exact List.foldl_append
  rw [hsettle, ← List.map_map, ← hsecond, ← foldl_apply]
  unfold updateTo
  simp only [text_pinOf hline, htidy.replaceAll_railsGem]
  rw [foldl_apply, hfirst, hversion]
  simp only [Pattern.found, hdirective]
  cases rubyPin? (rubyLineOf line (Text.join ['\n'] lines)) <;> rfl

/-- A text, given by its lines, that an update leaves alone. -/
structure UpToDate (line : ReleaseLine) (hline : line ∈ releaseLines) (target : String)
    (lines : List (List Char)) : Prop where
  areLines : AreLines lines
  tidy : Tidy (pinOf hline) (Text.join ['\n'] lines)
  settled : ∀ l ∈ lines, settle (editsFor target (rubyLineOf line (Text.join ['\n'] lines))) l = l
  directive : rubyDirective.expr.found (Text.join ['\n'] lines) = true
  bootsnap : line.since = "5.0.0" →
    Text.hasPart "bootsnap".toList (Text.join ['\n'] lines) = true

theorem UpToDate.updateTo_eq_self {hline : line ∈ releaseLines} (h : UpToDate line hline target lines) :
    updateTo line target (Text.join ['\n'] lines) = Text.join ['\n'] lines := by
  have hsettled : lines.map (settle (editsFor target (rubyLineOf line (Text.join ['\n'] lines)))) =
      lines := by
    conv_rhs => rw [← List.map_id lines]
    exact List.map_congr_left h.settled
  rw [updateTo_eq target hline h.areLines h.tidy, hsettled, h.directive, withRuby, if_pos rfl, withBootsnap]
  split
  · rename_i hsince
    rw [addBootsnap, if_pos (h.bootsnap (eq_of_beq hsince))]
  · rfl

/-! ### What an update adds -/

/-- The lines that an update may add: those at the end and those about Ruby. -/
def bootsnapBlock : List (List Char) :=
  ["# Added by upshift for Rails 5.2.0".toList,
    "gem 'bootsnap', '>= 1.1.0', require: false".toList, []]

def rubyLine (line : ReleaseLine) : List Char := "ruby '".toList ++ line.ruby.toList ++ "'".toList

theorem withRuby_false (line : ReleaseLine) (text : List Char) :
    withRuby line false text = rubyLine line ++ '\n' :: text := by
  unfold withRuby rubyLine
  repeat rw [String.toList_ofList]
  simp

/-- The lines that an update may add. -/
def addedLines : List (List Char) := [] :: bootsnapBlock ++ releaseLines.map rubyLine

theorem addedLines_spec : ∀ l ∈ addedLines, '\n' ∉ l ∧
    ∀ gem ∈ "nokogiri" :: incompatible.map Edit.gem, asksFor gem.toList l = false := by
  decide +kernel

theorem gem_of_rubyPin? {version : String} {e : Edit} (h : rubyPin? version = some e) :
    e.gem = "nokogiri" := by
  unfold rubyPin? at h
  split at h <;> cases h <;> rfl

/-- No edit is about a line that an update adds. -/
theorem settle_added (target version : String) {l : List Char} (h : l ∈ addedLines) :
    settle (editsFor target version) l = l := by
  rcases (compatible_editsFor target version).settle_cases (List.Subset.refl _) l with
    ⟨hsame, -⟩ | ⟨-, e, he, hasks⟩
  · exact hsame
  · have hgem : e.gem ∈ "nokogiri" :: incompatible.map Edit.gem := by
      rcases List.mem_append.mp (List.mem_filter.mp he).1 with hmem | hmem
      · exact List.mem_cons_of_mem _ (List.mem_map_of_mem hmem)
      · rw [gem_of_rubyPin? (Option.mem_toList.mp hmem)]
        exact List.mem_cons_self
    rw [(addedLines_spec l h).2 e.gem hgem] at hasks
    cases hasks

theorem hasPart_append {part text : List Char} (lead : List Char)
    (h : Text.hasPart part text = true) : Text.hasPart part (lead ++ text) = true := by
  induction lead with
  | nil => exact h
  | cons x lead ih => rw [List.cons_append, Text.hasPart, ih, Bool.or_true]

theorem tidy_nil (pin : Pin) : Tidy pin [] := by
  have hnone : ∀ part, IsCall part → ¬ part <:+: [] := by
    intro part hpart hinfix
    obtain ⟨more, rfl⟩ := hpart.exists_cons
    simp at hinfix
  exact ⟨fun call h => absurd h (hnone _ (.inl ⟨call, rfl⟩)),
    fun part h hbroken => hnone part (.inr hbroken) h⟩

/-- What is added at the end are harmless lines that say nothing about Ruby. -/
theorem exists_back {pin : Pin} (line : ReleaseLine) (hlines : AreLines lines)
    (htidy : Tidy pin (Text.join ['\n'] lines)) :
    ∃ back, back ⊆ [] :: bootsnapBlock ∧
      withBootsnap line (Text.join ['\n'] lines) = Text.join ['\n'] (lines ++ back) ∧
      Tidy pin (Text.join ['\n'] (lines ++ back)) ∧
      (line.since = "5.0.0" →
        Text.hasPart "bootsnap".toList (Text.join ['\n'] (lines ++ back)) = true) := by
  have hblock : '\n' :: Text.join ['\n'] bootsnapBlock = bootsnapLines := by decide
  have hpart : ∀ lead, Text.hasPart "bootsnap".toList (lead ++ bootsnapLines) = true :=
    fun lead => hasPart_append lead (by decide)
  have hharmless : Harmless bootsnapLines := harmless_of_isHarmless (by decide)
  -- The block does no harm to what was tidy in front of it, if it begins on a line of its own.
  have hinsert : ∀ lead, EndsBreak lead → Tidy pin lead → Tidy pin (lead ++ bootsnapLines) := by
    intro lead hlead htidy
    simpa using Tidy.insert htidy (tidy_nil pin) hlead (.inl rfl) hharmless
  by_cases hnone : line.since = "5.0.0" ∧
      Text.hasPart "bootsnap".toList (Text.join ['\n'] lines) = false
  · obtain ⟨hsince, hmissing⟩ := hnone
    rw [withBootsnap, hsince, if_pos (beq_self_eq_true _), addBootsnap, hmissing]
    by_cases hends : (Text.join ['\n'] lines).getLast? = some '\n'
    · have hjoin : Text.join ['\n'] (lines ++ bootsnapBlock) =
          Text.join ['\n'] lines ++ bootsnapLines := by
        rw [Text.join_append hlines.ne_nil (by decide), hblock]
      have hlead : EndsBreak (Text.join ['\n'] lines) := by
        obtain ⟨front, hfront⟩ := List.getLast?_eq_some_iff.mp hends
        exact .inr ⟨front, hfront⟩
      refine ⟨bootsnapBlock, List.subset_cons_self _ _, ?_, ?_, fun _ => ?_⟩
      · simp [hends, hjoin]
      · exact hjoin ▸ hinsert _ hlead htidy
      · rw [hjoin]
        exact hpart _
    -- Without a line break at the end of the text, one goes in first.
    · have hjoin : Text.join ['\n'] (lines ++ [] :: bootsnapBlock) =
          (Text.join ['\n'] lines ++ ['\n']) ++ bootsnapLines := by
        rw [Text.join_append hlines.ne_nil (by simp), Text.join_cons _ _ (by decide), ← hblock]
        simp
      refine ⟨[] :: bootsnapBlock, List.Subset.refl _, ?_, ?_, fun _ => ?_⟩
      · simp [hends, hjoin]
      · exact hjoin ▸ hinsert _ (.inr ⟨_, rfl⟩) htidy.concat_break
      · rw [hjoin]
        exact hpart _
  · refine ⟨[], by simp, ?_, by simpa using htidy, fun hsince => ?_⟩
    · rw [List.append_nil, withBootsnap]
      split
      · rename_i hsince
        rw [addBootsnap, if_pos]
        simpa [eq_of_beq hsince] using hnone
      · rfl
    · simpa [hsince] using hnone

/-- The line about Ruby that an update adds asks for the version that the release asks for anyway. -/
theorem asked_rubyLine : ∀ line ∈ releaseLines,
    (asked rubyDirective.expr (rubyLine line)).isSome = true ∧
    (asked rubyVersion.expr (rubyLine line)).map (fun groups => rubyFrom line (some groups)) =
      some (rubyFrom line none) ∧ isHarmless (rubyLine line) = true := by
  decide +kernel

theorem asked_back (e : Expr) {l : List Char} (h : l ∈ [] :: bootsnapBlock) :
    asked (rubyExpr e) l = none := by
  have hall : ∀ l ∈ [] :: bootsnapBlock, '\n' ∉ l ∧ firstOf l ≠ some 'r' := by decide
  rw [asked, search_rubyExpr_eq_none (hall l h).1 (hall l h).2, Option.map_none]

/-- What an update makes of a tidy text is up to date. -/
theorem exists_upToDate (hline : line ∈ releaseLines) (hlines : AreLines lines)
    (htidy : Tidy (pinOf hline) (Text.join ['\n'] lines)) (target : String) :
    ∃ lines', UpToDate line hline target lines' ∧
      updateTo line target (Text.join ['\n'] lines) = Text.join ['\n'] lines' := by
  set version := rubyLineOf line (Text.join ['\n'] lines) with hversion
  have hcompatible := compatible_editsFor target version
  set edits := editsFor target version with hedits
  obtain ⟨-, htidy₁, hlines₁⟩ := hcompatible.foldl_rewrite (List.Subset.refl edits) hlines htidy
  obtain ⟨back, hback, hbootsnap, htidy₂, hpart⟩ := exists_back line hlines₁ htidy₁
  set body := lines.map (settle edits) ++ back with hbody
  have hadded : [] :: bootsnapBlock ⊆ addedLines := List.subset_append_left _ _
  have hbodyLines : AreLines body := by
    refine ⟨by simp [hbody, hlines.ne_nil], fun l hl => ?_⟩
    rcases List.mem_append.mp hl with hl | hl
    · exact hlines₁.solid l hl
    · exact (addedLines_spec l (hadded (hback hl))).1
  have hsettled : ∀ l ∈ body, settle edits l = l := by
    intro l hl
    rcases List.mem_append.mp hl with hl | hl
    · obtain ⟨l, -, rfl⟩ := List.mem_map.mp hl
      exact hcompatible.settle_settle l
    · exact settle_added target version (hadded (hback hl))
  -- The body says about Ruby what the text said.
  have hasked : ∀ e, body.findSome? (asked (rubyExpr e)) = lines.findSome? (asked (rubyExpr e)) := by
    intro e
    have hnone : back.findSome? (asked (rubyExpr e)) = none :=
      List.findSome?_eq_none_iff.mpr fun l hl => asked_back e (hback hl)
    rw [hbody, List.findSome?_append, hnone, Option.or_none,
      findSome?_asked_settle hcompatible (List.Subset.refl edits) e hlines.solid]
  have hupdate := updateTo_eq target hline hlines htidy
  rw [← hversion, ← hedits, hbootsnap] at hupdate
  by_cases hdirective : rubyDirective.expr.found (Text.join ['\n'] lines) = true
  · rw [hdirective] at hupdate
    have hsame : rubyLineOf line (Text.join ['\n'] body) = version := by
      rw [hversion, rubyLineOf_join line hbodyLines, rubyLineOf_join line hlines, rubyPatterns.2, hasked]
    refine ⟨body, ⟨hbodyLines, htidy₂, ?_, ?_, hpart⟩, hupdate⟩
    · rw [hsame]
      exact hsettled
    · rw [found_join onLine_rubyDirective hlines, rubyPatterns.1] at hdirective
      rw [found_join onLine_rubyDirective hbodyLines, rubyPatterns.1, hasked, hdirective]
  · -- Without a line about Ruby the version is that of the release, and so is the one of the new line.
    have hnone : lines.findSome? (asked rubyVersion.expr) = none := by
      by_contra hsome
      refine hdirective (found_rubyDirective ?_)
      rw [found_join onLine_rubyVersion hlines]
      exact Option.isSome_iff_ne_none.mpr hsome
    have hdefault : version = rubyFrom line none := by rw [hversion, rubyLineOf_join line hlines, hnone]
    obtain ⟨hruby, hasks, hharmless⟩ := asked_rubyLine line hline
    obtain ⟨groups, hgroups, hfrom⟩ := Option.map_eq_some_iff.mp hasks
    have hmem : rubyLine line ∈ addedLines := List.mem_append_right _ (List.mem_map_of_mem hline)
    have hfront : Text.join ['\n'] (rubyLine line :: body) =
        rubyLine line ++ '\n' :: Text.join ['\n'] body := by
      rw [Text.join_cons _ _ hbodyLines.ne_nil, List.append_assoc]
      rfl
    have hfrontLines : AreLines (rubyLine line :: body) :=
      ⟨by simp, List.forall_mem_cons.mpr ⟨(addedLines_spec _ hmem).1, hbodyLines.solid⟩⟩
    have hsame : rubyLineOf line (Text.join ['\n'] (rubyLine line :: body)) = version := by
      rw [rubyLineOf_join line hfrontLines, hdefault, List.findSome?_cons, hgroups]
      exact hfrom
    refine ⟨rubyLine line :: body, ⟨hfrontLines, ?_, ?_, ?_, fun hsince => ?_⟩, ?_⟩
    · rw [hfront]
      exact Tidy.insert (tidy_nil _) htidy₂.cons_break (.inl rfl) (.inr ⟨_, rfl⟩)
        (harmless_of_isHarmless hharmless)
    · rw [hsame]
      exact List.forall_mem_cons.mpr ⟨settle_added target version hmem, hsettled⟩
    · obtain ⟨found, hfound⟩ := Option.isSome_iff_exists.mp hruby
      rw [found_join onLine_rubyDirective hfrontLines, List.findSome?_cons, hfound]
      rfl
    · rw [hfront]
      exact hasPart_append _ (hasPart_append ['\n'] (hpart hsince))
    · rw [Bool.not_eq_true] at hdirective
      rw [hupdate, hfront, hdirective, withRuby_false]

end

/-! ### Carriage returns -/

theorem return_notMem_apply {e : Edit} (he : '\r' ∉ e.replacement.toList) (target : String)
    {text : List Char} (h : '\r' ∉ text) : '\r' ∉ e.apply target text := by
  unfold Edit.apply
  split
  · refine (pass_replaceAll (swaps_gemLine e) text).notMem h ?_
    rintro before taken after new ⟨-, -, line, -, rfl⟩
    rw [List.mem_append, not_or]
    exact ⟨fun hmem => absurd (List.all_eq_true.mp line.margin_blank _ hmem) (by decide), he⟩
  · exact h

theorem return_notMem_foldl {edits : List Edit} (hedits : ∀ e ∈ edits, '\r' ∉ e.replacement.toList)
    (target : String) {text : List Char} (h : '\r' ∉ text) :
    '\r' ∉ edits.foldl (fun text e => e.apply target text) text := by
  induction edits generalizing text with
  | nil => exact h
  | cons e edits ih =>
    obtain ⟨he, hedits⟩ := List.forall_mem_cons.mp hedits
    exact ih hedits (return_notMem_apply he target h)

theorem return_notMem_replacement (rubyLine : String) :
    ∀ e ∈ allEdits rubyLine, '\r' ∉ e.replacement.toList := by
  have htest : ((allEdits rubyLine).all fun e => e.replacement.toList.all (· != '\r')) = true := by
    unfold allEdits rubyPin?
    split
    all_goals
      simp only [incompatible, Option.toList_some, Option.toList_none, List.cons_append, List.nil_append,
        List.all_cons, List.all_nil]
      repeat rw [String.toList_ofList]
      decide
  intro e he hmem
  exact absurd (List.all_eq_true.mp (List.all_eq_true.mp htest e he) _ hmem) (by decide)

theorem return_notMem_bootsnapLines : '\r' ∉ bootsnapLines := by
  decide

theorem return_notMem_addBootsnap {text : List Char} (h : '\r' ∉ text) : '\r' ∉ addBootsnap text := by
  unfold addBootsnap
  split
  · exact h
  · rw [List.mem_append, not_or]
    refine ⟨?_, return_notMem_bootsnapLines⟩
    split
    · exact h
    · simpa using h

/-- No update puts a carriage return into a text. -/
theorem return_notMem_updateTo {line : ReleaseLine} (hline : line ∈ releaseLines) (target : String)
    {text : List Char} (h : '\r' ∉ text) : '\r' ∉ updateTo line target text := by
  have hfront : '\r' ∉ "gem 'rails', '".toList := by decide
  have hlines : ∀ line ∈ releaseLines, '\r' ∉ line.railsPin.toList ∧
      '\r' ∉ "ruby '".toList ++ line.ruby.toList ++ "'\n".toList := by decide
  have hpinned : '\r' ∉ railsGem.expr.replaceAll (fun _ => "gem 'rails', '".toList ++
      line.railsPin.toList ++ "'".toList) text := by
    rw [text_pinOf hline]
    refine (pass_replaceAll (swaps_railsGem (pinOf hline)) text).notMem h ?_
    rintro before taken after new ⟨-, rfl⟩
    rw [← text_pinOf hline, List.mem_append, List.mem_append, not_or, not_or]
    exact ⟨⟨hfront, (hlines line hline).1⟩, by decide⟩
  have hedited := return_notMem_foldl
    (fun e he => return_notMem_replacement "2.6" e (List.mem_append_left _ he)) target hpinned
  -- The text is followed through the edits of lines, the pin of Ruby and the block.
  unfold updateTo
  extract_lets first edited hasDirective pinned started
  have hpin : '\r' ∉ pinned := by
    simp only [pinned]
    split
    · rename_i pin hpin
      refine return_notMem_apply (return_notMem_replacement (rubyLineOf line edited) pin ?_) target hedited
      exact List.mem_append_right _ (Option.mem_toList.mpr hpin)
    · exact hedited
  have hstarted : '\r' ∉ started := by
    simp only [started]
    split
    · exact return_notMem_addBootsnap hpin
    · exact hpin
  split
  · exact hstarted
  · rw [List.mem_append, not_or]
    exact ⟨(hlines line hline).2, hstarted⟩

theorem return_notMem_updated (target : String) {text : List Char} (h : '\r' ∉ text) :
    '\r' ∉ updated target text := by
  unfold updated
  split
  · exact h
  · rename_i line hline
    exact return_notMem_updateTo (List.mem_of_find?_eq_some hline) target h

/-! ### Two updates -/

theorem areLines_splitChar (text : List Char) : AreLines (Text.splitChar '\n' text) :=
  ⟨Text.splitChar_ne_nil _ _, fun _ => Text.notMem_of_mem_splitChar⟩

/-- What an update makes of a text without broken calls is up to date. -/
theorem exists_upToDate_updateTo {line : ReleaseLine} (hline : line ∈ releaseLines) (target : String)
    {text : List Char} (h : Unbroken text) :
    ∃ lines, UpToDate line hline target lines ∧ updateTo line target text = Text.join ['\n'] lines := by
  -- Rails is pinned first, which makes the text tidy.
  set pinnedText := railsGem.expr.replaceAll (fun _ => (pinOf hline).text) text with hpinned
  have htidy : Tidy (pinOf hline) pinnedText := tidy_pass (pass_replaceAll (swaps_railsGem _) text) h
  have hsame : updateTo line target text = updateTo line target pinnedText := by
    have hagain : railsGem.expr.replaceAll (fun _ => (pinOf hline).text) pinnedText = pinnedText :=
      htidy.replaceAll_railsGem
    unfold updateTo
    simp only [text_pinOf hline, hagain, ← hpinned]
  have hjoin := Text.join_splitChar '\n' pinnedText
  rw [hsame, ← hjoin]
  exact exists_upToDate hline (areLines_splitChar pinnedText) (hjoin.symm ▸ htidy) target

/-- A second update to the same release line changes nothing. -/
theorem updateTo_updateTo {line : ReleaseLine} (hline : line ∈ releaseLines) (target : String)
    {text : List Char} (h : Unbroken text) :
    updateTo line target (updateTo line target text) = updateTo line target text := by
  obtain ⟨lines, hupToDate, hlines⟩ := exists_upToDate_updateTo hline target h
  rw [hlines, hupToDate.updateTo_eq_self]

/-- A second update to the same target changes nothing, as long as no call has a line break before its
quote: the pin of Rails, the edits of lines, the version of Ruby and what was added are all found as
they were left. -/
theorem update_update (target : String) {text : List Char} (h : Unbroken text) :
    (update target text).bind (update target) = update target text := by
  unfold update
  split
  · rfl
  · rename_i hnumber
    refine congrArg Except.ok ?_
    show updated target (updated target text) = updated target text
    unfold updated
    split
    · rfl
    · rename_i line hline
      exact updateTo_updateTo (List.mem_of_find?_eq_some hline) target h

/-- A Gemfile with an old Rails, a gem that the release drops, and no word about Ruby. -/
def oldGemfile : List Char := "  gem \"coffee-rails\"\ngem \"rails\", '5.2'".toList

theorem update_update_oldGemfile : Unbroken oldGemfile ∧
    update "6.1.0" oldGemfile = .ok ("ruby '2.7.0'\n".toList ++
      "  # gem 'coffee-rails' # Consider using webpacker in Rails 6\n".toList ++
      "gem 'rails', '~> 6.1.0'".toList) ∧
    (update "6.1.0" oldGemfile).bind (update "6.1.0") = update "6.1.0" oldGemfile :=
  ⟨by decide +kernel, by decide +kernel, update_update "6.1.0" (by decide)⟩

end RailsUpgrade.Gemfile
