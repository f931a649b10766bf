import RailsUpgrade.Proofs.GemfileReports

/-!
# `RailsUpgrade.Proofs.Unsupported`: gems that a release does not support

An update edits the lines that ask for a gem which the release does not support. What follows its edits
must not ask for such a gem again: the gem at the end, which a call that is left open might reach into,
and the line in front.

* `opens_addBootsnap_iff`: the gem at the end opens no line for another gem, and ends no call;
* `opens_updateTo_iff`: an update leaves the lines of a gem exactly if it does not edit them;
* `update_closes`: no line asks for a gem that the release of the target does not support.
-/

set_option autoImplicit false

namespace RailsUpgrade.Gemfile

variable {line : ReleaseLine} {target : String} {text gem : List Char}

/-! ### The gem at the end -/

/-- Behind a note on a line of its own and a call, both without another `g`, no call for another gem
begins, and none that was left open before them ends there. -/
theorem exists_call_before {gem' note more lead rest : List Char} {call' : GemCall gem'}
    {call : GemCall gem} (hgem : isName gem = true) (hgem' : isName gem' = true) (hne : gem ≠ gem')
    (hnote : 'g' ∉ note) (hstarts : StartsUnquoted note) (hbehind : 'g' ∉ call'.tail ++ more)
    (heq : text ++ '\n' :: (note ++ (call'.text ++ more)) = lead ++ (call.text ++ rest)) :
    ∃ rest', text = lead ++ (call.text ++ rest') := by
  rcases List.append_eq_append_iff.mp heq with ⟨a, rfl, hblock⟩ | ⟨a, rfl, hcall⟩
  · -- The call would begin behind the text, where the only `g` begins the call for the other gem.
    have hfront : 'g' ∉ '\n' :: note := by simpa using hnote
    obtain ⟨b, -, hrest⟩ := exists_of_notMem hfront
      (show ('\n' :: note) ++ (call'.text ++ more) = a ++ 'g' :: (call.tail ++ rest) from hblock)
    cases b with
    | nil => exact absurd (GemCall.unique hgem' hgem hrest) hne.symm
    | cons x b =>
      have hinner : call'.tail ++ more = b ++ 'g' :: (call.tail ++ rest) := (List.cons_eq_cons.mp hrest).2
      exact absurd (hinner ▸ by simp) hbehind
  · rcases List.append_eq_append_iff.mp hcall with ⟨b, rfl, -⟩ | ⟨b, htext, hrest⟩
    · exact ⟨b, rfl⟩
    · cases b with
      | nil => exact ⟨[], by rw [htext, List.append_nil, List.append_nil]⟩
      | cons x b =>
        obtain ⟨rfl, hsame⟩ := List.cons_eq_cons.mp hrest
        exact absurd hsame.symm (hstarts.not_across (call.breaksQuoted hgem) htext)

/-- What stands behind a text once the gem is added that speeds up the start. -/
theorem addBootsnap_cases (text : List Char) : addBootsnap text = text ∨ ∃ note more,
    addBootsnap text = text ++ '\n' :: (note ++ ((plainCall "bootsnap".toList).text ++ more)) ∧
      'g' ∉ note ∧ StartsUnquoted note ∧ 'g' ∉ (plainCall "bootsnap".toList).tail ++ more := by
  have hstarts : ∀ gap : List Char, gap.all Text.isBlank = true →
      StartsUnquoted (gap ++ '#' :: " Added by upshift for Rails 5.2.0\n".toList) := fun gap hgap =>
    ⟨gap, '#', _, rfl, hgap, by decide, by decide⟩
  have hlines : bootsnapLines = '\n' :: ([] ++ '#' :: " Added by upshift for Rails 5.2.0\n".toList ++
      ((plainCall "bootsnap".toList).text ++ ", '>= 1.1.0', require: false\n".toList)) := by
    decide
  have hbehind : 'g' ∉ (plainCall "bootsnap".toList).tail ++ ", '>= 1.1.0', require: false\n".toList := by
    decide
  unfold addBootsnap
  split
  · exact .inl rfl
  · right
    split
    · exact ⟨_, _, congrArg (text ++ ·) hlines, by decide, hstarts [] rfl, hbehind⟩
    · refine ⟨_, _, ?_, by decide, hstarts ['\n'] (by decide), hbehind⟩
      rw [hlines]
      simp

/-- The gem that speeds up the start opens no line for another gem, and ends no call. -/
theorem opens_addBootsnap_iff (hgem : isName gem = true) (hne : gem ≠ "bootsnap".toList) :
    Opens gem (addBootsnap text) ↔ Opens gem text := by
  rcases addBootsnap_cases text with hsame | ⟨note, more, hadded, hnote, hstarts, hbehind⟩
  · rw [hsame]
  · rw [hadded, opens_iff, opens_iff]
    constructor
    · rintro ⟨lead, call, rest, heq, hlead⟩
      obtain ⟨rest', htext⟩ :=
        exists_call_before hgem (by decide) hne hnote hstarts hbehind heq
      exact ⟨lead, call, rest', htext, hlead⟩
    · rintro ⟨lead, call, rest, rfl, hlead⟩
      exact ⟨lead, call, _, by rw [List.append_assoc, List.append_assoc], hlead⟩

/-! ### Updates -/

/-- The lines of a gem are left after several edits exactly if none of them is about the gem. -/
theorem opens_foldl_iff {edits : List Edit} (h : Tracked gem edits) :
    Opens gem (edits.foldl (fun text e => e.rewrite text) text) ↔
      Opens gem text ∧ ∀ e ∈ edits, e.gem.toList ≠ gem := by
  refine ⟨opens_of_foldl h, fun hboth => ?_⟩
  obtain ⟨hopens, hne⟩ := hboth
  induction edits generalizing text with
  | nil => exact hopens
  | cons e edits ih =>
    rw [List.forall_mem_cons] at hne
    have hfirst := opens_rewrite (h.plain e List.mem_cons_self) h.isName
      (h.names e List.mem_cons_self) hne.1 hopens
    exact ih h.of_cons hfirst hne.2

theorem unsupportedGems_spec : ∀ gem ∈ unsupportedGems,
    gem.toList ≠ "bootsnap".toList ∧ gem ≠ "nokogiri" := by
  decide

/-- An update makes no edit of an unsupported gem unless the target admits one. -/
theorem editsFor_spare_iff (target version : String) {gem : String} (hgem : gem ∈ unsupportedGems) :
    (∀ e ∈ editsFor target version, e.gem.toList ≠ gem.toList) ↔
      ∀ e ∈ incompatible, e.gem = gem → e.admitted target = false := by
  constructor
  · intro h e he hsame
    by_contra hadmitted
    refine h e (List.mem_filter.mpr ⟨List.mem_append_left _ he, ?_⟩) (congrArg _ hsame)
    simpa using hadmitted
  · intro h e he hsame
    obtain ⟨hmem, hadmitted⟩ := List.mem_filter.mp he
    have hname : e.gem = gem := String.toList_inj.mp hsame
    rcases List.mem_append.mp hmem with hmem | hmem
    · rw [h e hmem hname] at hadmitted
      cases hadmitted
    · exact (unsupportedGems_spec gem hgem).2 (hname ▸ gem_of_rubyPin? (Option.mem_toList.mp hmem))

/-- A line asks for an unsupported gem after an update exactly if one asked for it before, and the
target admits no edit of the gem. -/
theorem opens_updateTo_iff (hline : line ∈ releaseLines) {gem : String} (hgem : gem ∈ unsupportedGems) :
    Opens gem.toList (updateTo line target text) ↔ Opens gem.toList text ∧
      ∀ e ∈ incompatible, e.gem = gem → e.admitted target = false := by
  obtain ⟨version, hparts⟩ := updateTo_eq_parts hline target text
  obtain ⟨hname, hrails, -⟩ := spared hgem
  have hbootsnap : ∀ text, Opens gem.toList (withBootsnap line text) ↔ Opens gem.toList text := by
    intro text
    unfold withBootsnap
    split
    · exact opens_addBootsnap_iff hname (unsupportedGems_spec gem hgem).1
    · exact Iff.rfl
  rw [hparts, opens_withRuby_iff hline, hbootsnap, opens_foldl_iff (tracked_editsFor target version hgem),
    opens_pinned_iff (pass_withPin hline text) hname hrails, editsFor_spare_iff target version hgem]

/-- A target from 5.0.0 on has a release line, and its update does not fail. -/
theorem exists_releaseLine (htarget : Version.atLeast (some target) "5.0.0" = true) :
    ∃ line ∈ releaseLines, ∀ text, update target text = .ok (updateTo line target text) := by
  obtain ⟨line, hline⟩ : ∃ line, releaseLine? target = some line :=
    Option.isSome_iff_exists.mp (List.find?_isSome.mpr
      ⟨⟨"5.0.0", "~> 5.2.0", "2.5.0"⟩, by decide, htarget⟩)
  refine ⟨line, List.mem_of_find?_eq_some hline, fun text => ?_⟩
  rw [update, overlong?_eq_none htarget, updated, hline]

/-- After an update to a target from 5.0.0 on, no line asks for a gem that the target's release does not
support. A gem that no edit for the target is about is asked for as before. -/
theorem update_closes (htarget : Version.atLeast (some target) "5.0.0" = true) (text : List Char) :
    ∃ result, update target text = .ok result ∧
      ∀ e ∈ incompatible, e.gem ≠ "rspec-rails" →
        (e.admitted target = true → (gemLine e.gem).found result = false) ∧
        ((∀ e' ∈ incompatible, e'.gem = e.gem → e'.admitted target = false) →
          (gemLine e.gem).found result = (gemLine e.gem).found text) := by
  obtain ⟨line, hline, hupdate⟩ := exists_releaseLine htarget
  refine ⟨_, hupdate text, fun e he hne => ?_⟩
  have hiff : Opens e.gem.toList (updateTo line target text) ↔ Opens e.gem.toList text ∧
      ∀ e' ∈ incompatible, e'.gem = e.gem → e'.admitted target = false :=
    opens_updateTo_iff hline (mem_unsupportedGems e he hne)
  rw [← found_gemLine_iff, ← found_gemLine_iff] at hiff
  constructor
  · intro hadmitted
    rw [← Bool.not_eq_true, hiff]
    rintro ⟨-, hnone⟩
    rw [hnone e he rfl] at hadmitted
    cases hadmitted
  · intro hnone
    rw [Bool.eq_iff_iff, hiff]
    exact and_iff_left hnone

/-- A gem whose call reaches over two lines is commented out, and one that is still supported stays. -/
theorem update_closes_protected : Version.atLeast (some "5.2.0") "5.0.0" = true ∧
    ∃ result, update "5.2.0" "gem\n  'protected_attributes'\ngem 'uglifier'".toList = .ok result ∧
      (gemLine "protected_attributes").found result = false ∧
      (gemLine "uglifier").found result = true := by
  have htarget : Version.atLeast (some "5.2.0") "5.0.0" = true := by decide
  obtain ⟨result, hupdate, hgems⟩ :=
    update_closes htarget "gem\n  'protected_attributes'\ngem 'uglifier'".toList
  obtain ⟨hclosed, -⟩ := hgems
    ⟨"protected_attributes", "# gem 'protected_attributes' # Removed in Rails 5", ">= 5.0.0"⟩ (by decide)
    (by decide)
  obtain ⟨-, hkept⟩ := hgems ⟨"uglifier", "gem 'jsbundling-rails'", ">= 7.0.0"⟩ (by decide) (by decide)
  refine ⟨htarget, result, hupdate, hclosed (by decide), ?_⟩
  rw [hkept (by decide)]
  decide

end RailsUpgrade.Gemfile
