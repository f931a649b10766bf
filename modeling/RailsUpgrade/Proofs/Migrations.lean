import RailsUpgrade.Proofs.ReleaseLine
import RailsUpgrade.Proofs.Timestamps

/-!
# `RailsUpgrade.Proofs.Migrations`: bringing a migration up to a target again

`Migration.update` replaces headers and then the three kinds of columns. Headers are taken to be the
first thing on their line, so that no column takes one.

* `retitled_of_pass`: a text whose headers are replaced is titled and has a header;
* `Modern`: a text that is titled and has nothing left to rewrite;
* `modern_of_update`: a run leaves a modern text, or one without a header;
* `update_bind_update`: a second run for a target from 5.2 on changes nothing.
-/

set_option autoImplicit false

namespace RailsUpgrade.Migration

open Pattern (Expr Match Pass Swap Cursor found_iff hit_of_search pass_replaceAll)

/-! ### Headers that are found -/

/-- The release line that a search finds is the one of some header. -/
theorem exists_header_of_search {text : List Char} {m : Match}
    (h : versioned.expr.search text = some m) : ∃ lead rest, ∃ (header : Header) (t : Title),
      text = lead ++ (header.base ++ (t.text ++ rest)) ∧ m.group 2 = t.line := by
  obtain ⟨-, ⟨lead, after, htext, hfirst⟩, hlast⟩ := hit_of_search h
  rw [headerPatterns.1, hfirst] at hlast
  obtain ⟨header, mid, htakes, htexts, hmid⟩ := mem_ends_headerExpr hlast
  obtain ⟨t, htakes', htexts'⟩ := mem_ends_titleExpr hmid
  refine ⟨lead, m.last.after, header, t, ?_, ?_⟩
  · have hafter := (htakes.trans htakes').after
    rw [htext, show after = _ from hafter, List.append_assoc]
  · rw [Match.group, ← Cursor.lookup_texts, htexts']
    rfl

theorem search_versioned_eq_none {text : List Char} : versioned.expr.search text = none ↔
    ∀ lead (h : Header) (t : Title) rest, text ≠ lead ++ (h.base ++ (t.text ++ rest)) := by
  have hfound := found_iff (swaps_versioned ⟨0, 0, 0⟩) text
  rw [Expr.found] at hfound
  constructor
  · rintro hnone lead h t rest rfl
    rw [hnone] at hfound
    exact absurd (hfound.mpr ⟨lead, h.base ++ t.text, rest, _, by simp, h, t, rfl, rfl⟩) (by simp)
  · intro h
    by_contra hsome
    obtain ⟨lead, taken, after, new, htext, header, t, rfl, -⟩ :=
      hfound.mp (Option.isSome_iff_ne_none.mpr hsome)
    exact h lead header t after (by rw [htext, List.append_assoc])

theorem HasTitle.exists_search {text : List Char} (h : HasTitle text) :
    ∃ m, versioned.expr.search text = some m := by
  obtain ⟨lead, header, t, rest, htext, -⟩ := h
  refine Option.ne_none_iff_exists'.mp fun hnone => ?_
  exact search_versioned_eq_none.mp hnone lead header t rest htext

section

variable {v : Version} {e : Expr} {swap : Swap} {text : List Char}

/-- A header that is the first thing on its line is so once it is replaced. -/
theorem hasTitle_of_found (hswaps : e.Swaps (header v.line) swap)
    (hnew : ∀ before taken after new, swap before taken after new → ∃ h : Header, new = h.retitled v)
    (hfound : e.found text = true) (hfresh : ∀ m, e.Hit text m → fresh m.first.before = true) :
    HasTitle (e.replaceAll (header v.line) text) := by
  rcases (pass_replaceAll hswaps text).first with ⟨hnone, -⟩ | ⟨lead, taken, after, new, more, htext,
    hswap, hresult⟩
  · obtain ⟨lead, rest, c, htext, hc⟩ := Pattern.exists_head?_of_found hfound
    obtain ⟨taken, hne, htakes, hswap⟩ := hswaps.sound hc
    have hafter : rest = taken ++ c.after := htakes.after
    exact absurd (by simpa using hswap) (hnone lead taken c.after _ (by rw [htext, hafter]) hne)
  · obtain ⟨h, rfl⟩ := hnew _ _ _ _ hswap
    rw [List.append_nil] at hswap
    obtain ⟨c, hc⟩ := List.exists_mem_of_ne_nil _ (hswaps.complete lead.length hswap)
    have hlead := hfresh ⟨_, c⟩ ⟨⟨lead, taken ++ after, htext, rfl⟩, hc⟩
    refine ⟨lead, h.plain, Title.ofVersion v, more, ?_, hlead⟩
    rw [hresult, Header.retitled, List.append_assoc]

end

/-! ### The columns -/

/-- References and columns of JSON brought up to date. -/
def columns (text : List Char) : List Char :=
  jsonColumn.expr.replaceAll binary (references.expr.replaceAll keyed text)

theorem modernize_eq (current : Option String) (text : List Char) : modernize current text =
    columns (if Version.atLeast current "5.2.0" then text
      else timestamps.expr.replaceAll preciseTimestamps text) := rfl

theorem Titled.helper {v : Version} {helper : Helper} {admits : List Char → Prop}
    {text result : List Char} (h : Titled v text) (hpass : Pass (helper.rule admits).swap [] text result) :
    Titled v result := by
  refine h.pass hpass fun before old after new more lead part rest header t hrule _ _ hpart hne heq => ?_
  rw [List.append_assoc] at heq
  exact absurd heq (Helper.not_header hrule hpart hne)

/-- A text that is titled, with a header that is the first thing on its line, and has neither references
nor columns of JSON to bring up to date. -/
structure Modern (v : Version) (text : List Char) : Prop where
  titled : Titled v text
  hasTitle : HasTitle text
  references : referenceHelper.Done (fun s => ¬ Blocked s) text
  json : jsonHelper.Done EndsColumn text

/-- Once its columns are brought up to date, a titled text is modern. -/
theorem modern_columns {v : Version} {text : List Char} (htitled : Titled v text) (hhas : HasTitle text) :
    Modern v (columns text) := by
  have hreferences := pass_replaceAll swaps_references text
  have hjson := pass_replaceAll swaps_jsonColumn (references.expr.replaceAll keyed text)
  exact {
    titled := (htitled.helper hreferences).helper hjson
    hasTitle := (hhas.pass (Helper.solid_rule _ _) hreferences).pass (Helper.solid_rule _ _) hjson
    references := not_references_of_json hjson (not_references_of_pass hreferences)
    json := not_jsonColumn_of_pass hjson }

theorem Modern.columns_eq {v : Version} {text : List Char} (h : Modern v text) : columns text = text := by
  have hreferences := h.references.eq_self (pass_replaceAll swaps_references text)
  rw [columns, hreferences]
  exact h.json.eq_self (pass_replaceAll swaps_jsonColumn text)

/-! ### A run, and another one -/

/-- A text without a header stays. -/
theorem update_of_not_found {v : Version} {text : List Char}
    (hversioned : versioned.expr.search text = none) (hunversioned : unversioned.found text = false) :
    update v text = .ok text := by
  rw [update, overlong?, hversioned]
  simp [updated, hversioned, hunversioned]

/-- A run over a migration whose release line is from 5.2 on touches no timestamps. -/
theorem update_of_search {v : Version} {text : List Char} {m : Match}
    (hsearch : versioned.expr.search text = some m)
    (hmodern : Version.atLeast (some (String.ofList (m.group 2))) "5.2.0" = true) :
    update v text = .ok (columns (versioned.expr.replaceAll (header v.line) text)) := by
  have hshort : overlong? text = none := by
    obtain ⟨w, hw⟩ := Version.exists_parse_of_atLeast hmodern
    rw [overlong?, hsearch, Option.bind_some, Version.overlong?, hw]
  rw [update, hshort]
  simp only [updated, hsearch, modernize_eq, hmodern, if_true]

/-- The release line that is found in a titled text is the one of its version. -/
theorem Titled.exists_search {target : String} {w : Version} {text : List Char}
    (hparse : Version.parse? target = some w)
    (hmodern : Version.atLeast (some target) "5.2.0" = true) (htitled : Titled w text)
    (hhas : HasTitle text) : ∃ m, versioned.expr.search text = some m ∧
      Version.atLeast (some (String.ofList (m.group 2))) "5.2.0" = true := by
  obtain ⟨m, hm⟩ := hhas.exists_search
  obtain ⟨lead, rest, h, t, htext, hgroup⟩ := exists_header_of_search hm
  obtain ⟨-, hline⟩ := htitled lead h t rest htext
  refine ⟨m, hm, ?_⟩
  rw [hgroup, hline, String.ofList_toList,
    Version.atLeast_line hparse (by decide : Version.parse? "5.2.0" = some ⟨5, 2, 0⟩), hmodern]

/-- A run leaves a modern text, or one in which it finds no header. -/
theorem modern_of_update {v : Version} {text result : List Char} (h : update v text = .ok result)
    (hfresh : ∀ m, versioned.expr.Hit text m ∨ unversioned.expr.Hit text m →
      fresh m.first.before = true) :
    Modern v result ∨ (result = text ∧ versioned.expr.search text = none ∧
      unversioned.found text = false) := by
  rw [update] at h
  split at h
  · cases h
  obtain rfl : updated v text = result := Except.ok.inj h
  -- Timestamps keep a text titled, whether they are touched or not.
  have hmodernize : ∀ (current : Option String) {text : List Char}, Titled v text → HasTitle text →
      Modern v (modernize current text) := by
    intro current text htitled hhas
    have hpass := pass_replaceAll swaps_timestamps text
    rw [modernize_eq]
    split
    · exact modern_columns htitled hhas
    · exact modern_columns (titled_timestamps htitled hpass) (hhas.pass solid_timestampRule hpass)
  unfold updated
  cases hsearch : versioned.expr.search text with
  | some m =>
    refine .inl (hmodernize _ ?_ ?_)
    · refine titled_of_pass ?_ (pass_replaceAll (swaps_versioned v) text) ?_
      · rintro before taken after new ⟨h, -, -, rfl⟩
        exact ⟨h, rfl⟩
      · rintro lead h t rest -
        exact ⟨h.base ++ t.text, rest, h.retitled v, by rw [List.append_assoc], h, t, rfl, rfl⟩
    · refine hasTitle_of_found (swaps_versioned v) ?_ (by rw [Expr.found, hsearch]; rfl)
        fun m hm => hfresh m (.inl hm)
      rintro before taken after new ⟨h, -, -, rfl⟩
      exact ⟨h, rfl⟩
  | none =>
    dsimp only
    split
    · rename_i hfound
      refine .inl (hmodernize _ ?_ ?_)
      · refine titled_of_pass ?_ (pass_replaceAll (swaps_unversioned v) text) ?_
        · rintro before taken after new ⟨h, -, -, -, rfl⟩
          exact ⟨h, rfl⟩
        · intro lead h t rest htext
          exact absurd htext (search_versioned_eq_none.mp hsearch lead h t rest)
      · refine hasTitle_of_found (swaps_unversioned v) ?_ hfound fun m hm => hfresh m (.inr hm)
        rintro before taken after new ⟨h, -, -, -, rfl⟩
        exact ⟨h, rfl⟩
    · rename_i hfound
      exact .inr ⟨rfl, rfl, by simpa using hfound⟩

/-- Bringing a migration up to a target from 5.2 on a second time changes nothing, if the headers of
classes are the first thing on their lines. -/
theorem update_bind_update {target : String} {v : Version} (hparse : Version.parse? target = some v)
    (hmodern : Version.atLeast (some target) "5.2.0" = true) {text : List Char}
    (hfresh : ∀ m, versioned.expr.Hit text m ∨ unversioned.expr.Hit text m →
      fresh m.first.before = true) :
    (update v text).bind (update v) = update v text := by
  cases hupdate : update v text with
  | error number => rfl
  | ok result =>
    show update v result = .ok result
    rcases modern_of_update hupdate hfresh with hresult | ⟨rfl, hversioned, hunversioned⟩
    · obtain ⟨m, hsearch, hcurrent⟩ := hresult.titled.exists_search hparse hmodern hresult.hasTitle
      rw [update_of_search hsearch hcurrent, hresult.titled.replaceAll, hresult.columns_eq]
    · exact update_of_not_found hversioned hunversioned

/-- Every `class` in a text is the first thing on its line. -/
def classesLead (text : List Char) : Bool :=
  (List.range (text.length + 1)).all fun n =>
    !"class".toList.isPrefixOf (text.drop n) || fresh (text.take n).reverse

/-- Headers begin with `class`. -/
theorem fresh_of_classesLead {text : List Char} (h : classesLead text = true) {m : Match}
    (hm : versioned.expr.Hit text m ∨ unversioned.expr.Hit text m) : fresh m.first.before = true := by
  have hheader : ∃ e, (headerExpr e).Hit text m := by
    rcases hm with hm | hm
    · exact ⟨_, headerPatterns.1 ▸ hm⟩
    · exact ⟨_, headerPatterns.2 ▸ hm⟩
  obtain ⟨e, ⟨lead, after, htext, hfirst⟩, hlast⟩ := hheader
  rw [hfirst] at hlast
  obtain ⟨header, mid, htakes, -⟩ := mem_ends_headerExpr hlast
  have hafter : after = header.base ++ mid.after := htakes.after
  have hlead := List.all_eq_true.mp h lead.length (by rw [List.mem_range, htext, List.length_append]; omega)
  have hclass : "class".toList.isPrefixOf (text.drop lead.length) = true := by
    rw [List.isPrefixOf_iff_prefix, htext, List.drop_left, hafter, header.base_append]
    exact List.prefix_append _ _
  rw [hclass, htext, List.take_left] at hlead
  rw [hfirst]
  simpa using hlead

/-- A migration with columns of every kind. -/
def usersMigration : List Char :=
  "class AddUsers < ActiveRecord::Migration\n  t.references :team\n  t.timestamps # both\n".toList

theorem update_bind_update_users : Version.parse? "7.0.0" = some ⟨7, 0, 0⟩ ∧
    Version.atLeast (some "7.0.0") "5.2.0" = true ∧ classesLead usersMigration = true ∧
    (update ⟨7, 0, 0⟩ usersMigration).bind (update ⟨7, 0, 0⟩) = update ⟨7, 0, 0⟩ usersMigration := by
  have hlead : classesLead usersMigration = true := by decide +kernel
  have hparse : Version.parse? "7.0.0" = some ⟨7, 0, 0⟩ := by decide
  exact ⟨hparse, by decide, hlead,
    update_bind_update hparse (by decide) fun _ => fresh_of_classesLead hlead⟩

end RailsUpgrade.Migration
