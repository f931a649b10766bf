import RailsUpgrade.Proofs.Migrations

/-!
# `RailsUpgrade.Proofs.KeptTimestamps`: the timestamps of modern migrations

A run writes the release line of its target into the migration, and the next run reads it from there.
As long as it is from 5.2 on, no run touches timestamps.

* `mem_splitChar_iff`: the lines of a text, told without cutting it;
* `Swap.Spares`, `Pass.keeps_line`: what a pass must not take, for a line to stay;
* `timestamps_kept`: over any number of targets, of which all but the last are from 5.2 on, only headers,
  references and columns of JSON are rewritten, and the lines of timestamps stay;
* `timestamps_touched`: a target below 5.2 that is not the last lets the next run touch them.
-/

set_option autoImplicit false

namespace RailsUpgrade

open Pattern (Match Pass Swap pass_replaceAll line_unique)
open Text (StartsBreak)
open Gemfile (exists_of_notMem prefix_of_startsBreak AreLines areLines_splitChar)

/-! ### Lines of a text -/

/-- A line stands at the start of a text or behind a line break, and goes up to the next one. -/
def HasLine (line text : List Char) : Prop :=
  ∃ after, StartsBreak after ∧ (text = line ++ after ∨ ∃ lead, text = lead ++ '\n' :: (line ++ after))

theorem hasLine_join {lines : List (List Char)} (h : AreLines lines) {line : List Char}
    (hline : '\n' ∉ line) : HasLine line (Text.join ['\n'] lines) ↔ line ∈ lines := by
  obtain ⟨hne, hsolid⟩ := h
  induction lines with
  | nil => exact absurd rfl hne
  | cons first lines ih =>
    have hfirst : '\n' ∉ first := hsolid first List.mem_cons_self
    by_cases hlast : lines = []
    · subst hlast
      rw [List.mem_singleton]
      have hjoin : Text.join ['\n'] [first] = first := by simp [Text.join]
      rw [hjoin]
      constructor
      · rintro ⟨after, hafter, htext | ⟨lead, htext⟩⟩
        · have htext' : first ++ [] = line ++ after := by rw [List.append_nil, htext]
          exact (line_unique hfirst hline (.inl rfl) hafter htext').1.symm
        · exact absurd (by rw [htext]; simp) hfirst
      · rintro rfl
        exact ⟨[], .inl rfl, .inl (List.append_nil _).symm⟩
    · have hjoin : Text.join ['\n'] (first :: lines) = first ++ '\n' :: Text.join ['\n'] lines := by
        rw [Text.join_cons _ _ hlast, List.append_assoc, List.singleton_append]
      have hrest := ih hlast fun l hl => hsolid l (List.mem_cons_of_mem _ hl)
      rw [hjoin, List.mem_cons, ← hrest]
      constructor
      -- A line of the text is the first one, or one of the text behind it.
      · rintro ⟨after, hafter, htext | ⟨lead, htext⟩⟩
        · exact .inl (line_unique hfirst hline (.inr ⟨_, rfl⟩) hafter htext).1.symm
        · obtain ⟨part, rfl, hpart⟩ := exists_of_notMem hfirst htext
          cases part with
          | nil => exact .inr ⟨after, hafter, .inl (List.cons_eq_cons.mp hpart).2⟩
          | cons x part =>
            obtain ⟨-, hpart⟩ := List.cons_eq_cons.mp hpart
            exact .inr ⟨after, hafter, .inr ⟨part, hpart⟩⟩
      · rintro (rfl | ⟨after, hafter, htext | ⟨lead, htext⟩⟩)
        · exact ⟨_, .inr ⟨_, rfl⟩, .inl rfl⟩
        · exact ⟨after, hafter, .inr ⟨first, by rw [htext]⟩⟩
        · exact ⟨after, hafter, .inr ⟨first ++ '\n' :: lead, by rw [htext]; simp⟩⟩

/-- The lines that a text is split into. -/
theorem mem_splitChar_iff {line text : List Char} :
    line ∈ Text.splitChar '\n' text ↔ '\n' ∉ line ∧ HasLine line text := by
  have hlines := areLines_splitChar text
  constructor
  · intro hmem
    have hline := hlines.solid line hmem
    refine ⟨hline, ?_⟩
    have hjoin := (hasLine_join hlines hline).mpr hmem
    rwa [Text.join_splitChar] at hjoin
  · rintro ⟨hline, hhas⟩
    refine (hasLine_join hlines hline).mp ?_
    rwa [Text.join_splitChar]

namespace Pattern

/-- Nothing that is swapped begins in a line, reaches over its start, or is a line break. -/
structure Swap.Spares (swap : Swap) (line : List Char) : Prop where
  inside : ∀ {before lead part rest taken after new}, StartsBreak rest → line = lead ++ part →
    part ≠ [] → part ++ rest = taken ++ after → ¬ swap before taken after new
  across : ∀ {before taken after new lead more rest}, swap before taken after new →
    taken = lead ++ '\n' :: more → more ++ after ≠ line ++ rest
  start : ∀ {before taken after new}, swap before taken after new → taken.head? ≠ some '\n' ∧ taken ≠ []

variable {swap : Swap} {before text result line after : List Char}

/-- A pass keeps the line that it comes to. -/
theorem Pass.keeps_next_line (h : Pass swap before (line ++ after) result) (hspares : swap.Spares line)
    (hafter : StartsBreak after) : ∃ after', result = line ++ after' ∧ StartsBreak after' := by
  obtain ⟨more, rfl, hmore⟩ := h.skip fun lead part taken after new hpart hne htaken =>
    hspares.inside hafter hpart hne htaken
  refine ⟨more, rfl, ?_⟩
  rcases hafter with rfl | ⟨rest, rfl⟩
  · exact .inl hmore.eq_nil
  · obtain ⟨more, rfl, -⟩ := hmore.keeps fun taken after new htaken hswap => by
      obtain ⟨x, taken, rfl⟩ := List.exists_cons_of_ne_nil (hspares.start hswap).2
      obtain ⟨rfl, -⟩ := List.cons_eq_cons.mp htaken
      exact (hspares.start hswap).1 rfl
    exact .inr ⟨more, rfl⟩

/-- A pass keeps a line that it comes to behind a line break. -/
theorem Pass.keeps_later_line {lead : List Char} (h : Pass swap before text result)
    (htext : text = lead ++ '\n' :: (line ++ after)) (hspares : swap.Spares line)
    (hafter : StartsBreak after) :
    ∃ lead' after', result = lead' ++ '\n' :: (line ++ after') ∧ StartsBreak after' := by
  induction h generalizing lead with
  | done before => simp at htext
  | @keep before text result x idle hmore ih =>
    cases lead with
    | nil =>
      obtain ⟨rfl, rfl⟩ := List.cons_eq_cons.mp htext
      obtain ⟨after', rfl, hafter'⟩ := hmore.keeps_next_line hspares hafter
      exact ⟨[], after', rfl, hafter'⟩
    | cons y lead =>
      obtain ⟨lead', after', rfl, hafter'⟩ := ih (List.cons_eq_cons.mp htext).2
      exact ⟨x :: lead', after', rfl, hafter'⟩
  | @hit before taken rest new result hne hswap hmore ih =>
    -- The line break in front of the line is behind what was taken, as the line is not taken across.
    rcases List.append_eq_append_iff.mp htext with ⟨lead, -, hrest⟩ | ⟨part, hpart, hrest⟩
    · obtain ⟨lead', after', rfl, hafter'⟩ := ih hrest
      exact ⟨new ++ lead', after', by rw [List.append_assoc], hafter'⟩
    · cases part with
      | nil =>
        have hnext : rest = [] ++ '\n' :: (line ++ after) := hrest.symm
        obtain ⟨lead', after', rfl, hafter'⟩ := ih hnext
        exact ⟨new ++ lead', after', by rw [List.append_assoc], hafter'⟩
      | cons x part =>
        obtain ⟨rfl, hline⟩ := List.cons_eq_cons.mp hrest
        exact absurd hline.symm (hspares.across hswap hpart)

/-- A pass keeps a line. -/
theorem Pass.keeps_line (h : Pass swap before text result) (hspares : swap.Spares line)
    (hline : HasLine line text) : HasLine line result := by
  obtain ⟨after, hafter, rfl | ⟨lead, htext⟩⟩ := hline
  · obtain ⟨after', rfl, hafter'⟩ := h.keeps_next_line hspares hafter
    exact ⟨after', hafter', .inl rfl⟩
  · obtain ⟨lead', after', rfl, hafter'⟩ := h.keeps_later_line htext hspares hafter
    exact ⟨after', hafter', .inr ⟨lead', rfl⟩⟩

end Pattern

namespace Migration

/-! ### Lines of timestamps -/

/-- A line whose first word is the helper for timestamps. -/
structure IsTimestamps (line : List Char) : Prop where
  solid : '\n' ∉ line
  first : ∃ margin rest, line = margin ++ ("t.timestamps".toList ++ rest) ∧
    margin.all Text.isBlank = true

/-- What begins with other blanks and something else than the helper is no such line. -/
theorem IsTimestamps.ne {line : List Char} (h : IsTimestamps line) {blanks s : List Char}
    (hblanks : blanks.all Text.isBlank = true) (hs : s.head?.any Text.isBlank = false) (after : List Char)
    (heq : blanks ++ s = line ++ after) : ∃ rest, s = 't' :: '.' :: rest := by
  obtain ⟨margin, rest, rfl, hmargin⟩ := h.first
  have hdot : "t.timestamps".toList = 't' :: '.' :: "timestamps".toList := by decide
  have hsplit : blanks ++ s = margin ++ ('t' :: '.' :: ("timestamps".toList ++ (rest ++ after))) := by
    rw [heq, hdot]
    simp only [List.append_assoc, List.cons_append]
  exact ⟨_, (Text.span_unique hblanks hmargin hs (by rfl) hsplit).2⟩

theorem spares_helper {helper : Helper} {admits : List Char → Prop} {line : List Char}
    (hline : IsTimestamps line) (hfree : ∀ w ∈ helper.words, ¬ 't' :: '.' :: w.1 <:+: line) :
    (helper.rule admits).swap.Spares line where
  inside := by
    rintro before lead part rest _ after _ hrest rfl - hsplit ⟨_, _, rfl, -, w, hw, call, -, rfl, -⟩
    have hbreak : '\n' ∉ 't' :: '.' :: w.1 := by
      simp only [List.mem_cons, not_or]
      exact ⟨by decide, by decide, Helper.notMem_of_word (helper.words_word w hw).1 (by decide)⟩
    have hpart : ('t' :: '.' :: w.1) ++ (call.text ++ after) = part ++ rest := by
      rw [hsplit]
      simp
    exact hfree w hw ((prefix_of_startsBreak hbreak hrest hpart).isInfix.trans
      (List.suffix_append lead part).isInfix)
  across := by
    rintro before _ after _ lead more rest ⟨_, _, rfl, -, w, hw, call, -, rfl, -⟩ hsplit heq
    -- The line break stands in the blanks in front of the colon.
    have hword : '\n' ∉ 't' :: '.' :: w.1 := by
      simp only [List.mem_cons, not_or]
      exact ⟨by decide, by decide, Helper.notMem_of_word (helper.words_word w hw).1 (by decide)⟩
    obtain ⟨part, rfl, htext⟩ := exists_of_notMem (t := call.text) hword hsplit
    rcases break_in_blanks htext with ⟨tail, hgap, rfl⟩ | ⟨part, rfl, hname⟩
    · have htail : tail.all Text.isBlank = true := by
        have hall := call.gap_blank
        rw [hgap, List.all_append, List.all_cons, Bool.and_eq_true, Bool.and_eq_true] at hall
        exact hall.2.2
      rw [List.append_assoc] at heq
      obtain ⟨rest', hcolon⟩ := hline.ne htail (by rfl) rest heq
      exact absurd (List.cons_eq_cons.mp hcolon).1 (by decide)
    · have hmem : '\n' ∈ ':' :: call.name := by rw [hname]; simp
      rw [List.mem_cons] at hmem
      exact hmem.elim (by decide) (Helper.notMem_of_word call.name_word (by decide))
  start := by
    rintro before _ after _ ⟨_, _, rfl, -, -⟩
    simp

theorem spares_retitles (v : Version) {line : List Char} (hline : IsTimestamps line)
    (hfree : ¬ "class".toList <:+: line) : (retitles v).Spares line where
  inside := by
    rintro before lead part rest _ after _ hrest rfl - hsplit ⟨h, t, rfl, -⟩
    rw [h.base_append, List.append_assoc] at hsplit
    exact hfree ((prefix_of_startsBreak (by decide) hrest hsplit.symm).isInfix.trans
      (List.suffix_append lead part).isInfix)
  across := by
    rintro before _ after _ lead more rest ⟨h, t, rfl, -⟩ hsplit heq
    have htail : ∀ {gap front tail : List Char}, gap.all Text.isBlank = true →
        gap = front ++ '\n' :: tail → tail.all Text.isBlank = true := by
      rintro gap front tail hgap rfl
      rw [List.all_append, List.all_cons, Bool.and_eq_true, Bool.and_eq_true] at hgap
      exact hgap.2.2
    rcases h.break_cases t hsplit with ⟨front, tail, -, hgap, rfl⟩ | ⟨front, tail, -, hspace, rfl⟩ |
      ⟨front, tail, -, hmargin, rfl⟩
    · -- The name would be a single `t` with a dot behind it.
      rw [List.append_assoc] at heq
      obtain ⟨rest', hname⟩ := hline.ne (htail h.gap_blank hgap) (by
        rw [List.append_assoc]
        exact head?_of_all h.name_word h.name_ne (fun _ => isBlank_eq_false_of_isWord) _) rest heq
      have hword : (['t'] : List Char).all Text.isWord = true := by decide
      have hstop : (h.space ++ ("<".toList ++ (h.margin ++ (superclass.toList ++ t.text))) ++ after).head?.any
          Text.isWord = false := by
        rw [List.append_assoc]
        exact head?_of_all h.space_blank h.space_ne (fun _ => Text.isWord_eq_false_of_isBlank) _
      rw [List.append_assoc] at hname
      obtain ⟨-, hspace⟩ := Text.span_unique h.name_word hword hstop (by rfl) hname
      obtain ⟨x, space, hx⟩ := List.exists_cons_of_ne_nil h.space_ne
      rw [hx] at hspace
      obtain ⟨rfl, -⟩ := List.cons_eq_cons.mp hspace
      exact Helper.notMem_of_blank h.space_blank (x := '.') (by decide) (by rw [hx]; simp)
    · have hbracket : "<".toList = ['<'] := by decide
      rw [List.append_assoc, hbracket] at heq
      obtain ⟨rest', hcolon⟩ := hline.ne (htail h.space_blank hspace) (by rfl) rest heq
      exact absurd (List.cons_eq_cons.mp hcolon).1 (by decide)
    · have hsuper : superclass.toList = 'A' :: "ctiveRecord::Migration".toList := by decide
      rw [List.append_assoc, hsuper] at heq
      obtain ⟨rest', hcolon⟩ := hline.ne (htail h.margin_blank hmargin) (by rfl) rest heq
      exact absurd (List.cons_eq_cons.mp hcolon).1 (by decide)
  start := by
    rintro before _ after _ ⟨h, t, rfl, -⟩
    rw [h.base_eq]
    simp

/-! ### Any number of targets -/

/-- Where one header is the first thing on its line, one is so once headers are replaced. -/
theorem hasTitle_of_retitles {v : Version} {before before' text result : List Char}
    (hpass : Pass (retitles v) before text result) (hbefore : fresh before = fresh before')
    {lead rest : List Char} {h : Header} {t : Title} (htext : text = lead ++ (h.base ++ (t.text ++ rest)))
    (hfresh : fresh (lead.reverse ++ before) = true) :
    ∃ lead' rest', ∃ (h' : Header) (t' : Title), result = lead' ++ (h'.base ++ (t'.text ++ rest')) ∧
      fresh (lead'.reverse ++ before') = true := by
  -- What was put in and what was taken out end alike, so later headers stay as fresh as they were.
  have hends : ∀ (h : Header) (t : Title) before, fresh ((h.base ++ t.text).reverse ++ before) = false := by
    intro h t before
    have hclose : h.base ++ t.text = (h.base ++ '[' :: t.line) ++ ']' :: [] := by simp [Title.text]
    rw [hclose]
    exact fresh_eq_false (by decide) (by simp) _ _
  induction hpass generalizing lead before' with
  | done before =>
    rw [h.base_eq] at htext
    simp at htext
  | @keep before text result x idle hmore ih =>
    cases lead with
    | nil =>
      have hswap : retitles v before (h.base ++ t.text) rest (h.retitled v) := ⟨h, t, rfl, rfl⟩
      exact absurd hswap (idle _ _ _ (by rw [htext, List.append_assoc]; rfl))
    | cons y lead =>
      obtain ⟨rfl, hrest⟩ := List.cons_eq_cons.mp htext
      have hnext : fresh (x :: before) = fresh (x :: before') := fresh_congr hbefore [x]
      obtain ⟨lead', rest', h', t', rfl, hfresh'⟩ := ih hnext hrest (by simpa using hfresh)
      exact ⟨x :: lead', rest', h', t', rfl, by simpa using hfresh'⟩
  | @hit before taken after new result hne hswap hmore ih =>
    obtain ⟨h₀, t₀, rfl, rfl⟩ := hswap
    rcases List.append_eq_append_iff.mp htext with ⟨lead, rfl, hafter⟩ | ⟨part, hpart, hheader⟩
    · have hnext : fresh ((h₀.base ++ t₀.text).reverse ++ before) =
          fresh ((h₀.retitled v).reverse ++ before') := by
        rw [hends, Header.retitled, hends]
      obtain ⟨lead', rest', h', t', rfl, hfresh'⟩ := ih hnext hafter (by simpa using hfresh)
      exact ⟨h₀.retitled v ++ lead', rest', h', t', by rw [List.append_assoc], by simpa using hfresh'⟩
    -- A header does not begin inside of another one.
    · by_cases hlead : lead = []
      · refine ⟨[], result, h₀.plain, Title.ofVersion v, ?_, ?_⟩
        · rw [Header.retitled, List.append_assoc, List.nil_append]
        · rw [hlead] at hfresh
          exact hbefore ▸ hfresh
      · by_cases hnil : part = []
        · rw [hnil, List.append_nil] at hpart
          rw [← hpart, hends] at hfresh
          cases hfresh
        · have hc : 'c' ∉ t₀.text := t₀.notMem_text (by decide) (by decide) (by decide)
          exact absurd hheader.symm (Header.not_begins hc hpart hlead hnil)

/-- A run that touches no timestamps. -/
def brought (v : Version) (text : List Char) : List Char :=
  columns (versioned.expr.replaceAll (header v.line) text)

/-- A run over a text with a header that is the first thing on its line leaves one, with the release line
of the target. -/
theorem modern_brought (v : Version) {text : List Char} (h : HasTitle text) : Modern v (brought v text) := by
  have hpass := pass_replaceAll (swaps_versioned v) text
  refine modern_columns (titled_of_pass ?_ hpass ?_) ?_
  · rintro before taken after new ⟨h, -, -, rfl⟩
    exact ⟨h, rfl⟩
  · rintro lead h t rest -
    exact ⟨h.base ++ t.text, rest, h.retitled v, by rw [List.append_assoc], h, t, rfl, rfl⟩
  · obtain ⟨lead, header, t, rest, htext, hfresh⟩ := h
    have hlead : fresh (lead.reverse ++ []) = true := by simpa using hfresh
    obtain ⟨lead', rest', header', t', hresult, hfresh'⟩ :=
      hasTitle_of_retitles hpass (Eq.refl (fresh [])) htext hlead
    exact ⟨lead', header', t', rest', hresult, by simpa using hfresh'⟩

/-- The words that the other rules look for. -/
def otherWords : List String := ["class", "t.references", "t.belongs_to", "t.json"]

/-- A run that touches no timestamps keeps their lines. -/
theorem hasLine_brought (v : Version) {text line : List Char} (h : HasLine line text)
    (hline : IsTimestamps line) (hfree : ∀ word ∈ otherWords, ¬ word.toList <:+: line) :
    HasLine line (brought v text) := by
  have hreferences : ∀ w ∈ referenceHelper.words, ¬ 't' :: '.' :: w.1 <:+: line := by
    intro w hw
    rcases List.mem_cons.mp hw with rfl | hw
    · exact hfree "t.references" (by simp [otherWords])
    · rw [List.mem_singleton.mp hw]
      exact hfree "t.belongs_to" (by simp [otherWords])
  have hjson : ∀ w ∈ jsonHelper.words, ¬ 't' :: '.' :: w.1 <:+: line := by
    intro w hw
    rw [List.mem_singleton.mp hw]
    exact hfree "t.json" (by simp [otherWords])
  have hclass := hfree "class" (by simp [otherWords])
  exact (pass_replaceAll swaps_jsonColumn _).keeps_line (spares_helper hline hjson)
    ((pass_replaceAll swaps_references _).keeps_line (spares_helper hline hreferences)
      ((pass_replaceAll (swaps_versioned v) text).keeps_line (spares_retitles v hline hclass) h))

/-- A match is the header of a text. -/
theorem hasTitle_of_hit {text : List Char} {m : Match} (h : versioned.expr.Hit text m)
    (hfresh : fresh m.first.before = true) : HasTitle text := by
  obtain ⟨⟨lead, after, htext, hfirst⟩, hlast⟩ := h
  rw [headerPatterns.1, hfirst] at hlast
  obtain ⟨header, mid, htakes, -, hmid⟩ := mem_ends_headerExpr hlast
  obtain ⟨t, htakes', -⟩ := mem_ends_titleExpr hmid
  have hafter : after = (header.base ++ t.text) ++ m.last.after := (htakes.trans htakes').after
  refine ⟨lead, header, t, m.last.after, by rw [htext, hafter, List.append_assoc], ?_⟩
  rwa [hfirst] at hfresh

/-- The first header with a release line has one from 5.2 on. -/
def isModern (text : List Char) : Bool :=
  (versioned.expr.search text).any fun m =>
    Version.atLeast (some (String.ofList (m.group 2))) "5.2.0"

theorem exists_of_isModern {text : List Char} (h : isModern text = true) :
    ∃ m, versioned.expr.search text = some m ∧
      Version.atLeast (some (String.ofList (m.group 2))) "5.2.0" = true := by
  cases hsearch : versioned.expr.search text with
  | none => simp [isModern, hsearch] at h
  | some m => exact ⟨m, rfl, by simpa [isModern, hsearch] using h⟩

/-- The timestamps of a migration whose release line is from 5.2 on are never touched, as long as only
the last target is below 5.2: every run rewrites headers, references and columns of JSON only, and keeps
the lines of timestamps. -/
theorem timestamps_kept {text : List Char} (hmodern : isModern text = true)
    (hfresh : ∃ m, versioned.expr.Hit text m ∧ fresh m.first.before = true)
    {targets : List (String × Version)} (hparse : ∀ p ∈ targets, Version.parse? p.1 = some p.2)
    (hnew : ∀ p ∈ targets.dropLast, Version.atLeast (some p.1) "5.2.0" = true) :
    ∃ result, targets.foldlM (fun text p => update p.2 text) text = .ok result ∧
      result = targets.foldl (fun text p => brought p.2 text) text ∧
      ∀ margin rest, margin.all Text.isBlank = true →
        margin ++ ("t.timestamps".toList ++ rest) ∈ Text.splitChar '\n' text →
        (∀ word ∈ otherWords, ¬ word.toList <:+: margin ++ ("t.timestamps".toList ++ rest)) →
        margin ++ ("t.timestamps".toList ++ rest) ∈ Text.splitChar '\n' result := by
  obtain ⟨m', hhit, hfirst⟩ := hfresh
  have hhas := hasTitle_of_hit hhit hfirst
  clear hhit hfirst
  induction targets generalizing text with
  | nil => exact ⟨text, rfl, rfl, fun _ _ _ hmem _ => hmem⟩
  | cons p targets ih =>
    -- No rule for precision applies, and what the run makes of the text is modern again.
    obtain ⟨m, hsearch, hcurrent⟩ := exists_of_isModern hmodern
    have hupdate : update p.2 text = .ok (brought p.2 text) := update_of_search hsearch hcurrent
    have hbrought := modern_brought p.2 hhas
    have hlines : ∀ line, IsTimestamps line → line ∈ Text.splitChar '\n' text →
        (∀ word ∈ otherWords, ¬ word.toList <:+: line) → line ∈ Text.splitChar '\n' (brought p.2 text) := by
      intro line hline hmem hfree
      obtain ⟨hsolid, hhasLine⟩ := mem_splitChar_iff.mp hmem
      exact mem_splitChar_iff.mpr ⟨hsolid, hasLine_brought p.2 hhasLine hline hfree⟩
    have hrest : ∃ result, targets.foldlM (fun text p => update p.2 text) (brought p.2 text) = .ok result ∧
        result = targets.foldl (fun text p => brought p.2 text) (brought p.2 text) ∧
        ∀ margin rest, margin.all Text.isBlank = true →
          margin ++ ("t.timestamps".toList ++ rest) ∈ Text.splitChar '\n' (brought p.2 text) →
          (∀ word ∈ otherWords, ¬ word.toList <:+: margin ++ ("t.timestamps".toList ++ rest)) →
          margin ++ ("t.timestamps".toList ++ rest) ∈ Text.splitChar '\n' result := by
      -- Only the last target may be an old one, after which no run follows.
      by_cases hlast : targets = []
      · subst hlast
        exact ⟨_, rfl, rfl, fun _ _ _ hmem _ => hmem⟩
      · rw [List.dropLast_cons_of_ne_nil hlast] at hnew
        obtain ⟨m', hsearch', hcurrent'⟩ := hbrought.titled.exists_search (hparse p List.mem_cons_self)
          (hnew p List.mem_cons_self) hbrought.hasTitle
        have hnext : isModern (brought p.2 text) = true := by
          rw [isModern, hsearch', Option.any_some]
          exact hcurrent'
        exact ih hnext (fun q hq => hparse q (List.mem_cons_of_mem _ hq))
          (fun q hq => hnew q (List.mem_cons_of_mem _ hq)) hbrought.hasTitle
    obtain ⟨result, hrun, hresult, hkept⟩ := hrest
    refine ⟨result, ?_, hresult, fun margin rest hmargin hmem hfree => ?_⟩
    · rw [List.foldlM_cons, hupdate]
      exact hrun
    · have hsolid := (mem_splitChar_iff.mp hmem).1
      exact hkept margin rest hmargin (hlines _ ⟨hsolid, margin, rest, rfl, hmargin⟩ hmem hfree) hfree

/-- A migration for a release line from 5.2 on. -/
def tagsMigration : List Char :=
  "class Tags < ActiveRecord::Migration[5.2]\n  t.json :tags\n  t.timestamps null: false\n".toList

theorem timestamps_kept_tags : ∃ result,
    [("6.1.0", Version.mk 6 1 0), ("5.0.0", Version.mk 5 0 0)].foldlM (fun text p => update p.2 text)
      tagsMigration = .ok result ∧
    "  t.timestamps null: false".toList ∈ Text.splitChar '\n' result := by
  have hchars : tagsMigration = _ := String.toList_ofList
  have hmodern : isModern tagsMigration = true := by
    rw [isModern, headerPatterns.1, hchars]
    decide +kernel
  have hlead : classesLead tagsMigration = true := by
    rw [hchars]
    decide +kernel
  obtain ⟨m, hsearch, -⟩ := exists_of_isModern hmodern
  have hhit := (Pattern.hit_of_search hsearch).2
  have hparse : ∀ p ∈ [("6.1.0", Version.mk 6 1 0), ("5.0.0", Version.mk 5 0 0)],
      Version.parse? p.1 = some p.2 := by decide
  obtain ⟨result, hrun, -, hkept⟩ := timestamps_kept hmodern
    ⟨m, hhit, fresh_of_classesLead hlead (.inl hhit)⟩ hparse (by decide)
  have hline : "  t.timestamps null: false".toList =
      "  ".toList ++ ("t.timestamps".toList ++ " null: false".toList) := by decide
  rw [hline]
  have hmem : "  ".toList ++ ("t.timestamps".toList ++ " null: false".toList) ∈
      Text.splitChar '\n' tagsMigration := by
    rw [hchars]
    decide +kernel
  exact ⟨result, hrun, hkept _ _ (by decide) hmem (by decide +kernel)⟩

/-- A text has a line that it loses in runs for some targets. -/
def losesLine (line text : List Char) (targets : List Version) : Bool :=
  (Text.splitChar '\n' text).contains line &&
    match targets.foldlM (fun text v => update v text) text with
    | .ok result => !(Text.splitChar '\n' result).contains line
    | .error _ => false

/-- Timestamps of modern migrations are touched after a target below 5.2, after a column has taken the
only header with a release line, and where another column stands on their line. -/
theorem timestamps_touched :
    (isModern "class A < ActiveRecord::Migration[6.0]\n  t.timestamps\n".toList ∧
      losesLine "  t.timestamps".toList "class A < ActiveRecord::Migration[6.0]\n  t.timestamps\n".toList
        [⟨5, 0, 0⟩, ⟨6, 0, 0⟩]) ∧
    (isModern ("t.references :class A < ActiveRecord::Migration[6.0]\n" ++
        "class B < ActiveRecord::Migration\n  t.timestamps\n").toList ∧
      losesLine "  t.timestamps".toList ("t.references :class A < ActiveRecord::Migration[6.0]\n" ++
        "class B < ActiveRecord::Migration\n  t.timestamps\n").toList [⟨6, 0, 0⟩, ⟨6, 0, 0⟩]) ∧
    isModern "class A < ActiveRecord::Migration[6.0]\n  t.timestamps; t.json :x\n".toList ∧
      losesLine "  t.timestamps; t.json :x".toList
        "class A < ActiveRecord::Migration[6.0]\n  t.timestamps; t.json :x\n".toList [⟨6, 0, 0⟩] := by
  have hline : "  t.timestamps".toList = _ := String.toList_ofList
  have hjoined : "  t.timestamps; t.json :x".toList = _ := String.toList_ofList
  have hbelow : "class A < ActiveRecord::Migration[6.0]\n  t.timestamps\n".toList = _ :=
    String.toList_ofList
  have hcolumn : "t.references :class A < ActiveRecord::Migration[6.0]\n".toList = _ :=
    String.toList_ofList
  have hplain : "class B < ActiveRecord::Migration\n  t.timestamps\n".toList = _ :=
    String.toList_ofList
  have hbeside : "class A < ActiveRecord::Migration[6.0]\n  t.timestamps; t.json :x\n".toList = _ :=
    String.toList_ofList
  -- The texts are spelled out, so that the runs on them can be computed.
  simp only [losesLine, isModern, update, overlong?, updated, modernize, Pattern.found,
    headerPatterns.1, headerPatterns.2, timestamps_expr, references_expr, jsonColumn_expr,
    String.toList_append, hline, hjoined, hbelow,
    hcolumn, hplain, hbeside]
  decide +kernel

end Migration

end RailsUpgrade
