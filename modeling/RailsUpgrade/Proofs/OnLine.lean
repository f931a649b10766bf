import Mathlib.Data.List.Forall2
import RailsUpgrade.Proofs.Replacing
import RailsUpgrade.Proofs.Scores

/-!
# `RailsUpgrade.Proofs.OnLine`: patterns that stay on their line

A pattern without line breaks, which looks at most at the character before and behind it, cannot tell
a line in a text from the same line alone:

* `Expr.OnLine` is what such patterns are made of;
* `SameLine` relates a place in a text to the same place in its line;
* `Expr.OnLine.ends`: the ends in the text and the ends in the line correspond;
* `search_join`: the first match in a text is the one in the first line that has one.
-/

set_option autoImplicit false

namespace RailsUpgrade

/-- A text that begins with a line break, if it is not empty. -/
def Text.StartsBreak (s : List Char) : Prop := s = [] ∨ ∃ rest, s = '\n' :: rest

theorem Text.startsBreak_dropWhile (s : List Char) : StartsBreak (s.dropWhile (· != '\n')) := by
  cases hdrop : s.dropWhile (· != '\n') with
  | nil => exact .inl rfl
  | cons x rest =>
    have hhead := List.head?_dropWhile_not (· != '\n') s
    rw [hdrop] at hhead
    exact .inr ⟨rest, by simpa using hhead⟩

namespace Pattern

open Text (StartsBreak)

/-- Places that can be told from a line alone. -/
def Anchor.onLine : Anchor → Bool
  | .lineStart | .lineEnd | .wordEdge _ => true
  | _ => false

/-- Patterns that take no line break and only look at their line. -/
inductive Expr.OnLine : Expr → Prop
  | one {set : CharSet} (h : set.mem '\n' = false) : OnLine (.one set)
  | anchor {a : Anchor} (h : a.onLine = true) : OnLine (.anchor a)
  | seq {p q : Expr} (hp : OnLine p) (hq : OnLine q) : OnLine (.seq p q)
  | group (i : Nat) {p : Expr} (hp : OnLine p) : OnLine (.group i p)
  | star {set : CharSet} (h : set.mem '\n' = false) : OnLine (.star set)
  | plus {set : CharSet} (h : set.mem '\n' = false) : OnLine (.plus set)

theorem Expr.OnLine.chars {text : String} {e : Expr} (htext : '\n' ∉ text.toList) (he : e.OnLine) :
    (Expr.chars text e).OnLine := by
  unfold Expr.chars
  generalize text.toList = text at htext
  induction text with
  | nil => exact he
  | cons x text ih =>
    simp only [List.mem_cons, not_or] at htext
    exact .seq (.one (by simpa using htext.1)) (ih htext.2)

/-- A place `c` in a text and the same place `d` in its line, which has `size` characters and begins
`offset` characters behind the start of the text. -/
structure SameLine (offset size : Nat) (c d : Cursor) : Prop where
  before : ∃ left, c.before = d.before ++ left ∧ StartsBreak left
  after : ∃ right, c.after = d.after ++ right ∧ StartsBreak right
  solidBefore : '\n' ∉ d.before
  solidAfter : '\n' ∉ d.after
  pos : c.pos = d.pos + offset
  size : d.pos + d.after.length = size
  texts : c.texts = d.texts

section

variable {offset size : Nat} {c d : Cursor}

/-- Moving on within the line. -/
theorem SameLine.shift (h : SameLine offset size c d) {n : Nat} (hn : n ≤ d.after.length) :
    SameLine offset size (c.shift n) (d.shift n) := by
  obtain ⟨left, hbefore, hleft⟩ := h.before
  obtain ⟨right, hafter, hright⟩ := h.after
  refine ⟨⟨left, ?_, hleft⟩, ⟨right, ?_, hright⟩, ?_, ?_, ?_, ?_, h.texts⟩
  · simp [Cursor.shift, hbefore, hafter, List.take_append_of_le_length hn]
  · simp [Cursor.shift, hafter, List.drop_append_of_le_length hn]
  · intro hmem
    rcases List.mem_append.mp hmem with hmem | hmem
    · exact h.solidAfter (List.mem_of_mem_take (List.mem_reverse.mp hmem))
    · exact h.solidBefore hmem
  · exact fun hmem => h.solidAfter (List.mem_of_mem_drop hmem)
  · show c.pos + n = d.pos + n + offset
    have hpos := h.pos
    omega
  · show d.pos + n + (d.after.drop n).length = size
    have hsize := h.size
    rw [List.length_drop]
    omega

/-- A set without line breaks sees the same run. -/
theorem SameLine.run_eq (h : SameLine offset size c d) {set : CharSet} (hset : set.mem '\n' = false) :
    set.run c = set.run d := by
  obtain ⟨right, hafter, hright⟩ := h.after
  have hstop : right.takeWhile set.mem = [] := by
    rcases hright with rfl | ⟨rest, rfl⟩
    · rfl
    · simp [hset]
  rw [CharSet.run, CharSet.run, hafter, List.takeWhile_append]
  split
  · rw [hstop, List.append_nil]
    rename_i hall
    rw [hall]
  · rfl

theorem CharSet.run_le (set : CharSet) (c : Cursor) : set.run c ≤ c.after.length :=
  (List.takeWhile_prefix _).length_le

/-- Which characters stand next to a place is seen from the line, but for line breaks. -/
theorem head?_of_startsBreak {s t side : List Char} (h : side = s ++ t) (ht : StartsBreak t) :
    side.head? = s.head? ∨ s = [] ∧ (side = [] ∨ side.head? = some '\n') := by
  subst h
  cases s with
  | cons x s => exact .inl rfl
  | nil =>
    rcases ht with rfl | ⟨rest, rfl⟩
    · exact .inl rfl
    · exact .inr ⟨rfl, .inr rfl⟩

theorem startsWithWord_eq {narrow : Bool} {s t side : List Char} (h : side = s ++ t)
    (ht : StartsBreak t) : startsWithWord narrow side = startsWithWord narrow s := by
  have hbreak : CharKind.word.mem narrow '\n' = false := by cases narrow <;> decide
  rcases head?_of_startsBreak h ht with hhead | ⟨rfl, rfl | hhead⟩
  · rw [startsWithWord, hhead, startsWithWord]
  · rfl
  · simp [startsWithWord, hhead, hbreak]

/-- Whether a side is empty or begins with a line break. -/
theorem atBreak_eq {s t side : List Char} (h : side = s ++ t) (ht : StartsBreak t) :
    (side.isEmpty || side.head? == some '\n') = (s.isEmpty || s.head? == some '\n') := by
  subst h
  cases s with
  | cons x s => rfl
  | nil =>
    rcases ht with rfl | ⟨rest, rfl⟩
    · rfl
    · rfl

theorem SameLine.holds_eq (h : SameLine offset size c d) {a : Anchor} (ha : a.onLine = true) :
    a.holds c = a.holds d := by
  obtain ⟨left, hbefore, hleft⟩ := h.before
  obtain ⟨right, hafter, hright⟩ := h.after
  cases a with
  | lineStart => exact atBreak_eq hbefore hleft
  | lineEnd => exact atBreak_eq hafter hright
  | wordEdge narrow =>
    simp only [Anchor.holds, startsWithWord_eq hbefore hleft, startsWithWord_eq hafter hright]
  | textStart | textEnd | lastLineEnd | notWordEdge => cases ha

/-- A group that was taken on the line. -/
theorem SameLine.capture (h : SameLine offset size c d) {c' d' : Cursor}
    (h' : SameLine offset size c' d') (i : Nat) :
    SameLine offset size (c'.capture i c) (d'.capture i d) := by
  refine ⟨h'.before, h'.after, h'.solidBefore, h'.solidAfter, h'.pos, h'.size, ?_⟩
  obtain ⟨right, hafter, -⟩ := h.after
  have htext : c.textTo c' = d.textTo d' := by
    have hpos := h.pos
    have hpos' := h'.pos
    have hsize := h.size
    have hsize' := h'.size
    have hlength : c'.pos - c.pos = d'.pos - d.pos := by omega
    rw [Cursor.textTo, Cursor.textTo, hlength, hafter]
    exact List.take_append_of_le_length (by omega)
  show (i, c.textTo c') :: c'.texts = (i, d.textTo d') :: d'.texts
  rw [htext, h'.texts]

/-- Moving on by several numbers of characters. -/
theorem SameLine.forall₂_shift (h : SameLine offset size c d) {ns : List Nat} {m : Nat}
    (hns : ∀ n ∈ ns, n + m ≤ d.after.length) :
    List.Forall₂ (SameLine offset size) (ns.map fun n => c.shift (n + m))
      (ns.map fun n => d.shift (n + m)) := by
  rw [List.forall₂_map_left_iff, List.forall₂_map_right_iff, List.forall₂_same]
  exact fun n hn => h.shift (hns n hn)

/-- The ends in a text and the ends in the line correspond. -/
theorem Expr.OnLine.ends {e : Expr} (he : e.OnLine) (h : SameLine offset size c d) :
    List.Forall₂ (SameLine offset size) (e.ends c) (e.ends d) := by
  induction he generalizing c d with
  | @one set hset =>
    obtain ⟨right, hafter, hright⟩ := h.after
    rw [Expr.ends, Expr.ends]
    cases hd : d.after with
    | nil =>
      rw [hafter, hd, List.nil_append]
      -- The short line ends here; the text goes on with a break, which no set of the line takes.
      rcases hright with rfl | ⟨rest, rfl⟩
      · exact .nil
      · simp [hset]
    | cons x rest =>
      rw [hafter, hd, List.cons_append]
      have hnext := h.shift (n := 1) (by simp [hd])
      have hc : c.advance x (rest ++ right) = c.shift 1 := by
        simp [Cursor.advance, Cursor.shift, hafter, hd]
      have hd' : d.advance x rest = d.shift 1 := by simp [Cursor.advance, Cursor.shift, hd]
      by_cases hx : set.mem x = true
      · simpa [hx, hc, hd'] using hnext
      · simp [hx]
  | anchor ha =>
    rw [Expr.ends, Expr.ends, h.holds_eq ha]
    split
    · exact .cons h .nil
    · exact .nil
  | seq _ _ ihp ihq =>
    rw [Expr.ends, Expr.ends]
    exact List.rel_flatMap (ihp h) fun _ _ hmid => ihq hmid
  | group i _ ih =>
    have henter : SameLine offset size (c.enter i) (d.enter i) := { h with texts := h.texts }
    rw [Expr.ends, Expr.ends, List.forall₂_map_left_iff, List.forall₂_map_right_iff]
    exact (ih henter).imp fun _ _ hlast => h.capture hlast i
  | @star set hset =>
    rw [ends_star, ends_star, h.run_eq hset]
    -- A run stops at the end of the line in both texts, hence takes the same number of letters.
    refine h.forall₂_shift (m := 0) fun n hn => ?_
    have hle := set.run_le d
    rw [List.mem_reverse, List.mem_range] at hn
    omega
  | @plus set hset =>
    rw [ends_plus, ends_plus, h.run_eq hset]
    refine h.forall₂_shift (m := 1) fun n hn => ?_
    have hle := set.run_le d
    rw [List.mem_reverse, List.mem_range] at hn
    omega

/-- What the groups hold after a match. -/
def Match.texts (m : Match) : Groups := m.last.texts

theorem Match.group_eq (m : Match) (i : Nat) : m.group i = (m.texts.lookup i).getD [] := by
  rw [Match.group, Match.texts, Cursor.lookup_texts]

theorem Expr.OnLine.matchAt {e : Expr} (he : e.OnLine) (h : SameLine offset size c d) :
    (e.matchAt c).map Match.texts = (e.matchAt d).map Match.texts := by
  have hends := he.ends h
  simp only [Expr.matchAt, run_eq_findSome?, findSome?_some, Option.map_map]
  cases hc : e.ends c with
  | nil =>
    rw [hc, List.forall₂_nil_left_iff] at hends
    rw [hends]
    rfl
  | cons c' more =>
    rw [hc, List.forall₂_cons_left_iff] at hends
    obtain ⟨d', more', hlast, -, hd⟩ := hends
    rw [hd]
    exact congrArg some hlast.texts

end

/-! ### Searching line by line -/

/-- The leftmost match behind the first character of what is left of a text. -/
def Expr.searchPast (e : Expr) (before : List Char) (pos : Nat) : List Char → Option Match
  | [] => none
  | x :: rest => e.searchIn (x :: before) (pos + 1) rest

/-- Searching a line and what follows it: the line first, as if it stood alone. -/
theorem Expr.OnLine.searchIn_append {e : Expr} (he : e.OnLine) {left line right : List Char}
    (lead : List Char) (pos : Nat) (hleft : StartsBreak left) (hright : StartsBreak right) (hlead : '\n' ∉ lead)
    (hline : '\n' ∉ line) :
    (e.searchIn (lead ++ left) (lead.length + pos) (line ++ right)).map Match.texts =
      ((e.searchIn lead lead.length line).map Match.texts).or
        ((e.searchPast (line.reverse ++ (lead ++ left)) (lead.length + pos + line.length)
          right).map Match.texts) := by
  induction line generalizing lead with
  | nil =>
    have hsame : SameLine pos lead.length ⟨lead ++ left, right, lead.length + pos, [], []⟩
        ⟨lead, [], lead.length, [], []⟩ :=
      ⟨⟨left, rfl, hleft⟩, ⟨right, rfl, hright⟩, hlead, by simp, rfl, rfl, rfl⟩
    have hhere := he.matchAt hsame
    -- Behind the line the search goes on at the break, where there is one.
    cases right with
    | nil =>
      simpa [Expr.searchIn, Expr.searchPast] using hhere
    | cons x rest =>
      rw [List.nil_append, Expr.searchIn, Expr.searchIn, ← hhere]
      cases e.matchAt ⟨lead ++ left, x :: rest, lead.length + pos, [], []⟩ with
      | none => simp [Expr.searchPast]
      | some m => simp
  | cons x line ih =>
    simp only [List.mem_cons, not_or] at hline
    have hsame : SameLine pos (lead.length + (line.length + 1))
        ⟨lead ++ left, x :: (line ++ right), lead.length + pos, [], []⟩
        ⟨lead, x :: line, lead.length, [], []⟩ :=
      ⟨⟨left, rfl, hleft⟩, ⟨right, rfl, hright⟩, hlead, by simp [hline], rfl, rfl, rfl⟩
    have hhere := he.matchAt hsame
    have hpos : (x :: lead).length + pos = lead.length + pos + 1 := by
      rw [List.length_cons]
      omega
    have hlength : lead.length + pos + 1 + line.length = lead.length + pos + (x :: line).length := by
      rw [List.length_cons]
      omega
    have hnext := ih (x :: lead) (by simp [hline.1, hlead]) hline.2
    rw [hpos, hlength] at hnext
    -- A match at this place comes first; where there is none, the search of the rest decides.
    rw [List.cons_append, Expr.searchIn, Expr.searchIn]
    cases hm : e.matchAt ⟨lead, x :: line, lead.length, [], []⟩ with
    | none =>
      rw [hm, Option.map_none, Option.map_eq_none_iff] at hhere
      simpa [hhere] using hnext
    | some m =>
      rw [hm, Option.map_some, Option.map_eq_some_iff] at hhere
      obtain ⟨m', hm', htexts⟩ := hhere
      simp [hm', htexts]

/-- The first match in a text is the one in the first line that has one. -/
theorem Expr.OnLine.search_join {e : Expr} (he : e.OnLine) {lines : List (List Char)}
    (hne : lines ≠ []) (hlines : ∀ line ∈ lines, '\n' ∉ line) :
    (e.search (Text.join ['\n'] lines)).map Match.texts =
      lines.findSome? fun line => (e.search line).map Match.texts := by
  have hfrom : ∀ (left : List Char) (pos : Nat), StartsBreak left →
      (e.searchIn left pos (Text.join ['\n'] lines)).map Match.texts =
        lines.findSome? fun line => (e.search line).map Match.texts := by
    -- The induction is on the lines, for every text that stands in front of them.
    induction lines with
    | nil => exact absurd rfl hne
    | cons line lines ih =>
      intro left pos hleft
      have hsolid : '\n' ∉ line := hlines line List.mem_cons_self
      have hcons : (line :: lines).findSome? (fun line => (e.search line).map Match.texts) =
          ((e.search line).map Match.texts).or
            (lines.findSome? fun line => (e.search line).map Match.texts) := by
        rw [List.findSome?_cons]
        cases (e.search line).map Match.texts <;> rfl
      rw [hcons]
      by_cases hlast : lines = []
      · have hstep := he.searchIn_append [] pos hleft (.inl rfl) (by simp) hsolid
        subst hlast
        simpa [Expr.searchPast, Expr.search, Text.join] using hstep
      · have hright : StartsBreak (['\n'] ++ Text.join ['\n'] lines) := .inr ⟨_, rfl⟩
        have hstep := he.searchIn_append [] pos hleft hright (by simp) hsolid
        have hrest := ih hlast (fun l hl => hlines l (List.mem_cons_of_mem _ hl))
          ('\n' :: (line.reverse ++ left)) (pos + line.length + 1) (.inr ⟨_, rfl⟩)
        rw [Text.join_cons _ _ hlast, List.append_assoc]
        simpa [Expr.searchPast, Expr.search, hrest] using hstep
  exact hfrom [] 0 (.inl rfl)

/-! ### Replacing whole lines -/

/-- Whole lines are swapped for what `edit` makes of them, and those that it changes are swapped. -/
structure Swap.Lines (swap : Swap) (edit : List Char → List Char) : Prop where
  whole : ∀ {before taken after new : List Char}, swap before taken after new →
    StartsBreak before ∧ StartsBreak after ∧ taken ≠ [] ∧ new = edit taken
  edited : ∀ {before line after : List Char}, StartsBreak before → StartsBreak after → '\n' ∉ line →
    edit line ≠ line → ∃ new, swap before line after new

/-- A line in front of a line break, or of the end, is determined by the text. -/
theorem line_unique {line line' after after' : List Char} (hline : '\n' ∉ line) (hline' : '\n' ∉ line')
    (hafter : StartsBreak after) (hafter' : StartsBreak after') (h : line ++ after = line' ++ after') :
    line = line' ∧ after = after' := by
  rcases List.append_eq_append_iff.mp h with ⟨a, rfl, rfl⟩ | ⟨a, rfl, rfl⟩
  · rcases hafter with hnil | ⟨rest, hrest⟩
    · simp_all
    · cases a with
      | nil => simp
      | cons x a =>
        obtain ⟨rfl, -⟩ := List.cons_eq_cons.mp hrest
        simp at hline'
  · rcases hafter' with hnil | ⟨rest, hrest⟩
    · simp_all
    · cases a with
      | nil => simp
      | cons x a =>
        obtain ⟨rfl, -⟩ := List.cons_eq_cons.mp hrest
        simp at hline

section

variable {swap : Swap} {edit : List Char → List Char} {before text result : List Char}

/-- A pass over whole lines edits the line that it comes to. -/
theorem Pass.edits_line {line after : List Char} (h : Pass swap before (line ++ after) result)
    (hlines : swap.Lines edit) (hbefore : StartsBreak before) (hafter : StartsBreak after)
    (hline : '\n' ∉ line)
    (hsolid : ∀ {before taken after' new}, swap before taken after' new →
      taken ++ after' <:+ line ++ after → '\n' ∉ taken) :
    ∃ more, result = edit line ++ more ∧ Pass swap (line.reverse ++ before) after more := by
  -- Where the line begins nothing but the line can be swapped.
  have hhere : ∀ taken after' new, line ++ after = taken ++ after' → swap before taken after' new →
      taken = line ∧ after' = after := by
    intro taken after' new htext hswap
    have htaken : '\n' ∉ taken := hsolid hswap (htext ▸ List.suffix_refl _)
    obtain ⟨hsame, hsame'⟩ :=
      line_unique hline htaken hafter (hlines.whole hswap).2.1 htext
    exact ⟨hsame.symm, hsame'.symm⟩
  by_cases hswaps : ∃ new, swap before line after new
  · obtain ⟨new, hswap⟩ := hswaps
    obtain ⟨-, -, hne, -⟩ := hlines.whole hswap
    generalize htext : line ++ after = text at h
    cases h with
    | done => exact absurd (List.append_eq_nil_iff.mp htext).1 hne
    | @keep _ rest result' x idle _ => exact absurd hswap (idle line after new htext.symm)
    | @hit _ taken after' new' more _ hswap' hmore =>
      obtain ⟨rfl, rfl⟩ := hhere taken after' new' htext hswap'
      exact ⟨more, by rw [(hlines.whole hswap').2.2.2], hmore⟩
  · have hedit : edit line = line := by
      by_contra hedit
      exact hswaps (hlines.edited hbefore hafter hline hedit)
    rw [hedit]
    refine h.skip ?_
    intro lead more taken after' new hpart hne htext hswap
    cases lead with
    | nil =>
      obtain rfl : line = more := hpart
      obtain ⟨rfl, rfl⟩ := hhere taken after' new htext hswap
      exact hswaps ⟨new, hswap⟩
    | cons x lead =>
      -- Inside a line there is no line break in front of a place.
      have hbreak : '\n' ∈ x :: lead := by
        rcases (hlines.whole hswap).1 with hnil | ⟨rest, hrest⟩
        · simp at hnil
        · obtain ⟨y, front, hfront⟩ := List.exists_cons_of_ne_nil (l := (x :: lead).reverse) (by simp)
          rw [hfront, List.cons_append] at hrest
          obtain ⟨rfl, -⟩ := List.cons_eq_cons.mp hrest
          rw [← List.mem_reverse, hfront]
          exact List.mem_cons_self
      exact hline (hpart ▸ List.mem_append_left _ hbreak)

/-- A pass over whole lines edits each line. -/
theorem Pass.eq_join {lines : List (List Char)} (h : Pass swap before (Text.join ['\n'] lines) result)
    (hlines : swap.Lines edit) (hbefore : StartsBreak before) (hne : lines ≠ [])
    (hsolid : ∀ line ∈ lines, '\n' ∉ line)
    (hswaps : ∀ {before taken after new}, swap before taken after new →
      taken ++ after <:+ Text.join ['\n'] lines → '\n' ∉ taken) :
    result = Text.join ['\n'] (lines.map edit) := by
  induction lines generalizing before result with
  | nil => exact absurd rfl hne
  | cons line lines ih =>
    have hline : '\n' ∉ line := hsolid line List.mem_cons_self
    by_cases hlast : lines = []
    · subst hlast
      have hwhole : Text.join ['\n'] [line] = line ++ [] := by simp [Text.join]
      rw [hwhole] at h hswaps
      obtain ⟨more, rfl, hmore⟩ := h.edits_line hlines hbefore (.inl rfl) hline hswaps
      obtain rfl := hmore.eq_nil
      simp [Text.join]
    · rw [Text.join_cons _ _ hlast, List.append_assoc] at h hswaps
      obtain ⟨more, rfl, hmore⟩ := h.edits_line hlines hbefore (.inr ⟨_, rfl⟩) hline hswaps
      rw [List.map_cons, Text.join_cons _ _ (by simpa using hlast), List.append_assoc]
      -- The line break behind the line is kept, since nothing that is swapped begins with it.
      have hidle : ∀ taken after new, '\n' :: Text.join ['\n'] lines = taken ++ after →
          ¬ swap (line.reverse ++ before) taken after new := by
        intro taken after new htext hswap
        obtain ⟨x, taken, rfl⟩ := List.exists_cons_of_ne_nil (hlines.whole hswap).2.2.1
        obtain ⟨rfl, -⟩ := List.cons_eq_cons.mp htext
        exact hswaps hswap ⟨line, by simp [htext]⟩ List.mem_cons_self
      obtain ⟨more', rfl, hmore'⟩ := hmore.keeps hidle
      rw [ih hmore' (.inr ⟨_, rfl⟩) hlast (fun l hl => hsolid l (List.mem_cons_of_mem _ hl))
        fun hswap hsuffix => hswaps hswap (hsuffix.trans ⟨line ++ ['\n'], by simp⟩)]
      rfl

end

end Pattern

end RailsUpgrade
