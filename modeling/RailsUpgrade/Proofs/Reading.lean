import RailsUpgrade.Proofs.Matching

/-!
# `RailsUpgrade.Proofs.Reading`: what matches take, and what replacing them does

`Expr.Reads` says which texts a pattern can take and what its groups are then. It knows nothing of
places: anchors and looks ahead take nothing and always hold.

* `reads_of_mem_ends`: what a pattern takes at a cursor is something that it reads;
* `reads_run`, `reads_optional`, `reads_chars`: the parts that patterns are mostly made of;
* `original_pieces`: a text is the sequence of its pieces;
* `replaceAll_rel`: what holds between every match and its replacement, and passes on to longer
  texts, holds between a text and the text with all matches replaced.
-/

set_option autoImplicit false

namespace RailsUpgrade.Pattern

/-- The texts of groups, the newest first. -/
abbrev Groups := List (Nat × List Char)

/-- The texts of the groups at a cursor. -/
def Cursor.texts (c : Cursor) : Groups := c.groups.map fun g => (g.1, g.2.text)

theorem Cursor.lookup_texts (c : Cursor) (i : Nat) : c.texts.lookup i = c.group? i := by
  unfold Cursor.texts Cursor.group?
  induction c.groups with
  | nil => rfl
  | cons g groups ih =>
    rw [List.map_cons, List.lookup_cons, List.lookup_cons, ih]
    cases i == g.1 <;> rfl

/-- `n` rounds of something that takes a text and changes groups. -/
@[grind =] def Rounds (reads : Groups → List Char → Groups → Prop) :
    Nat → Groups → List Char → Groups → Prop
  | 0, g, s, g' => s = [] ∧ g' = g
  | n + 1, g, s, g' => ∃ s₁ g₁ s₂, reads g s₁ g₁ ∧ Rounds reads n g₁ s₂ g' ∧ s = s₁ ++ s₂

/-- A pattern can take the text `s` and turns the groups `g` into `g'`. -/
@[grind =] def Expr.Reads : Expr → Groups → List Char → Groups → Prop
  | .empty, g, s, g' => s = [] ∧ g' = g
  | .one set, g, s, g' => (∃ x, set.mem x = true ∧ s = [x]) ∧ g' = g
  | .anchor _, g, s, g' => s = [] ∧ g' = g
  | .seq p q, g, s, g' => ∃ s₁ g₁ s₂, p.Reads g s₁ g₁ ∧ q.Reads g₁ s₂ g' ∧ s = s₁ ++ s₂
  | .alt p q, g, s, g' => p.Reads g s g' ∨ q.Reads g s g'
  | .group i p, g, s, g' => ∃ g₁, p.Reads g s g₁ ∧ g' = (i, s) :: g₁
  | .again i letters, g, s, g' =>
    (∃ t, g.lookup i = some t ∧ t.map letters.key = s.map letters.key) ∧ g' = g
  | .rep p least most _, g, s, g' =>
    ∃ n, least ≤ n ∧ (∀ m, most = some m → n ≤ least + (m - least)) ∧ Rounds p.Reads n g s g'
  -- A look ahead may set groups, if it is one that has to match.
  | .look _ positive _, g, s, g' => s = [] ∧ (positive = false → g' = g)
  | .atomic p, g, s, g' => p.Reads g s g'
  | .ifGroup _ p q, g, s, g' => p.Reads g s g' ∨ q.Reads g s g'

/-! ### What an end takes is something that is read -/

/-- Passing over a text takes one with the same letters. -/
theorem exists_takes_of_skip? {letters : Letters} {text : List Char} {c c' : Cursor}
    (h : Cursor.skip? letters text c = some c') :
    ∃ s, c.Takes s c' ∧ text.map letters.key = s.map letters.key ∧ c'.groups = c.groups := by
  induction text generalizing c with
  | nil =>
    cases h
    exact ⟨[], .refl _, rfl, rfl⟩
  | cons t text ih =>
    rw [Cursor.skip?] at h
    cases hafter : c.after with
    | nil => simp [hafter] at h
    | cons x rest =>
      simp only [hafter] at h
      split at h
      · rename_i hkey
        obtain ⟨s, hs, hletters, hgroups⟩ := ih h
        refine ⟨x :: s, ⟨?_, ?_, ?_⟩, ?_, hgroups⟩
        · rw [hafter, List.cons_append, ← hs.after]
          rfl
        · simpa [Cursor.advance] using hs.before
        · simpa [Cursor.advance, Nat.add_assoc, Nat.add_comm 1] using hs.pos
        · rw [List.map_cons, List.map_cons, hletters, eq_of_beq hkey]
      · cases h

section

variable {reads : Groups → List Char → Groups → Prop} {ends : Cursor → List Cursor}

/-- Rounds add up. -/
theorem Rounds.add {m n : Nat} {g g₁ g₂ : Groups} {s t : List Char} (hs : Rounds reads m g s g₁)
    (ht : Rounds reads n g₁ t g₂) : Rounds reads (m + n) g (s ++ t) g₂ := by
  induction m generalizing g s with
  | zero =>
    obtain ⟨rfl, rfl⟩ := hs
    rwa [Nat.zero_add, List.nil_append]
  | succ m ih =>
    obtain ⟨s₁, g', s₂, hread, hrest, rfl⟩ := hs
    rw [Nat.succ_add]
    exact ⟨s₁, g', s₂ ++ t, hread, ih hrest, List.append_assoc _ _ _⟩

theorem rounds_of_mem_timesEnds
    (h : ∀ c, ∀ c' ∈ ends c, ∃ s, c.Takes s c' ∧ reads c.texts s c'.texts) (n : Nat)
    {c c' : Cursor} (hmem : c' ∈ timesEnds ends n c) :
    ∃ s, c.Takes s c' ∧ Rounds reads n c.texts s c'.texts := by
  induction n generalizing c with
  | zero =>
    obtain rfl : c' = c := by simpa [timesEnds] using hmem
    exact ⟨[], .refl c', rfl, rfl⟩
  | succ n ih =>
    obtain ⟨c₁, h₁, h₂⟩ := List.mem_flatMap.mp hmem
    obtain ⟨s, hs, hread⟩ := h c c₁ h₁
    obtain ⟨t, ht, hrest⟩ := ih h₂
    exact ⟨s ++ t, hs.trans ht, s, c₁.texts, t, hread, hrest, rfl⟩

theorem rounds_of_mem_roundsEnds
    (h : ∀ c, ∀ c' ∈ ends c, ∃ s, c.Takes s c' ∧ reads c.texts s c'.texts) {greedy : Bool}
    (fuel : List Char) {most last : Option Nat} {c c' : Cursor}
    (hmem : c' ∈ roundsEnds ends greedy fuel most last c) :
    ∃ n s, (∀ m, most = some m → n ≤ m) ∧ c.Takes s c' ∧ Rounds reads n c.texts s c'.texts := by
  induction fuel generalizing most last c with
  | nil =>
    obtain rfl : c' = c := by simpa [roundsEnds] using hmem
    exact ⟨0, [], fun _ _ => Nat.zero_le _, .refl c', rfl, rfl⟩
  | cons x fuel ih =>
    -- Either no further round was made, or one that the limit admits.
    have hcases : c' = c ∨ most ≠ some 0 ∧ c' ∈ (ends c).flatMap
        (roundsEnds ends greedy fuel (most.map (· - 1)) (some c.pos)) := by
      rw [roundsEnds] at hmem
      split at hmem
      · exact .inl (by simpa using hmem)
      · rename_i hlimit
        have hmost : most ≠ some 0 := by
          rintro rfl
          simp at hlimit
        cases greedy
        · exact (List.mem_cons.mp hmem).imp_right fun hagain => ⟨hmost, hagain⟩
        · refine (List.mem_append.mp hmem).symm.imp ?_ fun hagain => ⟨hmost, hagain⟩
          exact List.mem_singleton.mp
    obtain rfl | ⟨hmost, hagain⟩ := hcases
    · exact ⟨0, [], fun _ _ => Nat.zero_le _, .refl c', rfl, rfl⟩
    · obtain ⟨c₁, h₁, h₂⟩ := List.mem_flatMap.mp hagain
      obtain ⟨s, hs, hread⟩ := h c c₁ h₁
      obtain ⟨n, t, hn, ht, hrest⟩ := ih h₂
      refine ⟨n + 1, s ++ t, ?_, hs.trans ht, s, c₁.texts, t, hread, hrest, rfl⟩
      intro m hm
      have hle := hn (m - 1) (by rw [hm]; rfl)
      have hpos : m ≠ 0 := by
        rintro rfl
        exact hmost hm
      omega

end

/-- What a pattern takes at a cursor is something that it reads. -/
theorem reads_of_mem_ends (e : Expr) {c c' : Cursor} (h : c' ∈ e.ends c) :
    ∃ s, c.Takes s c' ∧ e.Reads c.texts s c'.texts := by
  induction e generalizing c c' with
  | empty =>
    obtain rfl : c' = c := by simpa [Expr.ends] using h
    exact ⟨[], .refl c', rfl, rfl⟩
  | one set =>
    rw [Expr.ends] at h
    cases hafter : c.after with
    | nil => simp [hafter] at h
    | cons x rest =>
      simp only [hafter] at h
      split at h
      · rename_i hx
        obtain rfl := List.mem_singleton.mp h
        exact ⟨[x], ⟨by simp [hafter, Cursor.advance], rfl, rfl⟩, ⟨x, hx, rfl⟩, rfl⟩
      · cases h
  | anchor a =>
    obtain ⟨rfl, -⟩ := mem_ends_anchor.mp h
    exact ⟨[], .refl c', rfl, rfl⟩
  | seq p q ihp ihq =>
    obtain ⟨c₁, h₁, h₂⟩ := mem_ends_seq.mp h
    obtain ⟨s, hs, hp⟩ := ihp h₁
    obtain ⟨t, ht, hq⟩ := ihq h₂
    exact ⟨s ++ t, hs.trans ht, s, c₁.texts, t, hp, hq, rfl⟩
  | alt p q ihp ihq =>
    obtain h | h := List.mem_append.mp h
    · obtain ⟨s, hs, hp⟩ := ihp h
      exact ⟨s, hs, .inl hp⟩
    · obtain ⟨s, hs, hq⟩ := ihq h
      exact ⟨s, hs, .inr hq⟩
  | group i p ih =>
    obtain ⟨c₁, h₁, rfl⟩ := List.mem_map.mp h
    obtain ⟨s, hs, hp⟩ := ih h₁
    have htakes : c.Takes s c₁ := ⟨hs.after, hs.before, hs.pos⟩
    refine ⟨s, ⟨hs.after, hs.before, hs.pos⟩, c₁.texts, hp, ?_⟩
    change (i, c.textTo c₁) :: c₁.texts = _
    rw [htakes.textTo]
  | again i letters =>
    rw [Expr.ends, Option.mem_toList] at h
    obtain ⟨text, htext, hskip⟩ := Option.bind_eq_some_iff.mp h
    obtain ⟨s, hs, hletters, hgroups⟩ := exists_takes_of_skip? hskip
    refine ⟨s, hs, ⟨text, by rw [Cursor.lookup_texts, htext], hletters⟩, ?_⟩
    rw [Cursor.texts, hgroups, Cursor.texts]
  | rep p least most greedy ih =>
    obtain ⟨c₁, h₁, h₂⟩ := List.mem_flatMap.mp h
    obtain ⟨s, hs, hleast⟩ := rounds_of_mem_timesEnds (fun _ _ => ih) least h₁
    obtain ⟨n, t, hn, ht, hmore⟩ := rounds_of_mem_roundsEnds (fun _ _ => ih) _ h₂
    refine ⟨s ++ t, hs.trans ht, least + n, Nat.le_add_right _ _, ?_, hleast.add hmore⟩
    intro m hm
    -- The two bounds of the rounds add up, as `most` is cut down by what was asked for at least.
    have hle := hn (m - least) (by rw [hm]; rfl)
    omega
  | look back positive p ih =>
    rw [Expr.ends] at h
    -- A look takes nothing, and it adds to the captures only if it is positive.
    split at h
    · split at h
      · rename_i hpositive
        obtain rfl := List.mem_singleton.mp h
        exact ⟨[], ⟨rfl, rfl, rfl⟩, rfl, by simp [hpositive]⟩
      · cases h
    · split at h
      · cases h
      · obtain rfl := List.mem_singleton.mp h
        exact ⟨[], .refl c', rfl, fun _ => rfl⟩
  | atomic p ih =>
    rw [Expr.ends, Option.mem_toList] at h
    exact ih (List.mem_of_head? h)
  | ifGroup i p q ihp ihq =>
    rw [Expr.ends] at h
    split at h
    · obtain ⟨s, hs, hp⟩ := ihp h
      exact ⟨s, hs, .inl hp⟩
    · obtain ⟨s, hs, hq⟩ := ihq h
      exact ⟨s, hs, .inr hq⟩

/-! ### The parts of patterns -/

/-- Rounds of one set take its members only and keep the groups. -/
theorem rounds_one {set : CharSet} {n : Nat} {g g' : Groups} {s : List Char} :
    Rounds (Expr.one set).Reads n g s g' ↔ s.length = n ∧ s.all set.mem = true ∧ g' = g := by
  induction n generalizing g s with
  | zero =>
    rw [Rounds, List.length_eq_zero_iff]
    constructor
    · rintro ⟨rfl, rfl⟩
      exact ⟨rfl, rfl, rfl⟩
    · rintro ⟨rfl, -, rfl⟩
      exact ⟨rfl, rfl⟩
  | succ n ih =>
    constructor
    · rintro ⟨s₁, g₁, s₂, ⟨⟨x, hx, rfl⟩, rfl⟩, hrest, rfl⟩
      obtain ⟨rfl, hall, rfl⟩ := ih.mp hrest
      exact ⟨rfl, by simp [hx, hall], rfl⟩
    · rintro ⟨hlength, hall, rfl⟩
      obtain ⟨x, s, rfl⟩ := List.exists_cons_of_length_eq_add_one hlength
      rw [List.all_cons, Bool.and_eq_true] at hall
      exact ⟨[x], g', s, ⟨⟨x, hall.1, rfl⟩, rfl⟩, ih.mpr ⟨by simpa using hlength, hall.2, rfl⟩, rfl⟩

/-- A run of one set. -/
theorem reads_run {set : CharSet} {least : Nat} {greedy : Bool} {g g' : Groups} {s : List Char} :
    (Expr.rep (.one set) least none greedy).Reads g s g' ↔
      least ≤ s.length ∧ s.all set.mem = true ∧ g' = g := by
  constructor
  · rintro ⟨n, hn, -, hrounds⟩
    obtain ⟨rfl, hall, rfl⟩ := rounds_one.mp hrounds
    exact ⟨hn, hall, rfl⟩
  · rintro ⟨hlength, hall, rfl⟩
    exact ⟨s.length, hlength, by simp, rounds_one.mpr ⟨rfl, hall, rfl⟩⟩

/-- A part that may be left out. -/
theorem reads_optional {p : Expr} {greedy : Bool} {g g' : Groups} {s : List Char} :
    (Expr.rep p 0 (some 1) greedy).Reads g s g' ↔ (s = [] ∧ g' = g) ∨ p.Reads g s g' := by
  constructor
  · rintro ⟨n, -, hn, hrounds⟩
    obtain rfl | rfl : n = 0 ∨ n = 1 := by
      have hle := hn 1 rfl
      omega
    · exact .inl hrounds
    · obtain ⟨s₁, g₁, s₂, hread, ⟨rfl, rfl⟩, rfl⟩ := hrounds
      exact .inr (by rwa [List.append_nil])
  · rintro (hnone | hread)
    · exact ⟨0, Nat.zero_le _, by simp, hnone⟩
    · refine ⟨1, Nat.zero_le _, ?_, s, g', [], hread, ⟨rfl, rfl⟩, by simp⟩
      rintro m hm
      cases hm
      exact Nat.le_refl 1

/-- The characters of a text, then a pattern. -/
def Expr.chars (s : String) (e : Expr) : Expr :=
  s.toList.foldr (fun c rest => .seq (.one (.single c)) rest) e

theorem reads_chars {t : String} {e : Expr} {g g' : Groups} {s : List Char} :
    (Expr.chars t e).Reads g s g' ↔ ∃ s', s = t.toList ++ s' ∧ e.Reads g s' g' := by
  unfold Expr.chars
  induction t.toList generalizing s with
  | nil => simp
  | cons c t ih =>
    rw [List.foldr_cons]
    constructor
    · rintro ⟨s₁, g₁, s₂, ⟨⟨x, hx, rfl⟩, rfl⟩, hrest, rfl⟩
      obtain ⟨s', rfl, hread⟩ := ih.mp hrest
      obtain rfl : x = c := by simpa using hx
      exact ⟨s', rfl, hread⟩
    · rintro ⟨s', rfl, hread⟩
      exact ⟨[c], g, t ++ s', ⟨⟨c, by simp, rfl⟩, rfl⟩, ih.mpr ⟨s', rfl, hread⟩, rfl⟩

/-- Characters are taken one by one, and the pattern behind them goes on from there. -/
theorem mem_ends_chars {s : String} {e : Expr} {c c' : Cursor} (h : c' ∈ (Expr.chars s e).ends c) :
    ∃ mid, c.Takes s.toList mid ∧ c' ∈ e.ends mid := by
  unfold Expr.chars at h
  generalize s.toList = s at h ⊢
  induction s generalizing c with
  | nil => exact ⟨c, .refl c, h⟩
  | cons x s ih =>
    obtain ⟨c₁, hx, hrest⟩ := mem_ends_seq.mp h
    obtain ⟨mid, htakes, hmid⟩ := ih hrest
    have hone : c.Takes [x] c₁ := (mem_ends_literal hx).1
    exact ⟨mid, hone.trans htakes, hmid⟩

/-- Characters are taken one by one, and the preferred end is that of the pattern behind them. -/
theorem head?_ends_chars {s : String} {e : Expr} {c c' : Cursor}
    (h : ((Expr.chars s e).ends c).head? = some c') :
    ∃ mid, c.Takes s.toList mid ∧ (e.ends mid).head? = some c' := by
  unfold Expr.chars at h
  generalize s.toList = s at h ⊢
  induction s generalizing c with
  | nil => exact ⟨c, .refl c, h⟩
  | cons x s ih =>
    obtain ⟨c₁, hx, hrest⟩ := head?_ends_seq h
    obtain ⟨mid, htakes, hmid⟩ := ih hrest
    have hone : c.Takes [x] c₁ := (mem_ends_literal hx).1
    exact ⟨mid, hone.trans htakes, hmid⟩

theorem reads_literal {t : List Char} {g g' : Groups} {s : List Char} :
    (Expr.literal t).Reads g s g' ↔ s = t ∧ g' = g := by
  induction t generalizing s with
  | nil => exact Iff.rfl
  | cons c t ih =>
    cases t with
    | nil =>
      change ((∃ x, (CharSet.single c).mem x = true ∧ s = [x]) ∧ g' = g) ↔ _
      simp
    | cons d t =>
      constructor
      · rintro ⟨s₁, g₁, s₂, ⟨⟨x, hx, rfl⟩, rfl⟩, hrest, rfl⟩
        obtain ⟨rfl, rfl⟩ := ih.mp hrest
        obtain rfl : x = c := by simpa using hx
        exact ⟨rfl, rfl⟩
      · rintro ⟨rfl, rfl⟩
        exact ⟨[c], g', d :: t, ⟨⟨c, by simp, rfl⟩, rfl⟩, ih.mpr ⟨rfl, rfl⟩, rfl⟩

theorem reads_seq_anchor {a : Anchor} {e : Expr} {g g' : Groups} {s : List Char} :
    (Expr.seq (.anchor a) e).Reads g s g' ↔ e.Reads g s g' := by
  constructor
  · rintro ⟨_, _, s, ⟨rfl, rfl⟩, hread, rfl⟩
    exact hread
  · intro hread
    exact ⟨[], g, s, ⟨rfl, rfl⟩, hread, rfl⟩

/-- A look ahead that must not match takes nothing. -/
theorem reads_look {back : Nat} {p : Expr} {g g' : Groups} {s : List Char} :
    (Expr.look back false p).Reads g s g' ↔ s = [] ∧ g' = g := by
  rw [Expr.Reads]
  simp

theorem reads_seq_look {back : Nat} {p e : Expr} {g g' : Groups} {s : List Char} :
    (Expr.seq (.look back false p) e).Reads g s g' ↔ e.Reads g s g' := by
  constructor
  · rintro ⟨_, _, s, hlook, hread, rfl⟩
    obtain ⟨rfl, rfl⟩ := reads_look.mp hlook
    exact hread
  · intro hread
    exact ⟨[], g, s, reads_look.mpr ⟨rfl, rfl⟩, hread, rfl⟩

theorem map_key_exact (s : List Char) : s.map Letters.exact.key = s := List.map_id s

/-! ### Matches in a text -/

/-- A match of a pattern that begins somewhere in a text. -/
structure Expr.Hit (e : Expr) (text : List Char) (m : Match) : Prop where
  first : ∃ before after, text = before ++ after ∧
    m.first = { before := before.reverse, after := after, pos := before.length }
  last : m.last ∈ e.ends m.first

/-- What a match takes is read from the text without any groups. The pattern may be given in a form
that is easier to read. -/
theorem Expr.Hit.reads {e e' : Expr} {text : List Char} {m : Match} (h : e.Hit text m)
    (he : e = e') : ∃ g, e'.Reads [] m.text g ∧ ∀ i, m.group i = (g.lookup i).getD [] := by
  subst he
  obtain ⟨before, after, -, hfirst⟩ := h.first
  obtain ⟨s, hs, hread⟩ := reads_of_mem_ends e h.last
  refine ⟨m.last.texts, ?_, fun i => by rw [Cursor.lookup_texts, Match.group]⟩
  have hnone : m.first.texts = [] := by rw [hfirst]; rfl
  rwa [hnone, ← hs.textTo] at hread

/-- A match that was searched for cuts the text into three parts. -/
theorem hit_of_search {e : Expr} {text : List Char} {m : Match} (h : e.search text = some m) :
    text = m.left ++ (m.text ++ m.right) ∧ e.Hit text m := by
  obtain ⟨skipped, rest, rfl, hfirst, hlast⟩ := searchIn_eq_some h
  have hmem := List.mem_of_head? hlast
  obtain ⟨taken, htakes⟩ := exists_takes_of_mem_ends e hmem
  have hafter := htakes.after
  rw [hfirst] at hafter
  refine ⟨?_, ⟨skipped, rest, rfl, by simpa using hfirst⟩, hmem⟩
  rw [Match.left, Match.text, Match.right, htakes.textTo, hfirst, ← hafter]
  simp

/-- The text that a piece was cut from. -/
def Piece.original : Piece → List Char
  | .kept c => [c]
  | .hit m => m.text

/-- The matches at a cursor begin there. -/
theorem mem_matchesAt {e : Expr} {c : Cursor} {m : Match} (h : m ∈ e.matchesAt c) :
    m.first = c ∧ m.last ∈ e.ends c := by
  unfold Expr.matchesAt at h
  rw [run_eq_findSome?, findSome?_some] at h
  split at h
  · cases h
  · rename_i r hr
    have hmem := List.mem_of_head? hr
    split at h
    · obtain rfl | hsecond := List.mem_cons.mp h
      · exact ⟨rfl, hmem⟩
      · obtain ⟨r', hr', rfl⟩ := Option.map_eq_some_iff.mp (Option.mem_toList.mp hsecond)
        rw [run_eq_findSome?] at hr'
        obtain ⟨r'', hmem', hkept⟩ := List.exists_of_findSome?_eq_some hr'
        split at hkept
        · cases hkept
        · cases hkept
          exact ⟨rfl, hmem'⟩
    · obtain rfl := List.mem_singleton.mp h
      exact ⟨rfl, hmem⟩

theorem width_le_of_mem_matchesAt {e : Expr} {c : Cursor} {m : Match} (h : m ∈ e.matchesAt c) :
    m.width ≤ c.after.length := by
  obtain ⟨hfirst, hlast⟩ := mem_matchesAt h
  obtain ⟨s, hs, -⟩ := reads_of_mem_ends e hlast
  rw [Match.width, hfirst, hs.pos, hs.after, List.length_append]
  omega

/-- Of the matches at a cursor only the last one takes something. -/
theorem flatMap_matchesAt (e : Expr) (c : Cursor) :
    (e.matchesAt c).flatMap Match.text =
      c.after.take (((e.matchesAt c).getLast?.map Match.width).getD 0) := by
  unfold Expr.matchesAt
  split
  · rfl
  · rename_i r _
    split
    · rename_i hsame
      have hempty : (⟨c, r⟩ : Match).text = [] := by
        simp [Match.text, Cursor.textTo, eq_of_beq hsame]
      cases hsecond : e.run c fun r' => if r'.pos == c.pos then none else some r' with
      | none => simp [Match.width, eq_of_beq hsame, hempty]
      | some r' =>
        simp only [Option.map_some, Option.toList_some, List.flatMap_cons, hempty, List.nil_append,
          List.flatMap_nil, List.append_nil, List.getLast?_cons_cons, List.getLast?_singleton,
          Option.getD_some]
        rfl
    · simp [Match.text, Match.width, Cursor.textTo]

/-- The pieces of what is left of a text: together they are this text, and every match among them
is one in the whole text. -/
theorem piecesIn_spec (e : Expr) (before text : List Char) (skip : Nat)
    (hskip : skip ≤ text.length) :
    (e.piecesIn before before.length skip text).flatMap Piece.original = text.drop skip ∧
      ∀ m, .hit m ∈ e.piecesIn before before.length skip text →
        e.Hit (before.reverse ++ text) m := by
  have hits : ∀ {before after : List Char} {m : Match},
      m ∈ e.matchesAt { before, after, pos := before.length } →
        e.Hit (before.reverse ++ after) m := by
    intro before after m hm
    obtain ⟨hfirst, hlast⟩ := mem_matchesAt hm
    refine ⟨⟨before.reverse, after, rfl, ?_⟩, by rwa [hfirst]⟩
    rw [hfirst, List.reverse_reverse, List.length_reverse]
  have original_hits : ∀ ms : List Match,
      (ms.map Piece.hit).flatMap Piece.original = ms.flatMap Match.text := by
    intro ms
    rw [List.flatMap_map]
    rfl
  induction text generalizing before skip with
  | nil =>
    obtain rfl : skip = 0 := Nat.le_zero.mp hskip
    rw [Expr.piecesIn, if_pos (beq_self_eq_true 0), original_hits, flatMap_matchesAt]
    refine ⟨by simp, fun m hm => hits ?_⟩
    simpa using hm
  | cons c rest ih =>
    -- The place behind this letter, with the context that the induction speaks of.
    have hnext : ∀ k, k ≤ rest.length →
        (e.piecesIn (c :: before) (before.length + 1) k rest).flatMap Piece.original =
          rest.drop k ∧
        ∀ m, .hit m ∈ e.piecesIn (c :: before) (before.length + 1) k rest →
          e.Hit (before.reverse ++ c :: rest) m := by
      intro k hk
      have := ih (c :: before) k hk
      rwa [List.length_cons, List.reverse_cons, List.append_assoc, List.singleton_append] at this
    cases skip with
    | succ k =>
      rw [Expr.piecesIn, List.drop_succ_cons]
      exact hnext k (Nat.le_of_succ_le_succ hskip)
    | zero =>
      rw [Expr.piecesIn, List.flatMap_append, original_hits, flatMap_matchesAt]
      -- What is passed over is the width of the last match here; without one it is this letter alone.
      generalize hwidth : (((e.matchesAt { before, after := c :: rest, pos := before.length }).getLast?.map
        Match.width).getD 0) = width
      cases width with
      | zero =>
        obtain ⟨htext, hmatches⟩ := hnext 0 (Nat.zero_le _)
        refine ⟨by simp [Piece.original, htext], fun m hm => ?_⟩
        obtain hm | hm := List.mem_append.mp hm
        · exact hits (by simpa using hm)
        · exact hmatches m (by simpa using hm)
      | succ width =>
        obtain ⟨last, hlast, hlastWidth⟩ : ∃ last,
            (e.matchesAt { before, after := c :: rest, pos := before.length }).getLast? = some last ∧
              last.width = width + 1 := by
          cases hlast : (e.matchesAt { before, after := c :: rest, pos := before.length }).getLast? with
          | none => simp [hlast] at hwidth
          | some last => exact ⟨last, rfl, by simpa [hlast] using hwidth⟩
        have hle := width_le_of_mem_matchesAt (List.mem_of_getLast? hlast)
        rw [hlastWidth, List.length_cons] at hle
        obtain ⟨htext, hmatches⟩ := hnext width (Nat.le_of_succ_le_succ hle)
        refine ⟨by simp [htext], fun m hm => ?_⟩
        obtain hm | hm := List.mem_append.mp hm
        · exact hits (by simpa using hm)
        · exact hmatches m hm

/-- A text is the sequence of its pieces. -/
theorem original_pieces (e : Expr) (text : List Char) :
    (e.pieces text).flatMap Piece.original = text :=
  (piecesIn_spec e [] text 0 (Nat.zero_le _)).1

/-- Every match among the pieces of a text is one in this text. -/
theorem hit_of_mem_pieces {e : Expr} {text : List Char} {m : Match}
    (h : .hit m ∈ e.pieces text) : e.Hit text m :=
  (piecesIn_spec e [] text 0 (Nat.zero_le _)).2 m h

/-- What holds between every match and its replacement, and passes on to longer texts, holds between
a text and the text with all matches replaced. -/
theorem replaceAll_rel {e : Expr} {f : Match → List Char} {text : List Char}
    {rel : List Char → List Char → Prop} (hrefl : ∀ s, rel s s)
    (happend : ∀ s s' t t', rel s s' → rel t t' → rel (s ++ t) (s' ++ t'))
    (h : ∀ m, e.Hit text m → rel m.text (f m)) : rel text (e.replaceAll f text) := by
  have hpieces : ∀ pieces : List Piece, (∀ m, .hit m ∈ pieces → rel m.text (f m)) →
      rel (pieces.flatMap Piece.original) (pieces.flatMap (Piece.replaced f)) := by
    intro pieces
    induction pieces with
    | nil => exact fun _ => hrefl []
    | cons piece pieces ih =>
      intro hits
      rw [List.flatMap_cons, List.flatMap_cons]
      refine happend _ _ _ _ ?_ (ih fun m hm => hits m (List.mem_cons_of_mem _ hm))
      cases piece with
      | kept c => exact hrefl [c]
      | hit m => exact hits m List.mem_cons_self
  have hrel := hpieces (e.pieces text) fun m hm => h m (hit_of_mem_pieces hm)
  rwa [original_pieces] at hrel

end RailsUpgrade.Pattern
