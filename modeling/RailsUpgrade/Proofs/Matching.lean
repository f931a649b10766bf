import Mathlib.Data.List.Basic
import Mathlib.Data.List.TakeWhile
import RailsUpgrade.Pattern.Search

/-!
# `RailsUpgrade.Proofs.Matching`: the ends of a match

`Expr.run` hands ends to a continuation. `Expr.ends` lists them instead, the preferred one first,
and needs no continuation:

* `run_eq_findSome?`: running a pattern is trying its ends one after the other;
* `exists_takes_of_mem_ends`: every end lies to the right and takes the text in between;
* `ends_star`: the ends of a greedy repetition of one set, the longest first;
* `ends_star_seq`: what follows such a repetition and cannot start with a member of the set has
  only the longest run to try.
-/

set_option autoImplicit false

namespace RailsUpgrade.Pattern

/-! ### All ends, the preferred one first -/

/-- The ends of exactly `n` rounds. -/
@[grind =] def timesEnds (ends : Cursor → List Cursor) : Nat → Cursor → List Cursor
  | 0, c => [c]
  | n + 1, c => (ends c).flatMap (timesEnds ends n)

/-- The ends of up to `most` further rounds. -/
@[grind =] def roundsEnds (ends : Cursor → List Cursor) (greedy : Bool) :
    (fuel : List Char) → (most last : Option Nat) → Cursor → List Cursor
  | [], _, _, c => [c]
  | _ :: fuel, most, last, c =>
    if most == some 0 || last == some c.pos then [c]
    else
      let again := (ends c).flatMap (roundsEnds ends greedy fuel (most.map (· - 1)) (some c.pos))
      if greedy then again ++ [c] else c :: again

/-- The ends of a pattern at a cursor, the preferred one first. -/
@[grind =] def Expr.ends : Expr → Cursor → List Cursor
  | .empty, c => [c]
  | .one set, c => match c.after with
    | [] => []
    | x :: rest => if set.mem x then [c.advance x rest] else []
  | .anchor a, c => if a.holds c then [c] else []
  | .seq p q, c => (p.ends c).flatMap q.ends
  | .alt p q, c => p.ends c ++ q.ends c
  | .group i p, c => (p.ends (c.enter i)).map (·.capture i c)
  | .again i letters, c => ((c.group? i).bind (Cursor.skip? letters · c)).toList
  | .rep p least most greedy, c =>
    (timesEnds p.ends least c).flatMap fun c' =>
      roundsEnds p.ends greedy ('.' :: c'.after) (most.map (· - least)) none c'
  | .look back positive p, c =>
    match (c.back? back).bind fun c' => (p.ends c').head? with
    | some r => if positive then [{ c with groups := r.groups, entered := r.entered }] else []
    | none => if positive then [] else [c]
  | .atomic p, c => (p.ends c).head?.toList
  | .ifGroup i p q, c => if c.hasGroup i then p.ends c else q.ends c

theorem findSome?_flatMap {α β γ : Type} (f : α → List β) (k : β → Option γ) (xs : List α) :
    (xs.flatMap f).findSome? k = xs.findSome? fun x => (f x).findSome? k := by
  induction xs with
  | nil => rfl
  | cons x xs ih =>
    rw [List.flatMap_cons, List.findSome?_append, List.findSome?_cons, ih]
    cases (f x).findSome? k <;> rfl

@[simp] theorem findSome?_singleton {α β : Type} (k : α → Option β) (x : α) :
    [x].findSome? k = k x := by
  rw [List.findSome?_cons, List.findSome?_nil]
  cases k x <;> rfl

theorem findSome?_some {α : Type} (xs : List α) : xs.findSome? some = xs.head? := by
  cases xs <;> rfl

variable {body : Step} {ends : Cursor → List Cursor}

/-- Exactly `n` rounds hand on the ends that `timesEnds` lists. -/
theorem times_eq_findSome? (h : ∀ c k, body c k = (ends c).findSome? k) (n : Nat) (c : Cursor)
    (k : Cursor → Option Cursor) : times body n c k = (timesEnds ends n c).findSome? k := by
  induction n generalizing c with
  | zero => rw [times, timesEnds, findSome?_singleton]
  | succ n ih =>
    rw [times, h, timesEnds, findSome?_flatMap]
    congr 1
    funext c'
    exact ih c'

/-- Further rounds hand on the ends that `roundsEnds` lists. -/
theorem rounds_eq_findSome? (h : ∀ c k, body c k = (ends c).findSome? k) (greedy : Bool)
    (fuel : List Char) (most last : Option Nat) (c : Cursor) (k : Cursor → Option Cursor) :
    rounds body greedy fuel most last c k =
      (roundsEnds ends greedy fuel most last c).findSome? k := by
  induction fuel generalizing most last c with
  | nil => rw [rounds, roundsEnds, findSome?_singleton]
  | cons x fuel ih =>
    rw [rounds, roundsEnds]
    split
    · rw [findSome?_singleton]
    · have hagain : body c (fun c' =>
          rounds body greedy fuel (most.map (· - 1)) (some c.pos) c' k) =
          ((ends c).flatMap
            (roundsEnds ends greedy fuel (most.map (· - 1)) (some c.pos))).findSome? k := by
        rw [h, findSome?_flatMap]
        congr 1
        funext c'
        exact ih _ _ c'
      cases greedy
      · simp only [Bool.false_eq_true, if_false, List.findSome?_cons]
        rw [hagain]
        cases k c <;> rfl
      · simp only [if_true, List.findSome?_append, findSome?_singleton]
        rw [hagain]
        cases List.findSome? k _ <;> rfl

/-- Running a pattern is trying its ends one after the other. -/
theorem run_eq_findSome? (e : Expr) (c : Cursor) (k : Cursor → Option Cursor) :
    e.run c k = (e.ends c).findSome? k := by
  induction e generalizing c k with
  | empty => rw [Expr.run, Expr.ends, findSome?_singleton]
  | one set =>
    rw [Expr.run, Expr.ends]
    cases c.after with
    | nil => rfl
    | cons x rest => by_cases hx : set.mem x = true <;> simp [hx]
  | anchor a =>
    rw [Expr.run, Expr.ends]
    by_cases ha : a.holds c = true <;> simp [ha]
  -- What stands behind the first part is the rest of the search for it.
  | seq p q ihp ihq =>
    rw [Expr.run, Expr.ends, ihp, findSome?_flatMap]
    congr 1
    funext c'
    exact ihq c' k
  | alt p q ihp ihq =>
    rw [Expr.run, Expr.ends, ihp, ihq, List.findSome?_append]
    cases (p.ends c).findSome? k <;> rfl
  | group i p ih =>
    rw [Expr.run, Expr.ends, ih, List.findSome?_map]
    rfl
  | again i letters =>
    rw [Expr.run, Expr.ends]
    cases c.group? i with
    | none => rfl
    | some text => cases hskip : Cursor.skip? letters text c <;> simp [hskip]
  | rep p least most greedy ih =>
    rw [Expr.run, Expr.ends, times_eq_findSome? ih, findSome?_flatMap]
    congr 1
    funext c'
    exact rounds_eq_findSome? ih greedy _ _ _ c' k
  -- A look around keeps the first end only, and no later one is tried.
  | look back positive p ih =>
    have hfirst : (fun c' => p.run c' some) = fun c' => (p.ends c').head? := by
      funext c'
      rw [ih, findSome?_some]
    rw [Expr.run, Expr.ends, hfirst]
    cases (c.back? back).bind fun c' => (p.ends c').head? with
    | none => cases positive <;> simp
    | some r => cases positive <;> simp
  | atomic p ih =>
    rw [Expr.run, Expr.ends, ih, findSome?_some]
    cases (p.ends c).head? with
    | none => rfl
    | some c' => simp
  | ifGroup i p q ihp ihq =>
    rw [Expr.run, Expr.ends]
    split
    · exact ihp c k
    · exact ihq c k

/-! ### What an end takes -/

/-- From one cursor to another that lies `taken` to the right of it. -/
structure Cursor.Takes (c : Cursor) (taken : List Char) (c' : Cursor) : Prop where
  after : c.after = taken ++ c'.after
  before : c'.before = taken.reverse ++ c.before
  pos : c'.pos = c.pos + taken.length

namespace Cursor.Takes

theorem refl (c : Cursor) : c.Takes [] c := ⟨rfl, rfl, rfl⟩

theorem trans {c c₁ c₂ : Cursor} {s t : List Char} (h₁ : c.Takes s c₁) (h₂ : c₁.Takes t c₂) :
    c.Takes (s ++ t) c₂ where
  after := by rw [h₁.after, h₂.after, List.append_assoc]
  before := by rw [h₂.before, h₁.before, List.reverse_append, List.append_assoc]
  pos := by rw [h₂.pos, h₁.pos, List.length_append, Nat.add_assoc]

/-- The text between two cursors. -/
theorem textTo {c c' : Cursor} {taken : List Char} (h : c.Takes taken c') :
    c.textTo c' = taken := by
  rw [Cursor.textTo, h.after, h.pos, Nat.add_sub_cancel_left, List.take_left]

end Cursor.Takes

theorem takes_of_skip? {letters : Letters} {text : List Char} {c c' : Cursor}
    (h : Cursor.skip? letters text c = some c') : ∃ taken, c.Takes taken c' := by
  induction text generalizing c with
  | nil =>
    cases h
    exact ⟨[], .refl _⟩
  | cons t text ih =>
    rw [Cursor.skip?] at h
    cases hafter : c.after with
    | nil => simp [hafter] at h
    | cons x rest =>
      simp only [hafter] at h
      split at h
      · obtain ⟨taken, htaken⟩ := ih h
        refine ⟨x :: taken, ?_, ?_, ?_⟩
        · rw [hafter, List.cons_append, ← htaken.after]
          rfl
        · simpa [Cursor.advance] using htaken.before
        · simpa [Cursor.advance, Nat.add_assoc, Nat.add_comm 1] using htaken.pos
      · cases h

theorem takes_of_mem_timesEnds (h : ∀ c, ∀ c' ∈ ends c, ∃ taken, c.Takes taken c') (n : Nat)
    {c c' : Cursor} (hmem : c' ∈ timesEnds ends n c) : ∃ taken, c.Takes taken c' := by
  induction n generalizing c with
  | zero =>
    obtain rfl : c' = c := by simpa [timesEnds] using hmem
    exact ⟨[], .refl c'⟩
  | succ n ih =>
    obtain ⟨c₁, h₁, h₂⟩ := List.mem_flatMap.mp hmem
    obtain ⟨s, hs⟩ := h c c₁ h₁
    obtain ⟨t, ht⟩ := ih h₂
    exact ⟨s ++ t, hs.trans ht⟩

theorem takes_of_mem_roundsEnds (h : ∀ c, ∀ c' ∈ ends c, ∃ taken, c.Takes taken c')
    {greedy : Bool} (fuel : List Char) {most last : Option Nat} {c c' : Cursor}
    (hmem : c' ∈ roundsEnds ends greedy fuel most last c) : ∃ taken, c.Takes taken c' := by
  induction fuel generalizing most last c with
  | nil =>
    obtain rfl : c' = c := by simpa [roundsEnds] using hmem
    exact ⟨[], .refl c'⟩
  | cons x fuel ih =>
    have hcases : c' = c ∨ c' ∈ (ends c).flatMap
        (roundsEnds ends greedy fuel (most.map (· - 1)) (some c.pos)) := by
      rw [roundsEnds] at hmem
      split at hmem
      · exact .inl (by simpa using hmem)
      · cases greedy
        · simpa using hmem
        · simpa [or_comm] using hmem
    obtain rfl | hagain := hcases
    · exact ⟨[], .refl c'⟩
    · obtain ⟨c₁, h₁, h₂⟩ := List.mem_flatMap.mp hagain
      obtain ⟨s, hs⟩ := h c c₁ h₁
      obtain ⟨t, ht⟩ := ih h₂
      exact ⟨s ++ t, hs.trans ht⟩

/-- Every end lies to the right of the cursor and takes the text in between. -/
theorem exists_takes_of_mem_ends (e : Expr) {c c' : Cursor} (h : c' ∈ e.ends c) :
    ∃ taken, c.Takes taken c' := by
  induction e generalizing c c' with
  | empty =>
    obtain rfl : c' = c := by simpa [Expr.ends] using h
    exact ⟨[], .refl c'⟩
  | one set =>
    rw [Expr.ends] at h
    cases hafter : c.after with
    | nil => simp [hafter] at h
    | cons x rest =>
      simp only [hafter] at h
      split at h
      · obtain rfl := List.mem_singleton.mp h
        exact ⟨[x], by simp [hafter, Cursor.advance], rfl, rfl⟩
      · cases h
  | anchor a =>
    rw [Expr.ends] at h
    split at h
    · obtain rfl := List.mem_singleton.mp h
      exact ⟨[], .refl c'⟩
    · cases h
  | seq p q ihp ihq =>
    obtain ⟨c₁, h₁, h₂⟩ := List.mem_flatMap.mp h
    obtain ⟨s, hs⟩ := ihp h₁
    obtain ⟨t, ht⟩ := ihq h₂
    exact ⟨s ++ t, hs.trans ht⟩
  | alt p q ihp ihq =>
    obtain h | h := List.mem_append.mp h
    · exact ihp h
    · exact ihq h
  | group i p ih =>
    obtain ⟨c₁, h₁, rfl⟩ := List.mem_map.mp h
    obtain ⟨s, hs⟩ := ih h₁
    exact ⟨s, hs.after, hs.before, hs.pos⟩
  | again i letters =>
    rw [Expr.ends, Option.mem_toList] at h
    obtain ⟨text, -, hskip⟩ := Option.bind_eq_some_iff.mp h
    exact takes_of_skip? hskip
  -- The least number of rounds comes first, then those that may be left out.
  | rep p least most greedy ih =>
    obtain ⟨c₁, h₁, h₂⟩ := List.mem_flatMap.mp h
    obtain ⟨s, hs⟩ := takes_of_mem_timesEnds (fun _ _ => ih) least h₁
    obtain ⟨t, ht⟩ := takes_of_mem_roundsEnds (fun _ _ => ih) _ h₂
    exact ⟨s ++ t, hs.trans ht⟩
  -- A look takes nothing, however far it has looked.
  | look back positive p ih =>
    rw [Expr.ends] at h
    split at h
    · split at h
      · obtain rfl := List.mem_singleton.mp h
        exact ⟨[], rfl, rfl, rfl⟩
      · cases h
    · split at h
      · cases h
      · obtain rfl := List.mem_singleton.mp h
        exact ⟨[], .refl c'⟩
  | atomic p ih =>
    rw [Expr.ends, Option.mem_toList] at h
    exact ih (List.mem_of_head? h)
  | ifGroup i p q ihp ihq =>
    rw [Expr.ends] at h
    split at h
    · exact ihp h
    · exact ihq h

/-! ### One pattern after the other -/

theorem mem_ends_seq {p q : Expr} {c c' : Cursor} :
    c' ∈ (Expr.seq p q).ends c ↔ ∃ c₁ ∈ p.ends c, c' ∈ q.ends c₁ := by
  rw [Expr.ends, List.mem_flatMap]

theorem mem_ends_alt {p q : Expr} {c c' : Cursor} :
    c' ∈ (Expr.alt p q).ends c ↔ c' ∈ p.ends c ∨ c' ∈ q.ends c := by
  rw [Expr.ends, List.mem_append]

/-- The preferred end of two patterns is the preferred end of the second one, somewhere after the
first one. -/
theorem head?_ends_seq {p q : Expr} {c c' : Cursor}
    (h : ((Expr.seq p q).ends c).head? = some c') :
    ∃ c₁ ∈ p.ends c, (q.ends c₁).head? = some c' := by
  rw [Expr.ends, List.head?_flatMap] at h
  exact List.exists_of_findSome?_eq_some h

/-! ### Runs of one set -/

/-- The cursor `n` characters further to the right. -/
def Cursor.shift (c : Cursor) (n : Nat) : Cursor :=
  { c with before := (c.after.take n).reverse ++ c.before, after := c.after.drop n, pos := c.pos + n }

@[simp] theorem Cursor.shift_zero (c : Cursor) : c.shift 0 = c := by
  simp [Cursor.shift]

theorem Cursor.shift_advance {c : Cursor} {x : Char} {rest : List Char} (h : c.after = x :: rest)
    (n : Nat) : (c.advance x rest).shift n = c.shift (n + 1) := by
  simp [Cursor.shift, Cursor.advance, h, Nat.add_assoc, Nat.add_comm 1]

theorem Cursor.shift_shift (c : Cursor) (m n : Nat) : (c.shift m).shift n = c.shift (m + n) := by
  simp [Cursor.shift, List.take_add, Nat.add_assoc]

@[simp] theorem Cursor.after_shift (c : Cursor) (n : Nat) : (c.shift n).after = c.after.drop n := rfl

theorem Cursor.takes_shift {c : Cursor} {n : Nat} (h : n ≤ c.after.length) :
    c.Takes (c.after.take n) (c.shift n) where
  after := (List.take_append_drop n c.after).symm
  before := rfl
  pos := by simp [Cursor.shift, Nat.min_eq_left h]

/-- How many characters of a set come next. -/
def CharSet.run (set : CharSet) (c : Cursor) : Nat := (c.after.takeWhile set.mem).length

/-- Any number of characters of a set, as many as possible. -/
def Expr.star (set : CharSet) : Expr := .rep (.one set) 0 none true

/-- At least one character of a set, as many as possible. -/
def Expr.plus (set : CharSet) : Expr := .rep (.one set) 1 none true

theorem roundsEnds_one (set : CharSet) (fuel : List Char) (last : Option Nat) (c : Cursor)
    (hfuel : c.after.length < fuel.length) (hlast : last ≠ some c.pos) :
    roundsEnds (Expr.one set).ends true fuel none last c =
      (List.range (set.run c + 1)).reverse.map c.shift := by
  induction fuel generalizing c last with
  | nil => simp at hfuel
  | cons _ fuel ih =>
    rw [roundsEnds, if_neg (by simpa using hlast)]
    cases hafter : c.after with
    | nil => simp [Expr.ends, CharSet.run, hafter]
    | cons x rest =>
      by_cases hx : set.mem x = true
      · have hone : (Expr.one set).ends c = [c.advance x rest] := by simp [Expr.ends, hafter, hx]
        have hnext := ih (some c.pos) (c.advance x rest)
          (by simpa [Cursor.advance, hafter] using hfuel) (by simp [Cursor.advance])
        have hrun : set.run c = set.run (c.advance x rest) + 1 := by
          simp [CharSet.run, hafter, hx, Cursor.advance]
        rw [hrun, List.range_succ_eq_map, List.reverse_cons, List.map_append, List.map_singleton,
          Cursor.shift_zero, ← List.map_reverse, List.map_map]
        simp only [hone, if_true, List.flatMap_cons, List.flatMap_nil, List.append_nil,
          Option.map_none, hnext]
        congr 2
        funext n
        exact Cursor.shift_advance hafter n
      · simp [Expr.ends, CharSet.run, hafter, hx]

/-- The ends of a run, the longest one first. -/
theorem ends_star (set : CharSet) (c : Cursor) :
    (Expr.star set).ends c = (List.range (set.run c + 1)).reverse.map c.shift := by
  rw [Expr.star, Expr.ends, timesEnds, List.flatMap_singleton]
  exact roundsEnds_one set _ none c (by simp) (by simp)

theorem ends_plus (set : CharSet) (c : Cursor) :
    (Expr.plus set).ends c = (List.range (set.run c)).reverse.map fun n => c.shift (n + 1) := by
  rw [Expr.plus, Expr.ends]
  cases hafter : c.after with
  | nil => simp [timesEnds, Expr.ends, CharSet.run, hafter]
  | cons x rest =>
    by_cases hx : set.mem x = true
    · have hrun : set.run c = set.run (c.advance x rest) + 1 := by
        simp [CharSet.run, hafter, hx, Cursor.advance]
      have hone : timesEnds (Expr.one set).ends 1 c = [c.advance x rest] := by
        simp [timesEnds, Expr.ends, hafter, hx]
      rw [hone, List.flatMap_singleton, hrun]
      refine (roundsEnds_one set _ none _ (by simp) (by simp)).trans ?_
      congr 1
      funext n
      exact Cursor.shift_advance hafter n
    · simp [timesEnds, Expr.ends, CharSet.run, hafter, hx]

theorem Cursor.after_shift_run (set : CharSet) (c : Cursor) :
    (c.shift (set.run c)).after = c.after.dropWhile set.mem := by
  have hsplit := List.takeWhile_append_dropWhile (p := set.mem) (l := c.after)
  rw [Cursor.after_shift, CharSet.run]
  nth_rewrite 2 [← hsplit]
  exact List.drop_left

/-- The preferred end of a run is behind its last character. -/
theorem head?_ends_star {set : CharSet} {c c' : Cursor} (h : ((Expr.star set).ends c).head? = some c') :
    c' = c.shift (set.run c) := by
  rw [ends_star, List.range_succ, List.reverse_append, List.reverse_singleton,
    List.singleton_append, List.map_cons, List.head?_cons] at h
  exact (Option.some.inj h).symm

theorem head?_ends_plus {set : CharSet} {c c' : Cursor} (h : ((Expr.plus set).ends c).head? = some c') :
    c' = c.shift (set.run c) := by
  rw [ends_plus] at h
  cases hrun : set.run c with
  | zero => simp [hrun] at h
  | succ n =>
    rw [hrun, List.range_succ, List.reverse_append, List.reverse_singleton, List.singleton_append,
      List.map_cons, List.head?_cons] at h
    exact (Option.some.inj h).symm

/-- Behind a whole run no member of its set comes next. -/
theorem head?_after_run (set : CharSet) (c : Cursor) :
    (c.shift (set.run c)).after.head?.any set.mem = false := by
  rw [Cursor.after_shift_run]
  have hstop := List.head?_dropWhile_not set.mem c.after
  cases hhead : (c.after.dropWhile set.mem).head? with
  | none => rfl
  | some x =>
    rw [hhead] at hstop
    simpa using hstop

/-- A part of a run has members of the set only. -/
theorem takes_shift_of_le_run {set : CharSet} {c : Cursor} {n : Nat} (h : n ≤ set.run c) :
    ∃ taken, taken.all set.mem = true ∧ taken.length = n ∧ c.Takes taken (c.shift n) := by
  have hpre := List.takeWhile_prefix (l := c.after) set.mem
  have hlen : n ≤ c.after.length := h.trans hpre.length_le
  refine ⟨c.after.take n, ?_, by simp [hlen], Cursor.takes_shift hlen⟩
  have htake : c.after.take n = (c.after.takeWhile set.mem).take n := by
    obtain ⟨rest, hrest⟩ := hpre
    nth_rewrite 1 [← hrest]
    exact List.take_append_of_le_length h
  rw [htake, List.all_eq_true]
  intro x hx
  exact List.mem_takeWhile_imp (List.mem_of_mem_take hx)

theorem mem_ends_star {set : CharSet} {c c' : Cursor} (h : c' ∈ (Expr.star set).ends c) :
    ∃ taken, taken.all set.mem = true ∧ c.Takes taken c' ∧ c'.groups = c.groups := by
  rw [ends_star] at h
  obtain ⟨n, hn, rfl⟩ := List.mem_map.mp h
  have hle : n ≤ set.run c := by
    rw [List.mem_reverse, List.mem_range] at hn
    omega
  obtain ⟨taken, hall, -, htakes⟩ := takes_shift_of_le_run hle
  exact ⟨taken, hall, htakes, rfl⟩

theorem mem_ends_plus {set : CharSet} {c c' : Cursor} (h : c' ∈ (Expr.plus set).ends c) :
    ∃ taken, taken.all set.mem = true ∧ taken ≠ [] ∧ c.Takes taken c' ∧ c'.groups = c.groups := by
  rw [ends_plus] at h
  obtain ⟨n, hn, rfl⟩ := List.mem_map.mp h
  have hle : n + 1 ≤ set.run c := by
    rw [List.mem_reverse, List.mem_range] at hn
    omega
  obtain ⟨taken, hall, hlen, htakes⟩ := takes_shift_of_le_run hle
  exact ⟨taken, hall, List.ne_nil_of_length_eq_add_one hlen, htakes, rfl⟩

/-- The character after a shorter run than possible belongs to the set. -/
theorem mem_of_lt_run {set : CharSet} {c : Cursor} {n : Nat} (h : n < set.run c) :
    ∃ x rest, (c.shift n).after = x :: rest ∧ set.mem x = true := by
  have hpre := List.takeWhile_prefix (l := c.after) set.mem
  have hlt : n < c.after.length := h.trans_le hpre.length_le
  refine ⟨c.after[n], c.after.drop (n + 1), List.drop_eq_getElem_cons hlt, ?_⟩
  have hmem : (c.after.takeWhile set.mem)[n] ∈ c.after.takeWhile set.mem := List.getElem_mem h
  rw [hpre.getElem h] at hmem
  exact List.mem_takeWhile_imp hmem

/-- A pattern that fails where a member of a set comes next. -/
def Expr.Avoids (q : Expr) (set : CharSet) : Prop :=
  ∀ c x rest, c.after = x :: rest → set.mem x = true → q.ends c = []

/-- What follows a run and cannot start with a member of its set has only the longest run to
try. -/
theorem ends_star_seq {set : CharSet} {q : Expr} (hq : q.Avoids set) (c : Cursor) :
    (Expr.seq (.star set) q).ends c = q.ends (c.shift (set.run c)) := by
  rw [Expr.ends, ends_star, List.range_succ, List.reverse_append, List.reverse_singleton,
    List.singleton_append, List.map_cons, List.flatMap_cons]
  have hshort : ((List.range (set.run c)).reverse.map c.shift).flatMap q.ends = [] := by
    rw [List.flatMap_eq_nil_iff]
    intro c' hc'
    obtain ⟨n, hn, rfl⟩ := List.mem_map.mp hc'
    obtain ⟨x, rest, hafter, hx⟩ := mem_of_lt_run (by simpa using hn)
    exact hq _ x rest hafter hx
  rw [hshort, List.append_nil]

/-! ### Fixed texts -/

@[simp] theorem CharSet.mem_single (c x : Char) : (CharSet.single c).mem x = (x == c) := by
  simp [CharSet.single, CharSet.mem, CharItem.mem, Letters.key]

@[simp] theorem CharSet.mem_ofItems (items : List CharItem) (x : Char) :
    (CharSet.ofItems items).mem x = items.any (·.mem .exact (items.length == 1) x) := by
  simp [CharSet.ofItems, CharSet.mem, Letters.key]

@[simp] theorem CharSet.mem_butItems (items : List CharItem) (x : Char) :
    (CharSet.butItems items).mem x = !items.any (·.mem .exact (items.length == 1) x) := by
  simp [CharSet.butItems, CharSet.mem, Letters.key]

/-- A fixed character has one end, behind it. -/
theorem ends_single (x : Char) (c : Cursor) :
    (Expr.one (.single x)).ends c = if c.after.head? = some x then [c.shift 1] else [] := by
  rw [Expr.ends]
  cases hafter : c.after with
  | nil => rfl
  | cons y rest =>
    have hone : c.advance y rest = c.shift 1 := by
      simpa using Cursor.shift_advance hafter 0
    by_cases hxy : y = x <;> simp [hxy, ← hone]

/-- A fixed text has one end, behind the text. -/
theorem ends_literal (s : List Char) (c : Cursor) :
    (Expr.literal s).ends c = if s <+: c.after then [c.shift s.length] else [] := by
  induction s generalizing c with
  | nil => simp [Expr.literal, Expr.ends]
  | cons x s ih =>
    have hcons : (Expr.literal (x :: s)).ends c =
        (Expr.seq (.one (.single x)) (.literal s)).ends c := by
      cases s with
      | nil => simp [Expr.literal, Expr.ends]
      | cons y s => rfl
    rw [hcons, Expr.ends, Expr.ends]
    cases hafter : c.after with
    | nil => simp
    | cons y rest =>
      by_cases hxy : y = x
      · subst hxy
        simp only [CharSet.mem_single, beq_self_eq_true, if_true, List.flatMap_cons,
          List.flatMap_nil, List.append_nil, ih, List.cons_prefix_cons, true_and]
        rw [Cursor.shift_advance hafter]
        rfl
      · simp [hxy, Ne.symm hxy]

theorem mem_ends_literal {s : List Char} {c c' : Cursor} (h : c' ∈ (Expr.literal s).ends c) :
    c.Takes s c' ∧ c'.groups = c.groups := by
  rw [ends_literal] at h
  split at h
  · rename_i hpre
    obtain rfl := List.mem_singleton.mp h
    have htakes := Cursor.takes_shift hpre.length_le
    rw [← List.prefix_iff_eq_take.mp hpre] at htakes
    exact ⟨htakes, rfl⟩
  · cases h

theorem mem_ends_anchor {a : Anchor} {c c' : Cursor} :
    c' ∈ (Expr.anchor a).ends c ↔ c' = c ∧ a.holds c = true := by
  rw [Expr.ends]
  by_cases ha : a.holds c = true <;> simp [ha]

/-- What must not come next. -/
theorem ends_notAhead (p : Expr) (c : Cursor) :
    (Expr.look 0 false p).ends c = if p.ends c = [] then [c] else [] := by
  rw [Expr.ends, show c.back? 0 = some c from rfl, Option.bind_some]
  cases p.ends c with
  | nil => rfl
  | cons c' others => simp

/-! ### The leftmost match -/

/-- A match lies in the text that was searched, and it is the preferred one where it begins. -/
theorem searchIn_eq_some {e : Expr} {before text : List Char} {pos : Nat} {m : Match}
    (h : e.searchIn before pos text = some m) :
    ∃ skipped rest, text = skipped ++ rest ∧
      m.first = { before := skipped.reverse ++ before, after := rest, pos := pos + skipped.length } ∧
      (e.ends m.first).head? = some m.last := by
  have hat : ∀ c m, e.matchAt c = some m → m.first = c ∧ (e.ends m.first).head? = some m.last := by
    intro c m hm
    rw [Expr.matchAt, run_eq_findSome?, findSome?_some] at hm
    obtain ⟨last, hlast, rfl⟩ := Option.map_eq_some_iff.mp hm
    exact ⟨rfl, hlast⟩
  induction text generalizing before pos with
  | nil =>
    obtain ⟨hfirst, hlast⟩ := hat _ m h
    exact ⟨[], [], rfl, hfirst, hlast⟩
  | cons x text ih =>
    rw [Expr.searchIn] at h
    split at h
    · rename_i found hfound
      cases h
      obtain ⟨hfirst, hlast⟩ := hat _ _ hfound
      exact ⟨[], x :: text, rfl, hfirst, hlast⟩
    · obtain ⟨skipped, rest, rfl, hfirst, hlast⟩ := ih h
      refine ⟨x :: skipped, rest, rfl, ?_, hlast⟩
      rw [hfirst]
      simp [Nat.add_assoc, Nat.add_comm 1]

/-- Where a pattern is found, it has a preferred end. -/
theorem exists_head?_of_found {e : Expr} {text : List Char} (h : e.found text = true) :
    ∃ skipped rest c, text = skipped ++ rest ∧
      (e.ends { before := skipped.reverse, after := rest, pos := skipped.length }).head? =
        some c := by
  obtain ⟨m, hm⟩ := Option.isSome_iff_exists.mp h
  obtain ⟨skipped, rest, rfl, hfirst, hlast⟩ := searchIn_eq_some hm
  rw [hfirst] at hlast
  simp only [List.append_nil, Nat.zero_add] at hlast
  exact ⟨skipped, rest, m.last, rfl, hlast⟩

/-- Where a pattern is found, it has an end. -/
theorem exists_ends_of_found {e : Expr} {text : List Char} (h : e.found text = true) :
    ∃ skipped rest c, text = skipped ++ rest ∧
      c ∈ e.ends { before := skipped.reverse, after := rest, pos := skipped.length } := by
  obtain ⟨skipped, rest, c, htext, hc⟩ := exists_head?_of_found h
  exact ⟨skipped, rest, c, htext, List.mem_of_head? hc⟩

end RailsUpgrade.Pattern
