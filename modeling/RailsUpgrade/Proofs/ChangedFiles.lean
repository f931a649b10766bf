import RailsUpgrade.Proofs.Layout
import RailsUpgrade.Proofs.ReleaseLine
import RailsUpgrade.Report.Terminal

/-!
# `RailsUpgrade.Proofs.ChangedFiles`: how changed files are named on a terminal

The paths of changed files are written as messages, so what looks like a tag in a path is taken out of
it. A path is named exactly if it is `Literal` and fits into the width:

* `piecesWith_of_tagless`: a text without tags is one piece;
* `piecesWeight_piecesWith`: every tag and every escape costs the text a bracket or a backslash;
* `messageLines_of_literal`, `literal_of_messageLines`: which paths come out as they are;
* `printMessages_eq_iff`: messages of one line each come out one after the other;
* `changed_listed_iff`: when the list of changed files is right.
-/

set_option autoImplicit false

namespace RailsUpgrade.Report

variable {width : Nat} {c : Char} {s t q name : List Char}

/-! ### Tags -/

theorem tagEnd?_append_bracket (s t : List Char) :
    tagEnd? (s ++ '[' :: t) = (tagEnd? s).map fun (tag, rest) => (tag, rest ++ '[' :: t) := by
  induction s with
  | nil => rfl
  | cons c s ih =>
    rw [List.cons_append, tagEnd?, tagEnd?]
    split
    · rfl
    · split
      · rfl
      · rw [ih, Option.map_map, Option.map_map]
        rfl

/-- A tag ends before the next one starts. -/
theorem tag?_append_bracket (hne : s ≠ []) (t : List Char) :
    tag? (s ++ '[' :: t) = (tag? s).map fun (tag, rest) => (tag, rest ++ '[' :: t) := by
  match s with
  | [c] => by_cases hc : c = '[' <;> simp_all [tag?, startsTag]
  | c :: d :: s =>
    by_cases hc : c = '['
    · subst hc
      simp only [List.cons_append, tag?]
      split
      · rw [tagEnd?_append_bracket, Option.map_map, Option.map_map]
        rfl
      · rfl
    · simp [tag?, hc]

theorem eq_of_tagEnd? {body rest : List Char} (h : tagEnd? s = some (body, rest)) :
    s = body ++ ']' :: rest := by
  induction s generalizing body with
  | nil => simp [tagEnd?] at h
  | cons c s ih =>
    rw [tagEnd?] at h
    split at h
    · rename_i hc
      simp_all
    · split at h
      · simp at h
      · obtain ⟨⟨tag, after⟩, htag, hpair⟩ := Option.map_eq_some_iff.mp h
        obtain ⟨rfl, rfl⟩ := Prod.mk.inj hpair
        rw [ih htag, List.cons_append]

theorem eq_of_tag? {body rest : List Char} (h : tag? s = some (body, rest)) :
    s = '[' :: (body ++ ']' :: rest) := by
  unfold tag? at h
  split at h
  · split at h
    · obtain ⟨⟨tag, after⟩, htag, hpair⟩ := Option.map_eq_some_iff.mp h
      obtain ⟨rfl, rfl⟩ := Prod.mk.inj hpair
      rw [eq_of_tagEnd? htag, List.cons_append]
    · simp at h
  · simp at h

/-- Only a bracket starts a tag. -/
theorem tag?_of_ne (hc : c ≠ '[') : tag? (c :: s) = none := by
  simp [tag?, hc]

/-- The name of a style that has a closing tag of its own. -/
structure IsStyleWord (name : List Char) : Prop where
  ne_nil : name ≠ []
  lower : ∀ c ∈ name, c.isLower = true

instance (name : List Char) : Decidable (IsStyleWord name) :=
  decidable_of_iff (name ≠ [] ∧ name.Forall fun c => c.isLower = true)
    ⟨fun h => ⟨h.1, List.forall_iff_forall_mem.mp h.2⟩,
      fun h => ⟨h.1, List.forall_iff_forall_mem.mpr h.2⟩⟩

theorem notMem_of_lower (hname : ∀ c ∈ name, c.isLower = true) (hc : c.isLower = false) : c ∉ name :=
  fun h => by simp [hname c h] at hc

theorem tagEnd?_lower (hname : ∀ c ∈ name, c.isLower = true) (rest : List Char) :
    tagEnd? (name ++ ']' :: rest) = some (name, rest) := by
  induction name with
  | nil => rfl
  | cons c name ih =>
    have hclose : c ≠ ']' := by rintro rfl; exact absurd (hname _ List.mem_cons_self) (by decide)
    have hopen : c ≠ '[' := by rintro rfl; exact absurd (hname _ List.mem_cons_self) (by decide)
    rw [List.cons_append, tagEnd?, if_neg (by simpa using hclose), if_neg (by simpa using hopen),
      ih fun x hx => hname x (List.mem_cons_of_mem _ hx)]
    rfl

/-- The tag that opens a style. -/
def openingTag (name : List Char) : List Char := '[' :: (name ++ [']'])

/-- The tag that closes a style. -/
def closingTag (name : List Char) : List Char := '[' :: '/' :: (name ++ [']'])

theorem tag?_openingTag (hname : IsStyleWord name) (rest : List Char) :
    tag? (openingTag name ++ rest) = some (name, rest) := by
  obtain ⟨c, more, rfl⟩ := List.exists_cons_of_ne_nil hname.ne_nil
  have hmore := tagEnd?_lower (fun x hx => hname.lower x (List.mem_cons_of_mem c hx)) rest
  have hc := hname.lower c List.mem_cons_self
  simp [openingTag, tag?, startsTag, hc, hmore]

/-- A closing tag does not make a text before it part of a tag. -/
theorem tag?_append_closingTag (hne : s ≠ []) (name : List Char) : tag? (s ++ closingTag name) =
    (tag? s).map fun (tag, rest) => (tag, rest ++ closingTag name) :=
  tag?_append_bracket hne _

theorem tag?_closingTag (hname : IsStyleWord name) :
    tag? (closingTag name) = some ('/' :: name, []) := by
  have hend := tagEnd?_lower hname.lower []
  simp [closingTag, tag?, startsTag, hend]

/-! ### Pieces -/

/-- A text without tags. -/
def Tagless (s : List Char) : Prop := ∀ r ∈ s.tails, tag? r = none

instance (s : List Char) : Decidable (Tagless s) :=
  inferInstanceAs (Decidable (∀ r ∈ s.tails, tag? r = none))

theorem tagless_cons : Tagless (c :: s) ↔ tag? (c :: s) = none ∧ Tagless s := by
  simp [Tagless, List.tails]

/-- The backslashes and the characters behind them are put together again. -/
theorem reverse_sofar (c : Char) (slashes : Nat) (sofar rest : List Char) :
    (c :: List.replicate slashes '\\' ++ sofar).reverse ++ rest =
      sofar.reverse ++ List.replicate slashes '\\' ++ c :: rest := by
  simp

/-- A text without tags in front of a closing tag is one piece. -/
theorem piecesWith_of_tagless (hname : IsStyleWord name) {fuel : Nat} (place slashes : Nat)
    (sofar : List Char) (hfuel : (q ++ closingTag name).length < fuel) (htags : Tagless q)
    (hlast : (List.replicate slashes '\\' ++ q).getLast? ≠ some '\\') :
    ∃ spot, piecesWith fuel place slashes sofar (q ++ closingTag name) =
      Piece.before (sofar.reverse ++ List.replicate slashes '\\' ++ q) [.tag spot ('/' :: name)] := by
  induction q generalizing fuel place slashes sofar with
  | nil =>
    obtain ⟨fuel, rfl⟩ := Nat.exists_eq_add_one_of_ne_zero (Nat.ne_zero_of_lt hfuel)
    have hnone : slashes = 0 := by
      cases slashes with
      | zero => rfl
      | succ n => simp [List.replicate_succ'] at hlast
    subst hnone
    have htag := tag?_closingTag hname
    have hnil : ∀ n k, piecesWith n k 0 [] [] = [] := fun n k => by cases n <;> rfl
    refine ⟨place, ?_⟩
    rw [List.nil_append, closingTag] at *
    simp only [piecesWith, htag, hnil]
    simp [Piece.before]
  | cons c q ih =>
    obtain ⟨fuel, rfl⟩ := Nat.exists_eq_add_one_of_ne_zero (Nat.ne_zero_of_lt hfuel)
    obtain ⟨htag, hmore⟩ := tagless_cons.mp htags
    have hrest : (q ++ closingTag name).length < fuel := by simpa using hfuel
    rw [List.cons_append]
    -- Backslashes are gathered until another character comes, and the text does not end in one.
    by_cases hc : c = '\\'
    · subst hc
      obtain ⟨spot, hspot⟩ := ih (place + 1) (slashes + 1) sofar hrest hmore
        (by simpa [List.replicate_succ'] using hlast)
      refine ⟨spot, ?_⟩
      rw [piecesWith, if_pos (by rfl), hspot]
      simp [List.replicate_succ']
    · have hnone : tag? (c :: (q ++ closingTag name)) = none := by
        have happend := tag?_append_closingTag (List.cons_ne_nil c q) name
        rwa [htag] at happend
      have hlast : (List.replicate 0 '\\' ++ q).getLast? ≠ some '\\' := by
        cases q with
        | nil => simp
        | cons d q =>
          rw [List.getLast?_append_of_ne_nil _ (by simp), List.getLast?_cons_cons] at hlast
          simpa using hlast
      obtain ⟨spot, hspot⟩ := ih (place + 1) 0 (c :: List.replicate slashes '\\' ++ sofar) hrest
        hmore hlast
      refine ⟨spot, ?_⟩
      rw [piecesWith, if_neg (by simpa using hc), hnone]
      simp only
      rw [hspot, List.replicate_zero, List.append_nil, reverse_sofar]

/-- Characters that start nothing are passed over. -/
theorem piecesWith_append {lead : List Char} (hlead : ∀ c ∈ lead, c ≠ '[' ∧ c ≠ '\\')
    (fuel place : Nat) (sofar rest : List Char) :
    piecesWith (fuel + lead.length) place 0 sofar (lead ++ rest) =
      piecesWith fuel (place + lead.length) 0 (lead.reverse ++ sofar) rest := by
  induction lead generalizing place sofar with
  | nil => rfl
  | cons c lead ih =>
    obtain ⟨hopen, hslash⟩ := hlead c List.mem_cons_self
    rw [List.length_cons, ← Nat.add_assoc, List.cons_append, piecesWith,
      if_neg (by simpa using hslash), tag?_of_ne hopen]
    simp only [List.replicate_zero, List.cons_append, List.nil_append]
    rw [ih fun x hx => hlead x (List.mem_cons_of_mem _ hx)]
    simp [Nat.add_assoc, Nat.add_comm 1]

/-- An opening tag cuts a text off. -/
theorem pieces_openingTag (hname : IsStyleWord name) {lead : List Char} (hne : lead ≠ [])
    (hlead : ∀ c ∈ lead, c ≠ '[' ∧ c ≠ '\\') (rest : List Char) :
    ∃ fuel place, rest.length < fuel ∧ pieces (lead ++ openingTag name ++ rest) =
      .text lead :: .tag lead.length name :: piecesWith fuel place 0 [] rest := by
  have hlength : (lead ++ openingTag name ++ rest).length + 1 =
      (name.length + 2 + rest.length + 1) + lead.length := by
    simp [openingTag]
    omega
  have htag := tag?_openingTag hname rest
  refine ⟨name.length + 2 + rest.length, 0 + lead.length + name.length + 2, by omega, ?_⟩
  rw [pieces, hlength, List.append_assoc, piecesWith_append hlead, List.append_nil]
  rw [openingTag, List.cons_append] at *
  simp only [piecesWith, htag]
  simp [Piece.before, hne]

/-! ### What tags and escapes cost -/

/-- What a text holds that the markup may take out of it: brackets, and backslashes twice. -/
def weight (s : List Char) : Nat := 2 * s.count '\\' + s.count '['

theorem weight_append (s t : List Char) : weight (s ++ t) = weight s + weight t := by
  simp only [weight, List.count_append]
  ring

theorem weight_cons (c : Char) (s : List Char) : weight (c :: s) = weight [c] + weight s :=
  weight_append [c] s

theorem weight_slashes (n : Nat) : weight (List.replicate n '\\') = 2 * n := by
  simp [weight, List.count_replicate]

theorem weight_reverse (s : List Char) : weight s.reverse = weight s := by
  simp [weight]

theorem weight_mono (h : s.Sublist t) : weight s ≤ weight t := by
  have hslash := h.count_le '\\'
  have hopen := h.count_le '['
  unfold weight
  omega

/-- What the pieces of a message hold. -/
def Piece.weight : Piece → Nat
  | .text s => Report.weight s
  | .tag _ _ => 0

/-- What pieces hold together. -/
def piecesWeight (ps : List Piece) : Nat := (ps.map Piece.weight).sum

theorem piecesWeight_before (s : List Char) (ps : List Piece) :
    piecesWeight (Piece.before s ps) = weight s + piecesWeight ps := by
  unfold Piece.before
  split
  · rename_i hs
    simp [List.isEmpty_iff.mp hs, weight]
  · simp [piecesWeight, Piece.weight]

theorem weight_closingTag (hname : IsStyleWord name) : weight (closingTag name) = 1 := by
  have hslash := notMem_of_lower hname.lower (c := '\\') (by decide)
  have hopen := notMem_of_lower hname.lower (c := '[') (by decide)
  simp [weight, closingTag, List.count_eq_zero.mpr hslash, List.count_eq_zero.mpr hopen]

/-- A tag is not kept, unless there is an odd number of backslashes in front of it. -/
theorem piecesWeight_of_tag {body rest : List Char} (h : tag? s = some (body, rest))
    (fuel place slashes : Nat) (sofar : List Char) :
    ∃ spot, piecesWeight (piecesWith (fuel + 1) place slashes sofar s) =
      weight sofar + 2 * (slashes / 2) + slashes % 2 * weight ('[' :: (body ++ [']'])) +
        piecesWeight (piecesWith fuel spot 0 [] rest) := by
  have hs := eq_of_tag? h
  refine ⟨place + body.length + 2, ?_⟩
  rw [hs] at h ⊢
  rw [piecesWith, if_neg (by decide), h]
  simp only [piecesWeight_before, weight_slashes, weight_reverse]
  obtain heven | hodd := Nat.mod_two_eq_zero_or_one slashes
  · simp [heven, piecesWeight, Piece.weight, Nat.add_assoc]
  · simp [hodd, piecesWeight, Piece.weight, Nat.add_assoc]

/-- Cutting a text into pieces loses a bracket for every tag and half of the backslashes in front of
one, so nothing is lost only if there are no tags. -/
theorem piecesWeight_piecesWith (hname : IsStyleWord name) {fuel : Nat} (place slashes : Nat)
    (sofar : List Char) (hfuel : (q ++ closingTag name).length < fuel) :
    let held := weight (sofar.reverse ++ List.replicate slashes '\\' ++ q)
    let kept := piecesWeight (piecesWith fuel place slashes sofar (q ++ closingTag name))
    kept ≤ held ∧ (kept = held →
      Tagless q ∧ (List.replicate slashes '\\' ++ q).getLast? ≠ some '\\') := by
  intro held kept
  induction fuel generalizing place slashes sofar q with
  | zero => exact absurd hfuel (Nat.not_lt_zero _)
  | succ fuel ih =>
    cases q with
    | nil =>
      obtain ⟨spot, hkept⟩ :=
        piecesWeight_of_tag (tag?_closingTag hname) fuel place slashes sofar
      have hclosing : weight ('[' :: ('/' :: name ++ [']'])) = 1 := weight_closingTag hname
      have hend : piecesWeight (piecesWith fuel spot 0 [] []) = 0 := by cases fuel <;> rfl
      have hheld : held = weight sofar + 2 * slashes := by
        simp only [held, weight_append, weight_reverse, weight_slashes]
        rfl
      have hkept : kept = weight sofar + 2 * (slashes / 2) + slashes % 2 := by
        rw [show kept = _ from hkept, hclosing, hend, Nat.mul_one, Nat.add_zero]
      refine ⟨by omega, fun heq => ⟨by simp [Tagless, tag?], ?_⟩⟩
      have hnone : slashes = 0 := by omega
      simp [hnone]
    | cons c q =>
      have hrest : (q ++ closingTag name).length < fuel := by simpa using hfuel
      cases htag : tag? (c :: q) with
      | some found =>
        obtain ⟨body, rest⟩ := found
        have hq := eq_of_tag? htag
        have happend := tag?_append_closingTag (List.cons_ne_nil c q) name
        rw [htag] at happend
        obtain ⟨spot, hkept⟩ := piecesWeight_of_tag happend fuel place slashes sofar
        have hbody : (rest ++ closingTag name).length < fuel := by
          have hlength := congrArg List.length hq
          simp only [List.length_cons, List.length_append] at hlength hrest ⊢
          omega
        have hless := (ih spot 0 [] hbody).1
        have hheld : held = weight sofar + 2 * slashes +
            (weight ('[' :: (body ++ [']'])) + weight rest) := by
          have hsplit : '[' :: (body ++ ']' :: rest) = '[' :: (body ++ [']']) ++ rest := by simp
          simp only [held, hq, hsplit, weight_append, weight_reverse, weight_slashes]
        have hopen : 0 < weight ('[' :: (body ++ [']'])) := by
          simp [weight]
        have hkept : kept = _ := hkept
        -- Either the tag is lost, or a backslash that keeps it.
        have hlost : kept < held := by
          rw [hheld, hkept]
          simp only [List.replicate_zero, List.reverse_nil, List.nil_append] at hless
          obtain heven | hodd := Nat.mod_two_eq_zero_or_one slashes
          · rw [heven, Nat.zero_mul]
            omega
          · rw [hodd, Nat.one_mul]
            omega
        exact ⟨hlost.le, fun heq => absurd heq hlost.ne⟩
      | none =>
        by_cases hc : c = '\\'
        · have hstep : held = weight (sofar.reverse ++ List.replicate (slashes + 1) '\\' ++ q) ∧
              kept = piecesWeight
                (piecesWith fuel (place + 1) (slashes + 1) sofar (q ++ closingTag name)) := by
            subst hc
            refine ⟨by simp [held, List.replicate_succ'], ?_⟩
            simp only [kept, List.cons_append]
            rw [piecesWith, if_pos (by rfl)]
          obtain ⟨hle, heq⟩ := ih (place + 1) (slashes + 1) sofar hrest
          rw [hstep.1, hstep.2]
          refine ⟨hle, fun hsame => ?_⟩
          obtain ⟨htags, hlast⟩ := heq hsame
          exact ⟨tagless_cons.mpr ⟨htag, htags⟩, by simpa [hc, List.replicate_succ'] using hlast⟩
        · have hnone : tag? (c :: (q ++ closingTag name)) = none := by
            have happend := tag?_append_closingTag (List.cons_ne_nil c q) name
            rwa [htag] at happend
          obtain ⟨hle, heq⟩ := ih (place + 1) 0 (c :: List.replicate slashes '\\' ++ sofar) hrest
          have hstep : kept = piecesWeight (piecesWith fuel (place + 1) 0
              (c :: List.replicate slashes '\\' ++ sofar) (q ++ closingTag name)) := by
            simp only [kept, List.cons_append]
            rw [piecesWith, if_neg (by simpa using hc), hnone]
            rfl
          rw [List.replicate_zero, List.append_nil, reverse_sofar] at hle heq
          rw [hstep]
          refine ⟨hle, fun hsame => ?_⟩
          obtain ⟨htags, hlast⟩ := heq hsame
          refine ⟨tagless_cons.mpr ⟨htag, htags⟩, ?_⟩
          cases q with
          | nil => simpa using hc
          | cons d q => simpa [List.getLast?_append] using hlast

/-- The texts of a message are made of its characters. -/
theorem mem_of_mem_piecesWith {fuel place slashes : Nat} {sofar text : List Char}
    (htext : .text text ∈ piecesWith fuel place slashes sofar s) (hc : c ∈ text) :
    c = '\\' ∨ c ∈ sofar ∨ c ∈ s := by
  induction fuel generalizing place slashes sofar s with
  | zero => simp [piecesWith] at htext
  | succ fuel ih =>
    have hbefore : ∀ {u : List Char} {ps : List Piece}, .text text ∈ Piece.before u ps →
        text = u ∨ .text text ∈ ps := fun {u ps} h => by
      unfold Piece.before at h
      split at h <;> simp_all
    cases s with
    | nil =>
      obtain rfl | hnone := hbefore htext
      · simp only [List.mem_append, List.mem_reverse, List.mem_replicate] at hc
        tauto
      · simp at hnone
    | cons d s =>
      rw [piecesWith] at htext
      split at htext
      · obtain h | h | h := ih htext <;> simp [h]
      · split at htext
        · obtain h | h | h := ih htext
          · exact .inl h
          · simp only [List.cons_append, List.mem_cons, List.mem_append, List.mem_replicate] at h
            simp only [List.mem_cons]
            tauto
          · simp [h]
        -- A tag is found, with what was gathered and its backslashes in front of it.
        · rename_i body rest htag
          have hs := eq_of_tag? htag
          obtain rfl | htext := hbefore htext
          · exact .inr (.inl (List.mem_reverse.mp hc))
          obtain rfl | htext := hbefore htext
          · exact .inl (List.eq_of_mem_replicate hc)
          obtain htext | htext := List.mem_cons.mp htext
          · split at htext
            · obtain rfl := Piece.text.inj htext
              rw [hs]
              simp only [List.cons_append, List.mem_cons, List.mem_append] at hc ⊢
              tauto
            · simp at htext
          · rw [hs]
            obtain h | h | h := ih htext
            · exact .inl h
            · simp at h
            · simp [h]

theorem unescaped_sublist (s : List Char) : (unescaped s).Sublist s := by
  induction s using unescaped.induct with
  | case1 => exact List.Sublist.refl _
  | case2 rest ih =>
    rw [unescaped]
    exact (ih.cons_cons '[').cons '\\'
  | case3 c rest hne ih =>
    rw [unescaped]
    · exact ih.cons_cons c
    · exact hne

/-- A text that keeps its backslashes has none in front of a bracket. -/
theorem unescaped_eq_self_of_weight (h : weight (unescaped s) = weight s) : unescaped s = s := by
  induction s using unescaped.induct with
  | case1 => rfl
  | case2 rest ih =>
    have hle := weight_mono (unescaped_sublist rest)
    rw [unescaped, weight_cons, weight_cons '\\', weight_cons '[' rest] at h
    have hslash : weight ['\\'] = 2 := rfl
    omega
  | case3 c rest hne ih =>
    have hstep : unescaped (c :: rest) = c :: unescaped rest := by
      rw [unescaped]
      exact hne
    rw [hstep, weight_cons, weight_cons c rest] at h
    rw [hstep, ih (by omega)]

theorem betweenColons?_of_notMem (h : ':' ∉ s) : betweenColons? (c :: s) = none := by
  unfold betweenColons?
  split
  · rename_i rest heq
    obtain ⟨-, rfl⟩ := List.cons.inj heq
    simp only
    split
    · rename_i after hdrop
      have hmem := List.mem_cons_self (a := ':') (l := after)
      rw [← hdrop] at hmem
      exact absurd (List.mem_of_mem_drop hmem) h
    · rfl
  · rfl

/-- A picture is called for by two colons. -/
theorem pictured_of_count (h : s.count ':' ≤ 1) : pictured s = s := by
  have hwith : ∀ fuel (s : List Char), s.count ':' ≤ 1 → picturedWith fuel s = s := by
    intro fuel
    induction fuel with
    | zero => exact fun _ _ => rfl
    | succ fuel ih =>
      intro s hs
      cases s with
      | nil => rfl
      | cons c s =>
        have hnone : betweenColons? (c :: s) = none := by
          by_cases hc : c = ':'
          · rw [hc, List.count_cons_self] at hs
            exact betweenColons?_of_notMem (List.count_eq_zero.mp (by omega))
          · simp [betweenColons?, hc]
        rw [picturedWith, hnone]
        simp only [ih s ((List.sublist_cons_self c s).count_le ':' |>.trans hs)]
  exact hwith s.length s h

theorem pictured_of_notMem (h : ':' ∉ s) : pictured s = s :=
  pictured_of_count ((List.count_eq_zero.mpr h).le.trans (Nat.zero_le 1))

/-- Without pictures, nothing comes out of pieces that they do not hold. -/
theorem weight_le_of_plainPieces {opened : List (List Char)} {ps : List Piece}
    (hcolon : ∀ text, .text text ∈ ps → ':' ∉ text) (h : plainPieces opened ps = .ok t) :
    weight t ≤ piecesWeight ps := by
  have hcons : ∀ (p : Piece) ps, piecesWeight (p :: ps) = p.weight + piecesWeight ps :=
    fun _ _ => by simp [piecesWeight]
  induction ps generalizing opened t with
  | nil =>
    obtain rfl := Except.ok.inj h
    simp [weight]
  | cons p ps ih =>
    have hrest := fun text htext => hcolon text (List.mem_cons_of_mem p htext)
    rw [hcons]
    cases p with
    | text s =>
      have hs := hcolon s List.mem_cons_self
      rw [plainPieces, pictured_of_notMem fun hmem => hs ((unescaped_sublist s).mem hmem)] at h
      -- The text of a piece without colons names no picture, so it can only lose escapes.
      cases hmore : plainPieces opened ps with
      | error fault => simp [hmore, Except.map] at h
      | ok more =>
        rw [hmore] at h
        obtain rfl := Except.ok.inj h
        rw [weight_append]
        exact Nat.add_le_add (weight_mono (unescaped_sublist s)) (ih hrest hmore)
    | tag place body =>
      refine Nat.le_add_left_of_le ?_
      rw [plainPieces.eq_def] at h
      simp only at h
      split at h
      · split at h
        · split at h
          · simp at h
          · exact ih hrest h
        · split at h
          · exact ih hrest h
          · simp at h
      · exact ih hrest h

/-! ### Paths as messages -/

theorem unescaped_eq_self_iff : unescaped s = s ↔ ¬ ['\\', '['] <:+: s := by
  induction s using unescaped.induct with
  | case1 => simp [unescaped]
  | case2 rest ih =>
    refine iff_of_false (fun h => ?_) fun h => h ⟨[], rest, rfl⟩
    have hlength := congrArg List.length h
    have hle := (unescaped_sublist rest).length_le
    rw [unescaped] at hlength
    simp only [List.length_cons] at hlength
    omega
  | case3 c rest hne ih =>
    have hstep : unescaped (c :: rest) = c :: unescaped rest := by
      rw [unescaped]
      exact hne
    have hstart : ¬ ['\\', '['] <+: c :: rest := by
      rintro ⟨tail, htail⟩
      obtain ⟨hc, hrest⟩ := List.cons.inj htail
      exact hne tail hc.symm hrest.symm
    rw [hstep, List.infix_cons_iff, or_iff_right hstart, ← ih, List.cons_inj_right]

/-- A text in which the markup finds nothing. -/
structure Literal (s : List Char) : Prop where
  tagless : Tagless s
  unescaped : ¬ ['\\', '['] <:+: s
  last : s.getLast? ≠ some '\\'
  pictured : pictured s = s

instance (s : List Char) : Decidable (Literal s) :=
  decidable_of_iff (Tagless s ∧ unescaped s = s ∧ s.getLast? ≠ some '\\' ∧ pictured s = s)
    ⟨fun ⟨htags, hescapes, hlast, hpictures⟩ =>
      ⟨htags, unescaped_eq_self_iff.mp hescapes, hlast, hpictures⟩,
    fun h => ⟨h.tagless, unescaped_eq_self_iff.mpr h.unescaped, h.last, h.pictured⟩⟩

theorem tagName_of_notMem (h : '=' ∉ s) : tagName s = s := by
  rw [tagName, List.takeWhile_eq_self_iff]
  intro c hc
  simpa using fun heq : c = '=' => h (heq ▸ hc)

theorem trim_lower (hname : ∀ c ∈ name, c.isLower = true) : Text.trim name = name :=
  Text.trim_eq_self fun c hc => by
    obtain ⟨hlower, hupper⟩ := Bool.and_eq_true_iff.mp (hname c hc)
    have hlow : 97 ≤ c.toNat := of_decide_eq_true hlower
    have hhigh : c.toNat ≤ 122 := of_decide_eq_true hupper
    simp only [Text.isBlank, Bool.or_eq_false_iff, Bool.and_eq_false_iff, decide_eq_false_iff_not]
    omega

/-- An opening tag opens its style. -/
theorem plainPieces_open (hname : IsStyleWord name) (opened : List (List Char)) (place : Nat)
    (ps : List Piece) :
    plainPieces opened (.tag place name :: ps) = plainPieces (styleName name :: opened) ps := by
  have hbody : tagName name = name := tagName_of_notMem (notMem_of_lower hname.lower (by decide))
  rw [plainPieces.eq_def]
  simp only [hbody]
  split
  · exact absurd List.mem_cons_self (notMem_of_lower hname.lower (c := '/') (by decide))
  · rfl

/-- A closing tag closes its style if that is open. -/
theorem plainPieces_close (hname : IsStyleWord name) {opened : List (List Char)}
    (hopened : styleName name ∈ opened) (place : Nat) (ps : List Piece) :
    plainPieces opened (.tag place ('/' :: name) :: ps) =
      plainPieces (opened.erase (styleName name)) ps := by
  have hbody : tagName ('/' :: name) = '/' :: name :=
    tagName_of_notMem fun h => by
      obtain h | h := List.mem_cons.mp h
      · exact absurd h (by decide)
      · exact notMem_of_lower hname.lower (by decide) h
  have hcontains : opened.contains (styleName name) = true := by simpa using hopened
  rw [plainPieces.eq_def]
  simp only [hbody, trim_lower hname.lower, List.isEmpty_iff, hname.ne_nil, if_false, hcontains,
    if_true]

/-- The text in front of a style. -/
structure IsLead (lead : List Char) : Prop where
  ne_nil : lead ≠ []
  plain : ∀ c ∈ lead, c ≠ '[' ∧ c ≠ '\\' ∧ c ≠ ':'

instance (lead : List Char) : Decidable (IsLead lead) :=
  decidable_of_iff (lead ≠ [] ∧ lead.Forall fun c => c ≠ '[' ∧ c ≠ '\\' ∧ c ≠ ':')
    ⟨fun h => ⟨h.1, List.forall_iff_forall_mem.mp h.2⟩,
      fun h => ⟨h.1, List.forall_iff_forall_mem.mpr h.2⟩⟩

/-- What a message with a style comes out as is up to what is in the style. -/
theorem plain_styled {lead : List Char} (hname : IsStyleWord name) (hlead : IsLead lead)
    (q : List Char) : ∃ fuel place, (q ++ closingTag name).length < fuel ∧
      plain (lead ++ openingTag name ++ (q ++ closingTag name)) =
        (plainPieces [styleName name] (piecesWith fuel place 0 [] (q ++ closingTag name))).map
          (lead ++ ·) := by
  obtain ⟨fuel, place, hfuel, hpieces⟩ := pieces_openingTag hname hlead.ne_nil
    (fun c hc => ⟨(hlead.plain c hc).1, (hlead.plain c hc).2.1⟩) (q ++ closingTag name)
  have hopen : '[' ∈ lead ++ openingTag name ++ (q ++ closingTag name) := by simp [openingTag]
  have hunescaped : unescaped lead = lead := unescaped_eq_self_iff.mpr fun h =>
    (hlead.plain '\\' (h.mem (List.mem_cons_self))).2.1 rfl
  have hpictured : pictured lead = lead :=
    pictured_of_notMem fun h => (hlead.plain ':' h).2.2 rfl
  refine ⟨fuel, place, hfuel, ?_⟩
  rw [plain, if_pos (by simpa using hopen), hpieces, plainPieces, hunescaped, hpictured,
    plainPieces_open hname]

/-- A closing tag ends what is in the style. -/
theorem plainPieces_closed (hname : IsStyleWord name) (q : List Char) (spot : Nat) :
    plainPieces [styleName name] (Piece.before q [.tag spot ('/' :: name)]) =
      .ok (pictured (unescaped q)) := by
  have hclose : plainPieces [styleName name] [.tag spot ('/' :: name)] = .ok [] := by
    rw [plainPieces_close hname (List.mem_singleton_self _)]
    rfl
  rw [Piece.before]
  split
  · rename_i hnil
    rw [hclose, List.isEmpty_iff.mp hnil]
    rfl
  · rw [plainPieces, hclose]
    simp [Except.map]

/-- A text in which the markup finds nothing comes out as it is. -/
theorem plain_of_literal {lead : List Char} (hname : IsStyleWord name) (hlead : IsLead lead)
    (hq : Literal q) :
    plain (lead ++ openingTag name ++ (q ++ closingTag name)) = .ok (lead ++ q) := by
  obtain ⟨fuel, place, hfuel, hplain⟩ := plain_styled hname hlead q
  obtain ⟨spot, hpieces⟩ := piecesWith_of_tagless hname place 0 [] hfuel hq.tagless
    (by simpa using hq.last)
  rw [hplain, hpieces, List.reverse_nil, List.replicate_zero, List.nil_append, List.nil_append,
    plainPieces_closed hname, unescaped_eq_self_iff.mpr hq.unescaped, hq.pictured]
  rfl

/-- Only a text in which the markup finds nothing keeps its brackets and backslashes. -/
theorem literal_of_plain {lead : List Char} (hname : IsStyleWord name) (hlead : IsLead lead)
    (hcolon : ':' ∉ q) (h : plain (lead ++ openingTag name ++ (q ++ closingTag name)) = .ok s) :
    weight s ≤ weight q ∧ (weight s = weight q → Literal q) := by
  obtain ⟨fuel, place, hfuel, hplain⟩ := plain_styled hname hlead q
  have hlead : weight lead = 0 := by
    have hslash : lead.count '\\' = 0 :=
      List.count_eq_zero.mpr fun h => (hlead.plain _ h).2.1 rfl
    have hopen : lead.count '[' = 0 := List.count_eq_zero.mpr fun h => (hlead.plain _ h).1 rfl
    rw [weight, hslash, hopen]
  -- No part of the message holds a colon, so that no picture is put in anywhere.
  have htexts : ∀ text, .text text ∈ piecesWith fuel place 0 [] (q ++ closingTag name) →
      ':' ∉ text := fun text htext hmem => by
    obtain hc | hc | hc := mem_of_mem_piecesWith htext hmem
    · exact absurd hc (by decide)
    · simp at hc
    · obtain hc | hc := List.mem_append.mp hc
      · exact hcolon hc
      · simp [closingTag, notMem_of_lower hname.lower (c := ':') (by decide)] at hc
  rw [hplain] at h
  cases hstyled : plainPieces [styleName name] (piecesWith fuel place 0 [] (q ++ closingTag name)) with
  | error fault => simp [hstyled, Except.map] at h
  | ok t =>
    rw [hstyled] at h
    obtain rfl := Except.ok.inj h
    have hpieces := weight_le_of_plainPieces htexts hstyled
    obtain ⟨hle, hsame⟩ := piecesWeight_piecesWith hname place 0 [] hfuel
    simp only [List.reverse_nil, List.replicate_zero, List.nil_append] at hle hsame
    rw [weight_append, hlead, Nat.zero_add]
    refine ⟨hpieces.trans hle, fun heq => ?_⟩
    -- Nothing was lost, hence there is no tag in front of the closing one.
    obtain ⟨htags, hlast⟩ := hsame (by omega)
    obtain ⟨spot, hone⟩ := piecesWith_of_tagless hname place 0 [] hfuel htags
      (by simpa using hlast)
    rw [hone, List.reverse_nil, List.replicate_zero, List.nil_append, List.nil_append,
      plainPieces_closed hname, pictured_of_notMem fun h => hcolon ((unescaped_sublist q).mem h)]
      at hstyled
    obtain rfl := Except.ok.inj hstyled
    exact ⟨htags, unescaped_eq_self_iff.mp (unescaped_eq_self_of_weight heq), hlast,
      pictured_of_notMem hcolon⟩

/-! ### Lines for paths -/

/-- The message about a changed file. -/
def pathMessage (path : String) : String := "  [green]" ++ path ++ "[/green]"

/-- The line that names a changed file. -/
def pathLine (path : String) : List Char := ' ' :: ' ' :: path.toList

/-- A path that its message names: the markup finds nothing in it, no character of it moves the cursor,
and its line fits. -/
structure Showable (width : Nat) (path : String) : Prop where
  literal : Literal path.toList
  controls : ∀ c ∈ path.toList, c.toNat < 7 ∨ 13 < c.toNat
  fits : Fits width (pathLine path)

instance (width : Nat) (path : String) : Decidable (Showable width path) :=
  decidable_of_iff (Literal path.toList ∧ (path.toList.Forall fun c => c.toNat < 7 ∨ 13 < c.toNat) ∧
      Fits width (pathLine path))
    ⟨fun ⟨h₁, h₂, h₃⟩ => ⟨h₁, List.forall_iff_forall_mem.mp h₂, h₃⟩,
      fun h => ⟨h.1, List.forall_iff_forall_mem.mpr h.2, h.3⟩⟩

theorem isStyleWord_green : IsStyleWord "green".toList := by decide

theorem isLead_blanks : IsLead "  ".toList := by decide

theorem toList_pathMessage (path : String) : (pathMessage path).toList =
    "  ".toList ++ openingTag "green".toList ++ (path.toList ++ closingTag "green".toList) := by
  have hopen : "  [green]".toList = "  ".toList ++ openingTag "green".toList := by decide
  have hclose : "[/green]".toList = closingTag "green".toList := by decide
  rw [pathMessage, String.toList_append, String.toList_append, hopen, hclose, List.append_assoc]

theorem pathLine_eq (path : String) : pathLine path = "  ".toList ++ path.toList := rfl

theorem printable_of_controls (h : ∀ c ∈ s, c.toNat < 7 ∨ 13 < c.toNat) : printable s = s := by
  rw [printable, List.filter_eq_self]
  intro c hc
  have hcode := h c hc
  simp [controls]
  omega

/-- A path that can be shown is named by its message. -/
theorem messageLines_of_showable {path : String} (hwidth : width ≠ 0) (h : Showable width path) :
    messageLines width (pathMessage path) = .ok [pathLine path] := by
  have hblanks : ∀ c ∈ "  ".toList, c.toNat < 7 ∨ 13 < c.toNat :=
    List.forall_iff_forall_mem.mp (by decide)
  have hcontrols : ∀ c ∈ pathLine path, c.toNat < 7 ∨ 13 < c.toNat := fun c hc => by
    rw [pathLine_eq] at hc
    obtain hc | hc := List.mem_append.mp hc
    · exact hblanks c hc
    · exact h.controls c hc
  have hnone : ∀ {c : Char}, 7 ≤ c.toNat → c.toNat ≤ 13 → c ∉ pathLine path := fun hlow hhigh hc => by
    have hcode := hcontrols _ hc
    omega
  rw [messageLines, toList_pathMessage, plain_of_literal isStyleWord_green isLead_blanks h.literal,
    ← pathLine_eq]
  simp only [Except.map]
  rw [printable_of_controls hcontrols,
    (wrap_eq_singleton_iff hwidth (hnone (by decide) (by decide))).mpr
      ⟨hnone (by decide) (by decide), h.fits⟩]

theorem weight_shown_le (width : Nat) (line : List Char) : weight (shown width line) ≤ weight line := by
  have hslash := count_shown_le (c := '\\') (by decide) width line
  have hopen := count_shown_le (c := '[') (by decide) width line
  unfold weight
  omega

/-- A text that keeps all its characters has no character that moves the cursor. -/
theorem controls_of_printable (hsame : printable s = s) (hbreak : '\n' ∉ s) (htab : '\t' ∉ s) :
    ∀ c ∈ s, c.toNat < 7 ∨ 13 < c.toNat := by
  intro c hc
  have hcode := List.filter_eq_self.mp hsame c hc
  have hne : ∀ d : Char, d ∉ s → c.toNat ≠ d.toNat := fun d hd heq => by
    rw [← Char.ofNat_toNat c, heq, Char.ofNat_toNat] at hc
    exact hd hc
  have hbreak : c.toNat ≠ 10 := hne '\n' hbreak
  have htab : c.toNat ≠ 9 := hne '\t' htab
  simp [controls] at hcode
  omega

/-- Only a path that can be shown is named by its message. -/
theorem showable_of_messageLines {path : String} (hcolon : ':' ∉ path.toList)
    (h : messageLines width (pathMessage path) = .ok [pathLine path]) : Showable width path := by
  rw [messageLines, toList_pathMessage] at h
  obtain ⟨s, hplain, hwrap⟩ : ∃ s, plain ("  ".toList ++ openingTag "green".toList ++
      (path.toList ++ closingTag "green".toList)) = .ok s ∧
        wrap .fold width (printable s) = [pathLine path] := by
    revert h
    cases plain ("  ".toList ++ openingTag "green".toList ++
      (path.toList ++ closingTag "green".toList)) with
    | error fault => exact fun h => nomatch h
    | ok s => exact fun h => ⟨s, rfl, Except.ok.inj h⟩
  obtain ⟨hle, hliteral⟩ := literal_of_plain isStyleWord_green isLead_blanks hcolon hplain
  obtain ⟨hbreak, hshown⟩ := wrap_eq_singleton hwrap
  have hsub : (printable s).Sublist s := List.filter_sublist
  have hblanks : weight (pathLine path) = weight path.toList := by
    rw [pathLine_eq, weight_append]
    exact Nat.zero_add _
  -- The line holds as much as the path, so nothing was lost on the way.
  have hpath : Literal path.toList := hliteral (by
    have hline := weight_shown_le width (printable s)
    have hprint := weight_mono hsub
    rw [← hshown] at hline
    omega)
  rw [plain_of_literal isStyleWord_green isLead_blanks hpath] at hplain
  obtain rfl := Except.ok.inj hplain
  rw [← pathLine_eq] at hsub hshown hbreak
  have htab : '\t' ∉ pathLine path := by
    rw [hshown]
    exact tab_notMem_shown width _
  have hsame : printable (pathLine path) = pathLine path := by
    refine hsub.eq_of_length_le ?_
    have hlength : (shown width (printable (pathLine path))).length ≤
        (printable (pathLine path)).length :=
      length_shown_le fun hmem => htab (hsub.mem hmem)
    rwa [← hshown] at hlength
  rw [hsame] at hshown hbreak
  refine ⟨hpath, fun c hc => ?_, (shown_eq_self_iff htab).mp hshown.symm⟩
  exact controls_of_printable hsame hbreak htab c (by simp [pathLine, hc])

/-! ### The list -/

/-- A message that is written comes out as some line. -/
theorem messageLines_ne_nil (hwidth : width ≠ 0) {message : String} {lines : List (List Char)}
    (h : messageLines width message = .ok lines) : lines ≠ [] := by
  rw [messageLines] at h
  cases hplain : plain message.toList with
  | error fault => rw [hplain] at h; exact nomatch h
  | ok s =>
    rw [hplain] at h
    obtain rfl := Except.ok.inj h
    exact wrap_ne_nil _ hwidth _

theorem length_le_of_printMessages (hwidth : width ≠ 0) {messages : List String}
    (h : (printMessages width messages).fault = none) :
    messages.length ≤ (printMessages width messages).lines.length := by
  induction messages with
  | nil => exact Nat.zero_le _
  | cons message messages ih =>
    rw [printMessages] at h ⊢
    cases hlines : messageLines width message with
    | error fault => simp [hlines] at h
    | ok lines =>
      have hpos := List.length_pos_of_ne_nil (messageLines_ne_nil hwidth hlines)
      rw [hlines] at h
      have hmore := ih h
      simp only [List.length_append, List.length_cons]
      omega

/-- As many lines as messages come out exactly if each message comes out as its line. -/
theorem printMessages_eq_iff (hwidth : width ≠ 0) {α : Type} (message : α → String)
    (line : α → List Char) (items : List α) :
    printMessages width (items.map message) = ⟨items.map line, none⟩ ↔
      ∀ item ∈ items, messageLines width (message item) = .ok [line item] := by
  induction items with
  | nil => simp [printMessages]
  | cons item items ih =>
    rw [List.map_cons, List.map_cons, List.forall_mem_cons, ← ih, printMessages]
    cases hlines : messageLines width (message item) with
    | error fault => simp
    | ok lines =>
      simp only [Printout.mk.injEq, Except.ok.injEq]
      constructor
      · rintro ⟨hall, hfault⟩
        -- No message is without a line, so none has two.
        have hone : lines.length = 1 := by
          have hpos := List.length_pos_of_ne_nil (messageLines_ne_nil hwidth hlines)
          have hmore := length_le_of_printMessages hwidth hfault
          have hlength := congrArg List.length hall
          simp only [List.length_append, List.length_cons, List.length_map] at hlength hmore
          omega
        obtain ⟨first, rfl⟩ := List.length_eq_one_iff.mp hone
        obtain ⟨rfl, hrest⟩ := List.cons.inj hall
        refine ⟨rfl, ?_⟩
        rw [← hrest, ← hfault]
        rfl
      · rintro ⟨rfl, hrest⟩
        rw [hrest]
        exact ⟨rfl, rfl⟩

end RailsUpgrade.Report

namespace RailsUpgrade.Outcome

open Report

/-- The lines above the list of changed files. -/
def listHeading (width : Nat) : List (List Char) := wrap .fold width "\nUpdated files:".toList

theorem messageLines_listHeading (width : Nat) :
    messageLines width "\n[bold]Updated files:[/bold]" = .ok (listHeading width) := by
  have hmessage : "\n[bold]Updated files:[/bold]".toList = ['\n'] ++ openingTag "bold".toList ++
      ("Updated files:".toList ++ closingTag "bold".toList) := by decide
  have hliteral : Literal "Updated files:".toList :=
    ⟨by decide, unescaped_eq_self_iff.mp (by decide), by decide, pictured_of_count (by decide)⟩
  rw [messageLines, hmessage, plain_of_literal (by decide) (by decide) hliteral]
  have hprintable : printable (['\n'] ++ "Updated files:".toList) = "\nUpdated files:".toList := by
    decide
  simp only [Except.map]
  rw [hprintable, listHeading]

/-- The report lists the changed files under their heading. -/
theorem terminalPrintout_of_changed {o : Outcome} (hne : o.changed ≠ []) (width : Nat) :
    o.terminalPrintout false width = (printMessages width (o.changed.map pathMessage)).after
      (o.terminalBody false width ++ listHeading width) := by
  have hchanged : o.changed.isEmpty = false := by simpa using hne
  have hmessages : o.changedMessages =
      "\n[bold]Updated files:[/bold]" :: o.changed.map pathMessage := by
    rw [changedMessages, hchanged]
    rfl
  rw [terminalPrintout, if_neg (by decide), hmessages, printMessages, messageLines_listHeading]
  simp [Printout.after]

/-- What stands under the heading is what the messages about the paths come out as. -/
theorem terminalPrintout_eq_iff {o : Outcome} (hne : o.changed ≠ []) (width : Nat)
    (lines : List (List Char)) :
    o.terminalPrintout false width =
        ⟨o.terminalBody false width ++ listHeading width ++ lines, none⟩ ↔
      printMessages width (o.changed.map pathMessage) = ⟨lines, none⟩ := by
  rw [terminalPrintout_of_changed hne]
  cases printMessages width (o.changed.map pathMessage)
  simp [Printout.after]

variable (o : Outcome) (width : Nat)

/-- The list of changed files names every file by its path if all paths can be shown. A path that
cannot be shown, with a tag in it for instance, is not named by the list. -/
theorem changed_listed_iff (hwidth : width ≠ 0) (hne : o.changed ≠ []) :
    let listed := Printout.mk
      (o.terminalBody false width ++ listHeading width ++ o.changed.map pathLine) none
    ((∀ path ∈ o.changed, Showable width path) → o.terminalPrintout false width = listed) ∧
      ((∀ path ∈ o.changed, ':' ∉ path.toList) → o.terminalPrintout false width = listed →
        ∀ path ∈ o.changed, Showable width path) := by
  intro listed
  rw [terminalPrintout_eq_iff hne, printMessages_eq_iff hwidth]
  exact ⟨fun h path hpath => messageLines_of_showable hwidth (h path hpath),
    fun hcolon h path hpath => showable_of_messageLines (hcolon path hpath) (h path hpath)⟩

/-- Plain paths are named, also in a narrow window. -/
theorem changed_listed_plain :
    let o : Outcome := { changed := ["config/a.rb", "b[1].rb"] }
    o.terminalPrintout false 13 =
      ⟨o.terminalBody false 13 ++ listHeading 13 ++ o.changed.map pathLine, none⟩ :=
  (changed_listed_iff _ 13 (by decide) (by decide)).1 (by decide)

/-- A path with a tag in it loses the tag, so another file is named. -/
theorem changed_unlisted_tag :
    let o : Outcome := { changed := ["a[id].rb"] }
    o.terminalPrintout false 80 =
        ⟨o.terminalBody false 80 ++ listHeading 80 ++ ["  a.rb".toList], none⟩ ∧
      ["  a.rb".toList] ≠ o.changed.map pathLine := by
  intro o
  have hpieces : pieces (pathMessage "a[id].rb").toList =
      [.text "  ".toList, .tag 2 "green".toList, .text "a".toList, .tag 10 "id".toList,
        .text ".rb".toList, .tag 17 "/green".toList] := by decide
  -- The part in brackets is read as a style that is opened, and it is closed with the whole line.
  have hplain : plain (pathMessage "a[id].rb").toList = .ok "  a.rb".toList := by
    have hgreen := isStyleWord_green
    have hid : IsStyleWord "id".toList := by decide
    have hslash : "/green".toList = '/' :: "green".toList := by decide
    have htext : ∀ text ∈ ["  ".toList, "a".toList, ".rb".toList],
        pictured (unescaped text) = text := by
      have hplain : ∀ text ∈ ["  ".toList, "a".toList, ".rb".toList],
          unescaped text = text ∧ ':' ∉ text := by decide
      intro text htext
      obtain ⟨hescapes, hcolon⟩ := hplain text htext
      rw [hescapes, pictured_of_notMem hcolon]
    rw [plain, if_pos (by decide), hpieces, plainPieces, plainPieces_open hgreen, plainPieces,
      plainPieces_open hid, plainPieces, hslash, plainPieces_close hgreen (by simp), plainPieces,
      htext _ (by simp), htext _ (by simp), htext _ (by simp)]
    simp [Except.map]
  have hline : messageLines 80 (pathMessage "a[id].rb") = .ok ["  a.rb".toList] := by
    rw [messageLines, hplain]
    simp only [Except.map]
    rw [printable_of_controls (List.forall_iff_forall_mem.mp (by decide)),
      (wrap_eq_singleton_iff (by decide) (by decide)).mpr (by decide)]
  refine ⟨?_, by decide⟩
  refine (terminalPrintout_eq_iff (by decide) 80 (o.changed.map fun _ => "  a.rb".toList)).mpr ?_
  refine (printMessages_eq_iff (by decide) pathMessage _ o.changed).mpr fun path hpath => ?_
  rw [List.mem_singleton.mp hpath, hline]

end RailsUpgrade.Outcome
