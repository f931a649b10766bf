import RailsUpgrade.Proofs.Frame
import RailsUpgrade.Proofs.Stubs

/-!
# `RailsUpgrade.Proofs.Qualified`: names that go on before or behind a reference

A text is scanned for references from left to right. The old name of a class may also stand where it
is a part of another name, as the end of a longer qualified name or the start of a longer word.

* `pieces_append`: between two pieces of a text the scan starts anew;
* `Relocation.Keeps`, `Relocation.Overtaken`: what the scan does at a place where the old name stands;
* `Relocation.keeps_iff`: it keeps the name there unless it is a reference or another reference that
  it takes overlaps it;
* `Relocation.Becomes`: what stands in place of the name once references are redirected;
* `Relocation.Solid`: references to a name never overlap another place where it stands;
* `Project.keeps_qualified_iff`: which parts of other names are kept for a planned move.
-/

set_option autoImplicit false

namespace RailsUpgrade

open Pattern (Expr Piece Match Cursor startsWithWord)

/-! ### Places between pieces -/

namespace Pattern

/-- A place in a text lies between two of its pieces, or inside a match. -/
theorem exists_cut {pieces : List Piece} {front rest : List Char}
    (h : pieces.flatMap Piece.original = front ++ rest) :
    (∃ ps qs, pieces = ps ++ qs ∧ ps.flatMap Piece.original = front) ∨
      ∃ ps m qs, pieces = ps ++ .hit m :: qs ∧
        (ps.flatMap Piece.original).length < front.length ∧
        front.length < (ps.flatMap Piece.original).length + m.text.length := by
  induction pieces generalizing front with
  | nil =>
    obtain ⟨rfl, -⟩ := List.append_eq_nil_iff.mp h.symm
    exact .inl ⟨[], [], rfl, rfl⟩
  | cons piece pieces ih =>
    by_cases hfront : front = []
    · exact .inl ⟨[], piece :: pieces, rfl, hfront.symm⟩
    · rw [List.flatMap_cons] at h
      -- The cut falls behind the first piece, or inside it or at its end.
      rcases List.append_eq_append_iff.mp h with ⟨more, rfl, hmore⟩ | ⟨more, hpiece, -⟩
      · rcases ih hmore with ⟨ps, qs, rfl, hps⟩ | ⟨ps, m, qs, rfl, hstart, hend⟩
        · exact .inl ⟨piece :: ps, qs, rfl, by rw [List.flatMap_cons, hps]⟩
        · refine .inr ⟨piece :: ps, m, qs, rfl, ?_, ?_⟩
          · simpa using hstart
          · simp only [List.flatMap_cons, List.length_append]
            omega
      · by_cases hmore : more = []
        · rw [hmore, List.append_nil] at hpiece
          exact .inl ⟨[piece], pieces, rfl, by simpa using hpiece⟩
        -- A kept letter has no inside, so that a cut within the piece makes it a hit.
        · have hpos := List.length_pos_iff.mpr hfront
          have hpos' := List.length_pos_iff.mpr hmore
          have hlength := congrArg List.length hpiece
          rw [List.length_append] at hlength
          cases piece with
          | kept c =>
            rw [Piece.original, List.length_singleton] at hlength
            omega
          | hit m =>
            refine .inr ⟨[], m, pieces, rfl, hpos, ?_⟩
            rw [Piece.original] at hlength
            simp only [List.flatMap_nil, List.length_nil]
            omega

/-- The text at the start of some pieces is kept, or a match begins inside it. -/
theorem exists_kept {pieces : List Piece} {name rest : List Char}
    (h : pieces.flatMap Piece.original = name ++ rest) :
    (∃ qs, pieces = name.map .kept ++ qs) ∨
      ∃ (chars : List Char) (m : Match) (qs : List Piece),
        pieces = chars.map .kept ++ .hit m :: qs ∧ chars.length < name.length := by
  induction name generalizing pieces with
  | nil => exact .inl ⟨pieces, rfl⟩
  | cons x name ih =>
    cases pieces with
    | nil => cases h
    | cons piece pieces =>
      cases piece with
      | hit m => exact .inr ⟨[], m, pieces, rfl, by simp⟩
      | kept c =>
        obtain ⟨rfl, hrest⟩ := List.cons_eq_cons.mp h
        rcases ih hrest with ⟨qs, rfl⟩ | ⟨chars, m, qs, rfl, hlength⟩
        · exact .inl ⟨qs, rfl⟩
        · exact .inr ⟨c :: chars, m, qs, rfl, by simpa using hlength⟩

theorem original_map_kept (s : List Char) : (s.map Piece.kept).flatMap Piece.original = s := by
  rw [List.flatMap_map]
  exact List.flatMap_singleton' s

/-- A match ends before what is kept or begins behind it. -/
theorem hit_outside_kept {ps qs ps' qs' : List Piece} {name : List Char} {m : Match}
    (h : ps ++ (name.map .kept ++ qs) = ps' ++ .hit m :: qs') :
    (ps'.flatMap Piece.original).length + m.text.length ≤ (ps.flatMap Piece.original).length ∨
      (ps.flatMap Piece.original).length + name.length ≤ (ps'.flatMap Piece.original).length := by
  induction ps generalizing ps' with
  | nil =>
    right
    -- A hit is none of the kept letters, so that it stands behind all of them.
    induction name generalizing ps' with
    | nil => simp
    | cons x name ih =>
      cases ps' with
      | nil => cases h
      | cons piece ps' =>
        obtain ⟨rfl, hrest⟩ := List.cons_eq_cons.mp h
        have hlater := ih hrest
        simp only [List.flatMap_cons, List.flatMap_nil, List.length_append, List.length_cons,
          Piece.original, List.length_nil] at hlater ⊢
        omega
  | cons piece ps ih =>
    cases ps' with
    | nil =>
      obtain ⟨rfl, -⟩ := List.cons_eq_cons.mp h
      left
      simp [Piece.original]
    | cons piece' ps' =>
      obtain ⟨rfl, hrest⟩ := List.cons_eq_cons.mp h
      simp only [List.flatMap_cons, List.length_append]
      rcases ih hrest with hbefore | hbehind
      · left
        omega
      · right
        omega

/-- The characters of a match are passed over. -/
theorem piecesIn_skip (e : Expr) (before taken text : List Char) (pos : Nat) :
    e.piecesIn before pos taken.length (taken ++ text) =
      e.piecesIn (taken.reverse ++ before) (pos + taken.length) 0 text := by
  induction taken generalizing before pos with
  | nil => rfl
  | cons x taken ih =>
    rw [List.cons_append, List.length_cons, Expr.piecesIn, ih, List.reverse_cons, List.append_assoc,
      Nat.add_assoc, Nat.add_comm 1]
    rfl

/-- A match that takes something is a piece, and the scan goes on behind it. -/
theorem piecesIn_of_hit {e : Expr} {before taken after : List Char} {pos : Nat} {m : Match}
    (hmatches : e.matchesAt { before, after := taken ++ after, pos } = [m]) (hne : taken ≠ [])
    (hwidth : m.width = taken.length) : e.piecesIn before pos 0 (taken ++ after) =
      .hit m :: e.piecesIn (taken.reverse ++ before) (pos + taken.length) 0 after := by
  rw [← piecesIn_skip]
  obtain ⟨x, taken, rfl⟩ := List.exists_cons_of_ne_nil hne
  rw [List.cons_append] at hmatches ⊢
  rw [Expr.piecesIn, hmatches, List.length_cons, Expr.piecesIn]
  simp only [List.getLast?_singleton, Option.map_some, Option.getD_some, hwidth, List.length_cons]
  rfl

end Pattern

/-! ### The scan for references -/

namespace Relocation

variable {r : Relocation} {front back before after : List Char}

/-- The match of a reference. -/
def referenceAt (r : Relocation) (before after : List Char) (pos : Nat) : Match :=
  let first : Cursor := { before, after := r.oldConstant.toList ++ after, pos }
  ⟨first, first.shift r.oldConstant.toList.length⟩

theorem text_referenceAt (before after : List Char) (pos : Nat) :
    (r.referenceAt before after pos).text = r.oldConstant.toList :=
  (Pattern.takes_shift_length (c := { before, after := r.oldConstant.toList ++ after, pos }) rfl).textTo

/-- A reference is a piece of its own, and behind it the scan goes on. -/
theorem piecesIn_of_refers (hold : r.oldConstant ≠ "") (h : r.Refers before after) (pos : Nat) :
    r.references.expr.piecesIn before pos 0 (r.oldConstant.toList ++ after) =
      .hit (r.referenceAt before after pos) ::
        r.references.expr.piecesIn (r.oldConstant.toList.reverse ++ before)
          (pos + r.oldConstant.toList.length) 0 after := by
  let c : Cursor := { before, after := r.oldConstant.toList ++ after, pos }
  have hmem := (mem_ends_references (c := c)).mpr ⟨after, rfl, h, rfl⟩
  obtain ⟨taken, after', last, hne, -, ⟨rfl, -, -⟩, hmatches, hwidth⟩ :=
    (swaps_references hold []).exists_matchesAt (List.ne_nil_of_mem hmem)
  have hlast : (⟨c, last⟩ : Match) ∈ r.references.expr.matchesAt c := by
    rw [hmatches]
    exact List.mem_singleton_self _
  obtain ⟨_, -, -, rfl⟩ := mem_ends_references.mp (Pattern.mem_matchesAt hlast).2
  exact Pattern.piecesIn_of_hit hmatches hne hwidth

/-- Where there is no reference a character is kept. -/
theorem piecesIn_of_not_refers {x : Char} {rest : List Char}
    (h : ∀ after, x :: rest = r.oldConstant.toList ++ after → ¬ r.Refers before after) (pos : Nat) :
    r.references.expr.piecesIn before pos 0 (x :: rest) =
      .kept x :: r.references.expr.piecesIn (x :: before) (pos + 1) 0 rest := by
  have hnone : r.references.expr.ends { before, after := x :: rest, pos } = [] := by
    rw [List.eq_nil_iff_forall_not_mem]
    intro c hc
    obtain ⟨after, hafter, hrefers, -⟩ := mem_ends_references.mp hc
    exact h after hafter hrefers
  rw [Expr.piecesIn, Pattern.matchesAt_eq_nil hnone]
  rfl

theorem piecesIn_nil (hold : r.oldConstant ≠ "") (pos : Nat) :
    r.references.expr.piecesIn before pos 0 [] = [] := by
  have hnone : r.references.expr.ends { before, after := [], pos } = [] := by
    rw [List.eq_nil_iff_forall_not_mem]
    intro c hc
    obtain ⟨after, hafter, -, -⟩ := mem_ends_references.mp hc
    exact hold (by simpa using (List.append_eq_nil_iff.mp hafter.symm).1)
  rw [Expr.piecesIn, Pattern.matchesAt_eq_nil hnone]
  rfl

/-- Between two pieces of a text the scan starts anew. -/
theorem piecesIn_append (hold : r.oldConstant ≠ "") {text : List Char} {ps qs : List Piece}
    (h : r.references.expr.piecesIn before before.length 0 text = ps ++ qs) :
    ∃ rest, text = ps.flatMap Piece.original ++ rest ∧
      qs = r.references.expr.piecesIn ((ps.flatMap Piece.original).reverse ++ before)
        ((ps.flatMap Piece.original).reverse ++ before).length 0 rest := by
  induction ps generalizing before text with
  | nil => exact ⟨text, rfl, h.symm⟩
  | cons piece ps ih =>
    cases text with
    | nil =>
      rw [piecesIn_nil hold] at h
      cases h
    | cons x rest =>
      -- Either the constant is referred to here, and the hit takes it whole, or this letter is kept.
      by_cases hhere : ∃ after, x :: rest = r.oldConstant.toList ++ after ∧ r.Refers before after
      · obtain ⟨after, htext, hrefers⟩ := hhere
        have hm := r.text_referenceAt before after before.length
        rw [htext, piecesIn_of_refers hold hrefers] at h
        obtain ⟨rfl, hrest⟩ := List.cons_eq_cons.mp h
        have hlength : before.length + r.oldConstant.toList.length =
            (r.oldConstant.toList.reverse ++ before).length := by
          rw [List.length_append, List.length_reverse, Nat.add_comm]
        rw [hlength] at hrest
        obtain ⟨rest', rfl, hqs⟩ := ih hrest
        refine ⟨rest', ?_, ?_⟩
        · rw [htext, List.flatMap_cons, Piece.original, hm, List.append_assoc]
        · rw [List.flatMap_cons, Piece.original, hm, List.reverse_append, List.append_assoc]
          exact hqs
      · rw [piecesIn_of_not_refers fun after htext hrefers => hhere ⟨after, htext, hrefers⟩] at h
        obtain ⟨rfl, hrest⟩ := List.cons_eq_cons.mp h
        have hmore : r.references.expr.piecesIn (x :: before) (x :: before).length 0 rest =
            ps ++ qs := hrest
        obtain ⟨rest', rfl, hqs⟩ := ih hmore
        refine ⟨rest', rfl, ?_⟩
        rw [List.flatMap_cons, List.reverse_append, List.append_assoc]
        exact hqs

theorem pieces_append (hold : r.oldConstant ≠ "") {text : List Char} {ps qs : List Piece}
    (h : r.references.expr.pieces text = ps ++ qs) : ∃ rest, text = ps.flatMap Piece.original ++ rest ∧
      qs = r.references.expr.piecesIn (ps.flatMap Piece.original).reverse
        (ps.flatMap Piece.original).length 0 rest := by
  have hall : r.references.expr.piecesIn [] ([] : List Char).length 0 text = ps ++ qs := h
  obtain ⟨rest, htext, hqs⟩ := piecesIn_append hold hall
  rw [List.append_nil, List.length_reverse] at hqs
  exact ⟨rest, htext, hqs⟩

/-- A match among the pieces is a reference. -/
theorem refers_of_hit (hold : r.oldConstant ≠ "") {text : List Char} {ps qs : List Piece} {m : Match}
    (h : r.references.expr.pieces text = ps ++ .hit m :: qs) :
    ∃ after, text = ps.flatMap Piece.original ++ (r.oldConstant.toList ++ after) ∧
      r.Refers (ps.flatMap Piece.original).reverse after ∧
      m = r.referenceAt (ps.flatMap Piece.original).reverse after
        (ps.flatMap Piece.original).length := by
  obtain ⟨rest, htext, hqs⟩ := pieces_append hold h
  cases rest with
  | nil =>
    rw [piecesIn_nil hold] at hqs
    cases hqs
  | cons x rest =>
    by_cases hhere : ∃ after, x :: rest = r.oldConstant.toList ++ after ∧
        r.Refers (ps.flatMap Piece.original).reverse after
    · obtain ⟨after, hafter, hrefers⟩ := hhere
      rw [hafter, piecesIn_of_refers hold hrefers] at hqs
      obtain ⟨hsame, -⟩ := List.cons_eq_cons.mp hqs
      exact ⟨after, by rw [htext, hafter], hrefers, Piece.hit.inj hsame⟩
    · rw [piecesIn_of_not_refers fun after hafter hrefers => hhere ⟨after, hafter, hrefers⟩] at hqs
      cases hqs

/-- A reference right behind a piece is a match. -/
theorem hit_of_refers (hold : r.oldConstant ≠ "") {ps qs : List Piece}
    (h : r.references.expr.pieces (ps.flatMap Piece.original ++ (r.oldConstant.toList ++ after)) =
      ps ++ qs) (hrefers : r.Refers (ps.flatMap Piece.original).reverse after) :
    ∃ m qs', qs = .hit m :: qs' := by
  obtain ⟨rest, htext, hqs⟩ := pieces_append hold h
  obtain rfl := List.append_cancel_left htext
  exact ⟨_, _, hqs.trans (piecesIn_of_refers hold hrefers _)⟩

/-! ### What the scan does where a name stands -/

/-- The places where the scan of a text takes a reference. -/
def takenAt (r : Relocation) (text : List Char) : List Nat :=
  (r.references.expr.pieces text).filterMap fun
    | .kept _ => none
    | .hit m => some m.first.pos

/-- The old name between two texts is kept, character by character. -/
def Keeps (r : Relocation) (front back : List Char) : Prop :=
  ∃ ps qs, r.references.expr.pieces (front ++ (r.oldConstant.toList ++ back)) =
    ps ++ (r.oldConstant.toList.map .kept ++ qs) ∧ ps.flatMap Piece.original = front

/-- The old name between two texts is taken for a reference. -/
def Takes (r : Relocation) (front back : List Char) : Prop :=
  front.length ∈ r.takenAt (front ++ (r.oldConstant.toList ++ back))

/-- A reference that is taken elsewhere overlaps the old name between two texts. -/
def Overtaken (r : Relocation) (front back : List Char) : Prop :=
  ∃ p ∈ r.takenAt (front ++ (r.oldConstant.toList ++ back)), p ≠ front.length ∧
    p < front.length + r.oldConstant.toList.length ∧
    front.length < p + r.oldConstant.toList.length

theorem mem_takenAt (hold : r.oldConstant ≠ "") {text : List Char} {p : Nat} :
    p ∈ r.takenAt text ↔ ∃ ps m qs, r.references.expr.pieces text = ps ++ .hit m :: qs ∧
      (ps.flatMap Piece.original).length = p := by
  rw [takenAt, List.mem_filterMap]
  constructor
  · rintro ⟨piece, hmem, hpiece⟩
    obtain ⟨ps, qs, hpieces⟩ := List.append_of_mem hmem
    cases piece with
    | kept c => cases hpiece
    | hit m =>
      obtain ⟨_, -, -, rfl⟩ := refers_of_hit hold hpieces
      cases hpiece
      exact ⟨ps, _, qs, hpieces, rfl⟩
  · rintro ⟨ps, m, qs, hpieces, rfl⟩
    have hmem : .hit m ∈ r.references.expr.pieces text := by
      rw [hpieces]
      simp
    obtain ⟨_, -, -, rfl⟩ := refers_of_hit hold hpieces
    exact ⟨_, hmem, rfl⟩

/-- The scan takes references only. -/
theorem exists_of_mem_takenAt (hold : r.oldConstant ≠ "") {text : List Char} {p : Nat}
    (h : p ∈ r.takenAt text) : ∃ lead after, text = lead ++ (r.oldConstant.toList ++ after) ∧
      lead.length = p ∧ r.Refers lead.reverse after := by
  obtain ⟨ps, m, qs, hpieces, hp⟩ := (mem_takenAt hold).mp h
  obtain ⟨after, htext, hrefers, -⟩ := refers_of_hit hold hpieces
  exact ⟨_, after, htext, hp, hrefers⟩

/-- Where no reference overlaps the old name, a piece ends before it. -/
theorem exists_pieces (hold : r.oldConstant ≠ "") (h : ¬ r.Overtaken front back) :
    ∃ ps qs, r.references.expr.pieces (front ++ (r.oldConstant.toList ++ back)) = ps ++ qs ∧
      ps.flatMap Piece.original = front := by
  rcases Pattern.exists_cut (Pattern.original_pieces r.references.expr
    (front ++ (r.oldConstant.toList ++ back))) with hcut | ⟨ps, m, qs, hpieces, hstart, hend⟩
  · exact hcut
  · obtain ⟨_, -, -, rfl⟩ := refers_of_hit hold hpieces
    rw [text_referenceAt] at hend
    refine absurd ⟨_, (mem_takenAt hold).mpr ⟨ps, _, qs, hpieces, rfl⟩, ?_, ?_, hend⟩ h
    · omega
    · omega

/-- The scan keeps the old name where it is no reference and no reference overlaps it. -/
theorem keeps_iff (hold : r.oldConstant ≠ "") :
    r.Keeps front back ↔ ¬ r.Refers front.reverse back ∧ ¬ r.Overtaken front back := by
  have hne : r.oldConstant.toList ≠ [] := by simpa using hold
  constructor
  · rintro ⟨ps, qs, hpieces, rfl⟩
    refine ⟨fun hrefers => ?_, ?_⟩
    · obtain ⟨m, qs', hhit⟩ := hit_of_refers hold hpieces hrefers
      obtain ⟨x, name, hname⟩ := List.exists_cons_of_ne_nil hne
      rw [hname] at hhit
      cases hhit
    · rintro ⟨p, hp, hother, hbefore, hbehind⟩
      obtain ⟨ps', m, qs', hpieces', rfl⟩ := (mem_takenAt hold).mp hp
      obtain ⟨_, -, -, rfl⟩ := refers_of_hit hold hpieces'
      have hapart := Pattern.hit_outside_kept (hpieces.symm.trans hpieces')
      rw [text_referenceAt] at hapart
      omega
  · rintro ⟨hidle, halone⟩
    obtain ⟨ps, qs, hpieces, rfl⟩ := exists_pieces hold halone
    have horiginal := Pattern.original_pieces r.references.expr
      (ps.flatMap Piece.original ++ (r.oldConstant.toList ++ back))
    rw [hpieces, List.flatMap_append] at horiginal
    rcases Pattern.exists_kept (List.append_cancel_left horiginal) with
      ⟨qs', rfl⟩ | ⟨chars, m, qs', rfl, hlength⟩
    · exact ⟨ps, qs', hpieces, rfl⟩
    · rw [← List.append_assoc ps] at hpieces
      have hpos : ((ps ++ chars.map Piece.kept).flatMap Piece.original).length =
          (ps.flatMap Piece.original).length + chars.length := by
        rw [List.flatMap_append, Pattern.original_map_kept, List.length_append]
      by_cases hhere : chars = []
      · subst hhere
        obtain ⟨after, htext, hrefers, -⟩ := refers_of_hit hold hpieces
        simp only [List.map_nil, List.append_nil] at htext hrefers
        obtain rfl := List.append_cancel_left (List.append_cancel_left htext)
        exact absurd hrefers hidle
      · have hsome := List.length_pos_iff.mpr hhere
        refine absurd ⟨_, (mem_takenAt hold).mpr ⟨_, m, qs', hpieces, rfl⟩, ?_, ?_, ?_⟩ halone
        · omega
        · omega
        · omega

/-- It takes a reference where no other reference overlaps it. -/
theorem takes_of_refers (hold : r.oldConstant ≠ "") (h : r.Refers front.reverse back)
    (halone : ¬ r.Overtaken front back) : r.Takes front back := by
  obtain ⟨ps, qs, hpieces, rfl⟩ := exists_pieces hold halone
  obtain ⟨m, qs', rfl⟩ := hit_of_refers hold hpieces h
  exact (mem_takenAt hold).mpr ⟨ps, m, qs', hpieces, rfl⟩

/-- Once references are redirected, `mid` stands where the old name stood between two texts: it is what
the scan makes of the name, between what it makes of the two texts. -/
def Becomes (r : Relocation) (front back mid new : List Char) : Prop :=
  ∃ fill ps name qs, r.references.expr.pieces (front ++ (r.oldConstant.toList ++ back)) =
      ps ++ (name ++ qs) ∧
    ps.flatMap Piece.original = front ∧ name.flatMap Piece.original = r.oldConstant.toList ∧
    qs.flatMap Piece.original = back ∧ name.flatMap (Piece.replaced fill) = mid ∧
    new = ps.flatMap (Piece.replaced fill) ++ (mid ++ qs.flatMap (Piece.replaced fill))

/-- The pieces behind the old name are the pieces of the text behind it. -/
theorem original_of_pieces {ps name qs : List Piece}
    (h : r.references.expr.pieces (front ++ (r.oldConstant.toList ++ back)) = ps ++ (name ++ qs))
    (hfront : ps.flatMap Piece.original = front)
    (hname : name.flatMap Piece.original = r.oldConstant.toList) : qs.flatMap Piece.original = back := by
  have horiginal := Pattern.original_pieces r.references.expr
    (front ++ (r.oldConstant.toList ++ back))
  rw [h, List.flatMap_append, List.flatMap_append, hfront, hname] at horiginal
  exact List.append_cancel_left (List.append_cancel_left horiginal)

/-- What is kept is there once the references are redirected. -/
theorem becomes_of_keeps (h : r.Keeps front back) {new : List Char}
    (hnew : r.redirect (front ++ (r.oldConstant.toList ++ back)) = .ok new) :
    r.Becomes front back r.oldConstant.toList new := by
  obtain ⟨ps, qs, hpieces, hfront⟩ := h
  rw [redirect, Pattern.replaceTemplate] at hnew
  cases hparts : Pattern.readTemplate r.references r.newConstant with
  | error e =>
    rw [hparts] at hnew
    cases hnew
  | ok parts =>
    rw [hparts] at hnew
    cases hnew
    have hname := Pattern.original_map_kept r.oldConstant.toList
    have hkept : (r.oldConstant.toList.map Piece.kept).flatMap
        (Piece.replaced (Pattern.fillTemplate parts)) = r.oldConstant.toList := by
      rw [List.flatMap_map]
      exact List.flatMap_singleton' _
    refine ⟨Pattern.fillTemplate parts, ps, _, qs, hpieces, hfront, hname,
      original_of_pieces hpieces hfront hname, hkept, ?_⟩
    show (r.references.expr.pieces _).flatMap _ = _
    rw [hpieces, List.flatMap_append, List.flatMap_append, hkept]

/-- What is taken for a reference is the new name once the references are redirected. -/
theorem becomes_of_takes (hold : r.oldConstant ≠ "") (h : r.Takes front back) {new : List Char}
    (hnew : r.redirect (front ++ (r.oldConstant.toList ++ back)) = .ok new) :
    ∃ mid, r.replacement? = some mid ∧ r.Becomes front back mid new := by
  obtain ⟨ps, m, qs, hpieces, hlength⟩ := (mem_takenAt hold).mp h
  obtain ⟨after, htext, -, rfl⟩ := refers_of_hit hold hpieces
  obtain ⟨hfront, -⟩ := List.append_inj htext hlength.symm
  rw [redirect, Pattern.replaceTemplate] at hnew
  rw [replacement?]
  cases hparts : Pattern.readTemplate r.references r.newConstant with
  | error e =>
    rw [hparts] at hnew
    cases hnew
  | ok parts =>
    rw [hparts] at hnew
    cases hnew
    rw [← List.singleton_append] at hpieces
    have hname : [Piece.hit (r.referenceAt (ps.flatMap Piece.original).reverse after
        (ps.flatMap Piece.original).length)].flatMap Piece.original = r.oldConstant.toList := by
      rw [List.flatMap_singleton, Piece.original, text_referenceAt]
    refine ⟨_, rfl, Pattern.fillTemplate parts, ps, _, qs, hpieces, hfront.symm, hname,
      original_of_pieces hpieces hfront.symm hname, ?_, ?_⟩
    · rw [List.flatMap_singleton, Piece.replaced, referenceAt, fillTemplate_reference]
    · show (r.references.expr.pieces _).flatMap _ = _
      rw [hpieces, List.flatMap_append, List.flatMap_append, List.flatMap_singleton, Piece.replaced,
        referenceAt, fillTemplate_reference]

theorem startsWithWord_of_all {word : List Char} (h : word.all Text.isWord = true) (hne : word ≠ []) :
    startsWithWord false word = true := by
  obtain ⟨x, word, rfl⟩ := List.exists_cons_of_ne_nil hne
  rw [List.all_cons, Bool.and_eq_true] at h
  exact h.1

/-! ### Names that overlap themselves -/

/-- Where a name begins again inside itself, an end of it is one of its beginnings. -/
theorem exists_border {name u s t : List Char} (hu : u ≠ []) (hlength : u.length < name.length)
    (h : name ++ s = u ++ (name ++ t)) :
    ∃ part rest, part ≠ [] ∧ rest ≠ [] ∧ name = u ++ part ∧ name = part ++ rest ∧ s = rest ++ t := by
  have hpos := List.length_pos_iff.mpr hu
  rcases List.append_eq_append_iff.mp h with ⟨more, rfl, -⟩ | ⟨part, hname, hpart⟩
  · rw [List.length_append] at hlength
    omega
  · have hparts := congrArg List.length hname
    rw [List.length_append] at hparts
    rcases List.append_eq_append_iff.mp hpart with ⟨more, rfl, -⟩ | ⟨rest, hname', hs⟩
    · rw [List.length_append] at hparts
      omega
    · have hparts' := congrArg List.length hname'
      rw [List.length_append] at hparts'
      refine ⟨part, rest, ?_, ?_, hname, hname', hs⟩
      · rintro rfl
        rw [List.length_nil] at hparts
        omega
      · rintro rfl
        rw [List.length_nil] at hparts'
        omega

/-- References to a name never overlap another place where it stands: where an end of it is one of its
beginnings, no word ends behind the beginning, and the end is not free. -/
def Solid (r : Relocation) : Prop :=
  ∀ s t u, s ≠ [] → t ≠ [] → u ≠ [] → r.oldConstant.toList = s ++ t → r.oldConstant.toList = u ++ s →
    startsWithWord false r.oldConstant.toList.reverse = startsWithWord false t ∧
      u.getLast?.any r.guard.mem = true

theorem not_overtaken (hold : r.oldConstant ≠ "") (hsolid : r.Solid) : ¬ r.Overtaken front back := by
  have hne : r.oldConstant.toList ≠ [] := by simpa using hold
  rintro ⟨p, hp, hother, hbefore, hbehind⟩
  obtain ⟨lead, after, htext, rfl, hrefers⟩ := exists_of_mem_takenAt hold hp
  rcases List.append_eq_append_iff.mp htext with ⟨u, rfl, hu⟩ | ⟨u, rfl, hu⟩
  · -- The reference begins inside the name, where it is not free.
    rw [List.length_append] at hother hbefore
    have hu' : u ≠ [] := by
      rintro rfl
      exact hother (Nat.add_zero _)
    obtain ⟨s, t, hs, ht, hname, hname', -⟩ := exists_border hu' (by omega) hu
    have hfree := hrefers.free
    rw [List.reverse_append, head?_reverse_append hu', (hsolid s t u hs ht hu' hname' hname).2] at hfree
    cases hfree
  · -- The name begins inside the reference, and the reference has no edge.
    rw [List.length_append] at hother hbehind
    have hu' : u ≠ [] := by
      rintro rfl
      exact hother (Nat.add_zero _).symm
    obtain ⟨s, t, hs, ht, hname, hname', rfl⟩ := exists_border hu' (by omega) hu
    have hedge := hrefers.edge
    rw [startsWithWord_append (List.reverse_ne_nil_iff.mpr hne), startsWithWord_append ht] at hedge
    exact hedge (hsolid s t u hs ht hu' hname' hname).1

/-- A beginning of a name that comes up again at its end lies behind what the name leads in with, if
the letter that it begins with is not in there again. -/
theorem behind_lead {c : Char} (lead : List Char) {name s t u : List Char} (hc : c ∉ lead)
    (hu : u ≠ []) (h : c :: lead ++ name = s ++ t) (h' : c :: lead ++ name = u ++ s) :
    ∃ more, u = c :: lead ++ more ∧ name = more ++ s := by
  rcases List.append_eq_append_iff.mp h' with ⟨more, hmore, hname⟩ | ⟨part, hpart, hsame⟩
  · exact ⟨more, hmore, hname⟩
  · cases part with
    | nil => exact ⟨[], by simpa using hpart.symm, by simpa using hsame.symm⟩
    | cons x part =>
      -- The name would begin with a letter from inside its lead.
      obtain ⟨y, u, rfl⟩ := List.exists_cons_of_ne_nil hu
      obtain ⟨-, hlead⟩ := List.cons_eq_cons.mp hpart
      rw [hsame, List.cons_append, List.cons_append, List.cons_append] at h
      obtain ⟨rfl, -⟩ := List.cons_eq_cons.mp h
      refine absurd ?_ hc
      rw [hlead]
      simp

/-- What begins a name of which the first word is followed by a colon, and has no colon itself, begins
the first word. -/
theorem prefix_of_word (first rest : List Char) {s t : List Char} (hs : s.all Text.isWord = true)
    (h : first ++ ':' :: rest = s ++ t) : ∃ more, first = s ++ more ∧ t = more ++ ':' :: rest := by
  rcases List.append_eq_append_iff.mp h with ⟨more, rfl, hmore⟩ | ⟨more, hmore, ht⟩
  · cases more with
    | nil => exact ⟨[], by simp, hmore.symm⟩
    | cons x more =>
      obtain ⟨rfl, -⟩ := List.cons_eq_cons.mp hmore
      rw [List.all_append, List.all_cons] at hs
      have hcolon : Text.isWord ':' = false := by decide
      simp [hcolon] at hs
  · exact ⟨more, hmore, ht⟩

end Relocation

namespace Project

variable {root : Root} {t : Tree} {r : Relocation} {front back : List Char}

theorem solid_posRelocation : posRelocation.Solid := by
  intro s t u hs ht hu hname hname'
  have hold : posRelocation.oldConstant.toList = 'C' :: "heckJob".toList ++ [] := by decide
  rw [hold] at hname hname'
  obtain ⟨more, -, hmore⟩ := Relocation.behind_lead "heckJob".toList (by decide) hu hname hname'
  exact absurd (List.append_eq_nil_iff.mp hmore.symm).2 hs

/-- An end of the name of a job about stock ends with a letter that is not in its first word. -/
theorem solid_of_stock {job : List Char} (hjob : job.all Text.isWord = true)
    (hold : r.oldConstant.toList = "Inventory::".toList ++ (job ++ "StockJob".toList)) : r.Solid := by
  intro s t u hs ht hu hname hname'
  rw [hold] at hname hname'
  obtain ⟨more, -, hmore⟩ :=
    Relocation.behind_lead (c := 'I') "nventory::".toList (by decide) hu hname hname'
  have hwords : (job ++ "StockJob".toList).all Text.isWord = true := by
    rw [List.all_append, hjob]
    decide
  rw [hmore, List.all_append, Bool.and_eq_true] at hwords
  have hlast : 'b' ∈ s := by
    have hends := congrArg List.getLast? hmore
    rw [List.getLast?_append_of_ne_nil _ hs, List.getLast?_append_of_ne_nil _ (by decide)] at hends
    exact List.mem_of_getLast? hends.symm
  obtain ⟨rest, hword, -⟩ := Relocation.prefix_of_word "Inventory".toList
    (':' :: (job ++ "StockJob".toList)) hwords.2 hname
  have hletters : 'b' ∈ "Inventory".toList := by
    rw [hword]
    exact List.mem_append_left _ hlast
  exact absurd hletters (by decide)

/-- The name of a job about orders is solid unless it begins the first word or ends with it. -/
theorem solid_of_order {kind name : List Char} (hkind : 'S' ∉ kind) (hne : name ≠ [])
    (hall : name.all Text.isWord = true)
    (hold : r.oldConstant.toList = "SidekiqJobs::Orders::".toList ++ (kind ++ ("::".toList ++ name)))
    (hfirst : ¬ name <+: "SidekiqJobs".toList) (hlast : ¬ "SidekiqJobs".toList <:+ name) :
    r.Solid := by
  intro s t u hs ht hu hname hname'
  have hlead : 'S' ∉ "idekiqJobs::Orders::".toList ++ (kind ++ "::".toList) := by
    simp [hkind]
  have hparts : r.oldConstant.toList =
      'S' :: ("idekiqJobs::Orders::".toList ++ (kind ++ "::".toList)) ++ name := by
    rw [hold]
    simp
  obtain ⟨more, rfl, rfl⟩ := Relocation.behind_lead _ hlead hu (hparts.symm.trans hname)
    (hparts.symm.trans hname')
  rw [List.all_append, Bool.and_eq_true] at hall
  obtain ⟨rest, hword, hrest⟩ := Relocation.prefix_of_word "SidekiqJobs".toList
    (":Orders::".toList ++ (kind ++ ("::".toList ++ (more ++ s)))) hall.2
    (hold.symm.trans hname)
  have hmore : more ≠ [] := by
    rintro rfl
    exact hfirst ⟨rest, hword.symm⟩
  have hrest' : rest ≠ [] := by
    rintro rfl
    exact hlast ⟨more, by rw [hword, List.append_nil]⟩
  constructor
  · -- A word ends with the name, and a word goes on behind the beginning.
    have hwords : "SidekiqJobs".toList.all Text.isWord = true := by decide
    rw [hword, List.all_append, Bool.and_eq_true] at hwords
    rw [hrest, startsWithWord_append hrest', Relocation.startsWithWord_of_all hwords.2 hrest', hname',
      List.reverse_append, startsWithWord_reverse hall.2 hs]
  · -- A word character stands before the end.
    obtain ⟨lead, x, rfl⟩ := (List.eq_nil_or_concat' more).resolve_left hmore
    have hx : Text.isWord x = true := List.all_eq_true.mp hall.1 x (by simp)
    rw [← List.append_assoc, List.getLast?_concat, Option.any_some, Relocation.mem_guard, hx]
    rfl

/-- The names of planned jobs in lower case are solid, unless the class is called like the beginning of
a word that its name begins with, or like an end with this word. -/
theorem solid_of_planned (ht : t.WellFormed) (hr : r ∈ planned t root)
    (hsnake : isSnake (stem r.source) = true) (hfirst : ¬ r.oldName.toList <+: "SidekiqJobs".toList)
    (hlast : ¬ "SidekiqJobs".toList <:+ r.oldName.toList) : r.Solid := by
  cases asked_of_planned ht hr with
  | stock names _ hnames hcovers =>
    obtain ⟨name, rfl, hfits⟩ := covers_stockJobs hcovers
    obtain ⟨-, job, hname⟩ := (Glob.nameFits_star (by decide)).mp hfits
    obtain ⟨hstem, hold, -⟩ := stockRelocation_eq hnames hname
    rw [show (stockRelocation (Path.ofNames _)).source = Path.ofNames _ from rfl, hstem] at hsnake
    obtain ⟨-, hall⟩ := camelize_of_isSnake (isSnake_of_append hsnake)
    refine solid_of_stock hall ?_
    rw [hold, String.toList_append, String.toList_append, List.append_assoc]
  | order kind names _ hkind hnames _ =>
    have hsnake' : isSnake (stem (Path.ofNames names)) = true := hsnake
    obtain ⟨hne, hall⟩ := camelize_of_isSnake hsnake'
    have hkinds : ∀ kind ∈ orderKinds, 'S' ∉ (camelize kind).toList ∧ (camelize kind).toList ≠ [] ∧
        (camelize kind).toList.all Text.isWord = true := by
      decide
    obtain ⟨hletter, hkne, hkall⟩ := hkinds kind hkind
    have hold : (orderRelocation kind (Path.ofNames names)).oldConstant.toList =
        "SidekiqJobs::Orders::".toList ++ ((camelize kind).toList ++ ("::".toList ++
          (camelize (stem (Path.ofNames names))).toList)) := by
      simp [orderRelocation]
    have hsegments : Relocation.segments (orderRelocation kind (Path.ofNames names)).oldConstant =
        ["SidekiqJobs".toList, "Orders".toList, (camelize kind).toList,
          (camelize (stem (Path.ofNames names))).toList].map String.ofList := by
      refine Relocation.segments_of_join (by simp) ?_ (by rw [hold]; simp [Text.join])
      simp only [List.forall_mem_cons, List.not_mem_nil, false_implies, implies_true, and_true]
      exact ⟨by decide, by decide, ⟨hkne, hkall⟩, hne, hall⟩
    have hname : (orderRelocation kind (Path.ofNames names)).oldName =
        camelize (stem (Path.ofNames names)) := by
      rw [Relocation.oldName, Relocation.lastName, hsegments]
      simp
    rw [hname] at hfirst hlast
    exact solid_of_order hletter hne hall hold hfirst hlast
  | pos _ => exact solid_posRelocation

/-! ### Parts of other names -/

/-- A text ends with a word and two colons, so that a name behind it is the end of a longer one. -/
def IsQualifier (front : List Char) : Prop :=
  ∃ lead word, front = lead ++ (word ++ [':', ':']) ∧ word ≠ [] ∧ word.all Text.isWord = true

/-- The edge of a word lies between the old name of a class and what follows it. -/
def EndsWord (r : Relocation) (back : List Char) : Prop :=
  startsWithWord false r.oldConstant.toList.reverse ≠ startsWithWord false back

/-- The old name of a class is the start of a longer word. -/
def Prolonged (r : Relocation) (back : List Char) : Prop :=
  startsWithWord false r.oldConstant.toList.reverse = true ∧ startsWithWord false back = true

theorem endsWord_of_refers (hold : r.oldConstant ≠ "") (h : r.Refers front.reverse back) :
    EndsWord r back := by
  have hne : r.oldConstant.toList ≠ [] := by simpa using hold
  have hedge := h.edge
  rwa [startsWithWord_append (List.reverse_ne_nil_iff.mpr hne)] at hedge

/-- The end of a longer name is a reference for those moves that leave it open whether references are
qualified. -/
theorem refers_iff_of_isQualifier (hold : r.oldConstant ≠ "") (hfront : IsQualifier front) :
    r.Refers front.reverse back ↔ r.bare = false ∧ EndsWord r back := by
  have hne : r.oldConstant.toList ≠ [] := by simpa using hold
  obtain ⟨lead, word, rfl, -, -⟩ := hfront
  have hfree : ((lead ++ (word ++ [':', ':'])).reverse.head?.any r.guard.mem) = r.bare := by
    have hcolon : Text.isWord ':' = false := by decide
    simp [Relocation.mem_guard, hcolon]
  constructor
  · intro hrefers
    exact ⟨hfree.symm.trans hrefers.free, endsWord_of_refers hold hrefers⟩
  · rintro ⟨hbare, hends⟩
    refine ⟨hfree.trans hbare, ?_⟩
    rwa [startsWithWord_append (List.reverse_ne_nil_iff.mpr hne)]

/-- What a planned move does where its old name is a part of another name. As the start of a longer
word it is kept, and as the end of a longer name it is kept only if a reference may not be qualified
or there is no edge of a word behind it. Else it is taken for a reference. All this is so unless a
reference that is taken elsewhere overlaps the place, which none does for a solid name or a bare one.
Names in lower case are solid, unless the class is called like the beginning of the word that a name
begins with, or like an end with this word. What is kept is there once references are redirected, and
what is taken has become the new name. -/
theorem keeps_qualified_iff (ht : t.WellFormed) (hr : r ∈ planned t root) (front back : List Char) :
    (IsQualifier front → (r.Keeps front back ↔
        (r.bare = true ∨ ¬ EndsWord r back) ∧ ¬ r.Overtaken front back) ∧
      (r.bare = false → EndsWord r back → ¬ r.Overtaken front back → r.Takes front back)) ∧
    (Prolonged r back → (r.Keeps front back ↔ ¬ r.Overtaken front back)) ∧
    (r.bare = true ∨ r.Solid → ¬ r.Overtaken front back) ∧
    (isSnake (stem r.source) = true → ¬ r.oldName.toList <+: "SidekiqJobs".toList →
      ¬ "SidekiqJobs".toList <:+ r.oldName.toList → r.Solid) ∧
    ∀ new, r.redirect (front ++ (r.oldConstant.toList ++ back)) = .ok new →
      (r.Keeps front back → r.Becomes front back r.oldConstant.toList new) ∧
        (r.Takes front back → ∃ mid, r.replacement? = some mid ∧ r.Becomes front back mid new) := by
  have hasked := asked_of_planned ht hr
  have hold := hasked.old_ne
  refine ⟨fun hfront => ⟨?_, fun hbare hends halone => ?_⟩, fun hlonger => ?_, fun hsolid => ?_,
    solid_of_planned ht hr, fun new hnew => ⟨fun hkept => ?_, fun htaken => ?_⟩⟩
  · rw [Relocation.keeps_iff hold, refers_iff_of_isQualifier hold hfront, not_and_or,
      Bool.not_eq_false]
  · have hrefers := (refers_iff_of_isQualifier hold hfront).mpr ⟨hbare, hends⟩
    exact Relocation.takes_of_refers hold hrefers halone
  · rw [Relocation.keeps_iff hold, and_iff_right]
    intro hrefers
    exact endsWord_of_refers hold hrefers (hlonger.1.trans hlonger.2.symm)
  · refine Relocation.not_overtaken hold (hsolid.elim (fun hbare => ?_) id)
    cases hasked with
    | stock names _ _ _ => cases hbare
    | order kind names _ _ _ _ => cases hbare
    | pos _ => exact solid_posRelocation
  · exact Relocation.becomes_of_keeps hkept hnew
  · exact Relocation.becomes_of_takes hold htaken hnew

/-- A job about stock. -/
def syncJob : Relocation :=
  ⟨"app/jobs/inventory/sync_stock_job.rb", "app/jobs/sidekiq/stock/sync.rb",
    "Inventory::SyncStockJob", "Sidekiq::Stock::Sync", false⟩

/-- An application with this job only. -/
def syncTree : Tree :=
  { files := [(["app", "jobs", "inventory", "sync_stock_job.rb"],
      Text.encode "class SyncStockJob\nend\n".toList)] }

theorem syncJob_mem_planned : syncJob ∈ planned syncTree ⟨[], "."⟩ := by
  have hjob : stockRelocation (Path.ofNames ["app", "jobs", "inventory", "sync_stock_job.rb"]) =
      syncJob := by
    decide
  have hasked : Asked allJobs syncJob := by
    rw [← hjob]
    exact .stock _ rfl ⟨by decide, by decide⟩ (by decide)
  have hnamed : syncJob.Named ["app", "jobs", "inventory", "sync_stock_job.rb"]
      ["app", "jobs", "sidekiq", "stock", "sync.rb"] :=
    ⟨by decide, by decide, by decide, by decide, by decide, by decide⟩
  exact mem_planned (by decide) hasked hnamed rfl

/-- The name of another class that ends like the name of this job is taken for a reference to it and
becomes the new name, and that of a class that begins like it is kept. -/
theorem keeps_qualified_iff_sync : IsQualifier "Legacy::".toList ∧
    syncJob.Takes "Legacy::".toList ".new".toList ∧ ¬ syncJob.Keeps "Legacy::".toList ".new".toList ∧
    Prolonged syncJob "Test".toList ∧ syncJob.Keeps "Legacy::".toList "Test".toList ∧
    (∃ new, syncJob.redirect "Legacy::Inventory::SyncStockJob.new".toList = .ok new ∧
      syncJob.Becomes "Legacy::".toList ".new".toList syncJob.newConstant.toList new) ∧
    ∃ new, syncJob.redirect "Legacy::Inventory::SyncStockJobTest".toList = .ok new ∧
      syncJob.Becomes "Legacy::".toList "Test".toList syncJob.oldConstant.toList new := by
  have hqualified : IsQualifier "Legacy::".toList :=
    ⟨[], "Legacy".toList, by decide, by decide, by decide⟩
  have hlonger : Prolonged syncJob "Test".toList := ⟨by decide, by decide⟩
  have hends : EndsWord syncJob ".new".toList := by
    rw [EndsWord]
    decide
  have hplain : '\\' ∉ syncJob.newConstant.toList := by decide
  obtain ⟨hname, -, halone, hsolid, hnew⟩ := keeps_qualified_iff (by decide) syncJob_mem_planned
    "Legacy::".toList ".new".toList
  obtain ⟨-, hstart, halone', -, hnew'⟩ := keeps_qualified_iff (by decide) syncJob_mem_planned
    "Legacy::".toList "Test".toList
  have hone : syncJob.Solid := hsolid (by decide) (by decide) (by decide)
  obtain ⟨hkeeps, htakes⟩ := hname hqualified
  have htaken := htakes rfl hends (halone (.inr hone))
  have hkept := (hstart hlonger).mpr (halone' (.inr hone))
  refine ⟨hqualified, htaken, fun hsame => ?_, hlonger, hkept, ?_, ?_⟩
  · rcases (hkeeps.mp hsame).1 with hbare | hnone
    · cases hbare
    · exact hnone hends
  · obtain ⟨new, hredirect⟩ := Relocation.exists_redirect_of_notMem hplain
      "Legacy::Inventory::SyncStockJob.new".toList
    obtain ⟨mid, hmid, hbecomes⟩ := (hnew new hredirect).2 htaken
    rw [Relocation.replacement?_of_notMem hplain] at hmid
    obtain rfl := Option.some.inj hmid
    exact ⟨new, hredirect, hbecomes⟩
  · obtain ⟨new, hredirect⟩ := Relocation.exists_redirect_of_notMem hplain
      "Legacy::Inventory::SyncStockJobTest".toList
    exact ⟨new, hredirect, (hnew' new hredirect).1 hkept⟩

/-- The name of the other class is not the same afterwards. -/
theorem redirect_legacy : syncJob ∈ planned syncTree ⟨[], "."⟩ ∧ IsQualifier "Legacy::".toList ∧
    ¬ syncJob.Keeps "Legacy::".toList [] ∧
    (syncJob.redirect "Legacy::Inventory::SyncStockJob".toList).toOption =
      some "Legacy::Sidekiq::Stock::Sync".toList := by
  have hqualified : IsQualifier "Legacy::".toList :=
    ⟨[], "Legacy".toList, by decide, by decide, by decide⟩
  have hrefers : syncJob.Refers "Legacy::".toList.reverse [] :=
    (refers_iff_of_isQualifier (by decide) hqualified).mpr ⟨rfl, by rw [EndsWord]; decide⟩
  exact ⟨syncJob_mem_planned, hqualified,
    fun hkept => ((Relocation.keeps_iff (by decide)).mp hkept).1 hrefers, by decide⟩

end Project

end RailsUpgrade
