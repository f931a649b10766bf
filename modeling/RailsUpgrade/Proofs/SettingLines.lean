import RailsUpgrade.Settings.Load
import Mathlib.Tactic.SplitIfs

/-!
# `RailsUpgrade.Proofs.SettingLines`: documents of one line

A line with a key, a colon and a value is a document. Its tokens are told one after the other, and from
them its value:

* `Spot.plainWord_append`: a word of plain characters is read up to what ends it;
* `next_key`, `next_colon`, `next_value`, `next_end`: what each step of the scan does to the line;
* `scan_line`: so the tokens of the line are those of a mapping with one entry;
* `read_line`: which it is, if the key is a text and the value a number with a point.
-/

set_option autoImplicit false

namespace RailsUpgrade.Yaml

variable {c : Char} {w rest : List Char} {i l col : Nat}

/-! ### Words -/

/-- Characters that belong to a plain scalar wherever they stand. -/
structure IsPlain (c : Char) : Prop where
  gap : isGap c = false
  colon : c ≠ ':'
  mark : c.toNat ≠ 0xFEFF

theorem IsPlain.break (h : IsPlain c) : isBreak c = false := by
  have hgap := h.gap
  simp only [isGap, endsWord, endsLine, Bool.or_eq_false_iff] at hgap
  exact hgap.2.2.2

theorem Spot.step_plain (h : IsPlain c) :
    Spot.step ⟨c :: rest, i, l, col⟩ = ⟨rest, i + 1, l, col + 1⟩ := by
  have hmark : (c.toNat == 0xFEFF) = false := by simpa using h.mark
  simp [Spot.step, h.break, hmark]

/-- A word in front of its end is read as it is. -/
theorem Spot.plainWord_append (hw : ∀ c ∈ w, IsPlain c) {fuel : Nat} (hfuel : w.length ≤ fuel)
    (hstop : Spot.endsPlain false ⟨rest, i + w.length, l, col + w.length⟩ = true) :
    Spot.plainWord false fuel ⟨w ++ rest, i, l, col⟩ =
      (w, ⟨rest, i + w.length, l, col + w.length⟩) := by
  -- The fuel is spent letter by letter, so that the length of the word is enough of it.
  induction w generalizing fuel i col with
  | nil =>
    cases fuel with
    | zero => rfl
    | succ fuel =>
      rw [List.nil_append, plainWord, if_pos (by simpa using hstop)]
      rfl
  | cons c w ih =>
    obtain ⟨fuel, rfl⟩ := Nat.exists_eq_add_one_of_ne_zero
      (Nat.ne_zero_of_lt (Nat.lt_of_lt_of_le (Nat.succ_pos _) hfuel))
    have hc := hw c List.mem_cons_self
    have hgo : Spot.endsPlain false ⟨c :: w ++ rest, i, l, col⟩ = false := by
      have hgap := hc.gap
      have hcolon : (c == ':') = false := by simpa using hc.colon
      simp [Spot.endsPlain, Spot.peek, hgap, hcolon]
    have hlength : ∀ n, n + (w.length + 1) = n + 1 + w.length := fun n => by omega
    rw [List.length_cons, hlength, hlength] at hstop
    rw [List.cons_append] at hgo ⊢
    rw [plainWord, if_neg (by simp [hgo]), step_plain hc]
    simp only [ih (fun x hx => hw x (List.mem_cons_of_mem c hx))
      (Nat.le_of_succ_le_succ hfuel) hstop, List.length_cons, hlength]
    rfl

/-- A word with which a plain scalar may start. -/
structure StartsPlain (w : List Char) : Prop where
  ne_nil : w ≠ []
  plain : ∀ c ∈ w, IsPlain c
  sign : ∀ c ∈ w.head?, Scan.isSign c = false ∧ c ≠ '.'

theorem StartsPlain.notComment (hw : StartsPlain w) (rest : List Char) (i l col : Nat) :
    (Spot.peek ⟨w ++ rest, i, l, col⟩ == '#') = false := by
  obtain ⟨c, more, rfl⟩ := List.exists_cons_of_ne_nil hw.ne_nil
  have hsign := (hw.sign c rfl).1
  rw [beq_eq_false_iff_ne]
  rintro hc
  rw [show c = '#' from hc] at hsign
  exact absurd hsign (by decide)

/-- A plain scalar in front of a colon is one word. -/
theorem Spot.plain_key (hw : StartsPlain w) (i l col least : Nat) (tail : List Char) :
    Spot.plain false least ⟨w ++ ':' :: ' ' :: tail, i, l, col⟩ =
      (w, false, ⟨':' :: ' ' :: tail, i + w.length, l, col + w.length⟩) := by
  have hfuel : w.length ≤ (w ++ ':' :: ' ' :: tail).length := by simp
  have hstop : Spot.endsPlain false ⟨':' :: ' ' :: tail, i + w.length, l, col + w.length⟩ = true :=
    rfl
  have hword := Spot.plainWord_append hw.plain hfuel hstop
  have hgap : Spot.plainGap ⟨':' :: ' ' :: tail, i + w.length, l, col + w.length⟩ =
      ([], false, ⟨':' :: ' ' :: tail, i + w.length, l, col + w.length⟩) := rfl
  have hne : w.isEmpty = false := by simpa using hw.ne_nil
  rw [Spot.plain, Spot.plainParts, hw.notComment, if_neg Bool.false_ne_true, hword]
  simp [hgap, hne]

/-- A plain scalar at the end of the last line is one word. -/
theorem Spot.plain_value (hw : StartsPlain w) (i l col : Nat) {least : Nat} (hleast : 0 < least) :
    Spot.plain false least ⟨w ++ ['\n'], i, l, col⟩ =
      (w, true, ⟨[], i + w.length + 1, l + 1, 0⟩) := by
  have hfuel : w.length ≤ (w ++ ['\n']).length := by simp
  have hstop : Spot.endsPlain false ⟨['\n'], i + w.length, l, col + w.length⟩ = true := rfl
  have hword := Spot.plainWord_append hw.plain hfuel hstop
  have hgap : Spot.plainGap ⟨['\n'], i + w.length, l, col + w.length⟩ =
      ([' '], true, ⟨[], i + w.length + 1, l + 1, 0⟩) := rfl
  have hne : w.isEmpty = false := by simpa using hw.ne_nil
  rw [Spot.plain, Spot.plainParts, hw.notComment, if_neg Bool.false_ne_true, hword]
  simp [hgap, hne, hleast]

/-! ### Scanning -/

-- Looking into what reads the next characters would take too long here, and the equations of the two
-- loops do not need it.
attribute [local irreducible] Scan.next Spot.skipSpaces Spot.skipComment Spot.lineBreak?

/-- A gap goes on after a line break. -/
theorem skipGap_succ (fuel : Nat) (s : Scan) : Scan.skipGap (fuel + 1) s =
    match s.spot.skipSpaces.skipComment.lineBreak? with
    | none => { s with spot := s.spot.skipSpaces.skipComment }
    | some (_, spot) => Scan.skipGap fuel { s with spot, mayKey := s.mayKey || !s.inFlow } :=
  rfl

/-- Scanning goes on until the end of the document. -/
theorem run_succ (fuel : Nat) (s : Scan) : Scan.run (fuel + 1) s = match s.next with
    | .error fault => s.certain ++ [Token.fault fault]
    | .ok t => if t.tokens.head? == some Token.finish then t.tokens.reverse else Scan.run fuel t :=
  rfl

theorem StartsPlain.lineBreak? (hw : StartsPlain w) (rest : List Char) (i l col : Nat) :
    Spot.lineBreak? ⟨w ++ rest, i, l, col⟩ = none := by
  obtain ⟨c, more, rfl⟩ := List.exists_cons_of_ne_nil hw.ne_nil
  have hbreak := (hw.plain c List.mem_cons_self).break
  have hparts := hbreak
  simp only [isBreak, Bool.or_eq_false_iff] at hparts
  simp [Spot.lineBreak?, Spot.peek, hbreak, hparts]

/-- Spaces in front of a word are passed over, and nothing else. -/
theorem StartsPlain.toToken (hw : StartsPlain w) {s : Scan} {spaces : List Char}
    (hspaces : spaces = [] ∨ spaces = [' ']) (hs : s.spot = ⟨spaces ++ w ++ rest, i, l, col⟩) :
    s.toToken =
      { s with spot := ⟨w ++ rest, i + spaces.length, l, col + spaces.length⟩ } := by
  obtain ⟨c, more, hcons⟩ := List.exists_cons_of_ne_nil hw.ne_nil
  have hc := hw.plain c (hcons ▸ List.mem_cons_self)
  have hmark : (s.spot.peek.toNat == 0xFEFF) = false := by
    obtain rfl | rfl := hspaces <;> rw [hs, hcons]
    · simpa [Spot.peek] using hc.mark
    · rfl
  have hspace : (c == ' ') = false := by
    have hgap := hc.gap
    simp only [isGap, endsWord, Bool.or_eq_false_iff] at hgap
    exact hgap.2.1
  have hskip : s.spot.skipSpaces = ⟨w ++ rest, i + spaces.length, l, col + spaces.length⟩ := by
    obtain rfl | rfl := hspaces <;>
      simp [hs, hcons, Spot.skipSpaces, Spot.skipWhile, Spot.span, Spot.advance, hspace, Spot.step,
        isBreak]
  have hcomment : s.spot.skipSpaces.skipComment =
      ⟨w ++ rest, i + spaces.length, l, col + spaces.length⟩ := by
    rw [hskip, Spot.skipComment, hw.notComment, if_neg Bool.false_ne_true]
  simp only [Scan.toToken, hmark, Bool.and_false, Bool.false_eq_true, if_false, skipGap_succ,
    hcomment, hw.lineBreak?]

/-- Where a plain scalar may start, the next token is one. -/
theorem StartsPlain.next (hw : StartsPlain w) {s : Scan} (hs : s.spot = ⟨w ++ rest, i, l, col⟩)
    (hpending : s.dropStale = .ok s) (hmargins : s.close (col + 1) = s) : s.next = s.plainScalar := by
  obtain ⟨c, more, rfl⟩ := List.exists_cons_of_ne_nil hw.ne_nil
  obtain ⟨hsign, hdot⟩ := hw.sign c rfl
  have hpeek : s.spot.peek = c := by rw [hs]; rfl
  have hcol : s.spot.column = col := by rw [hs]
  have hne : ∀ d : Char, Scan.isSign d = true → (c == d) = false := fun d hd => by
    rw [beq_eq_false_iff_ne]
    rintro rfl
    rw [hsign] at hd
    exact Bool.false_ne_true hd
  have hdot : (c == '.') = false := by simpa using hdot
  have hstarts : s.startsPlain = true := by
    unfold Scan.startsPlain
    simp [hpeek, hsign]
  have htoken : s.toToken = s := by
    obtain ⟨spot, _, _, _, _, _⟩ := s
    simp only at hs
    subst hs
    exact hw.toToken (.inl rfl) rfl
  rw [Scan.next, htoken, hpending]
  simp only [bind, Except.bind, hcol, hmargins, hpeek, hdot, hne ending rfl, hne '%' rfl, hne '-' rfl,
    hne '[' rfl, hne '\x7b' rfl, hne ']' rfl, hne '\x7d' rfl, hne ',' rfl, hne '?' rfl, hne ':' rfl,
    hne '*' rfl, hne '&' rfl, hne '!' rfl, hne '|' rfl, hne '>' rfl, hne '\x27' rfl, hne '\x22' rfl,
    Bool.false_and, Bool.false_or, Bool.false_eq_true, if_false, hstarts, if_true]

/-- The next token depends only on what is left after the gap in front of it. -/
theorem next_congr {s t : Scan} (h : s.toToken = t.toToken) : s.next = t.next := by
  rw [Scan.next, Scan.next, h]

theorem run_step {s t : Scan} (h : s.next = .ok t) (hmore : t.tokens.head? ≠ some Token.finish)
    (fuel : Nat) : Scan.run (fuel + 1) s = Scan.run fuel t := by
  rw [run_succ, h]
  exact if_neg (by simpa using hmore)

theorem run_end {s t : Scan} (h : s.next = .ok t) (hend : t.tokens.head? = some Token.finish)
    (fuel : Nat) : Scan.run (fuel + 1) s = t.tokens.reverse := by
  rw [run_succ, h]
  exact if_pos (by simpa using hend)

variable {key value : List Char}

/-- The key of the line. -/
theorem next_key (hkey : StartsPlain key) (tail : List Char) :
    Scan.next ⟨⟨key ++ ':' :: ' ' :: tail, 0, 0, 0⟩, 0, [], true, [], []⟩ =
      .ok ⟨⟨':' :: ' ' :: tail, key.length, 0, key.length⟩, 0, [], false,
        [⟨0, 0, false, 0, 0, 0⟩], [.scalar key true false]⟩ := by
  rw [hkey.next rfl rfl rfl]
  have hplain := Spot.plain_key hkey 0 0 0 0 tail
  rw [Nat.zero_add] at hplain
  simp [Scan.plainScalar, Scan.noteKey, Scan.dropKey, Scan.inFlow, Scan.least, Scan.add, bind,
    Except.bind, pure, Except.pure, hplain]

/-- The colon after it, which shows that it is one. -/
theorem next_colon (hlimit : key.length ≤ keyLimit) (tail : List Char) :
    Scan.next ⟨⟨':' :: ' ' :: tail, key.length, 0, key.length⟩, 0, [], false,
        [⟨0, 0, false, 0, 0, 0⟩], [.scalar key true false]⟩ =
      .ok ⟨⟨' ' :: tail, key.length + 1, 0, key.length + 1⟩, 0, [0], false, [],
        [.value, .scalar key true false, .key, .mapStart]⟩ := by
  have hstale : PendingKey.isStale ⟨0, 0, false, 0, 0, 0⟩
      ⟨':' :: ' ' :: tail, key.length, 0, key.length⟩ = false := by
    simp [PendingKey.isStale, hlimit]
  have htoken : Scan.toToken ⟨⟨':' :: ' ' :: tail, key.length, 0, key.length⟩, 0, [], false,
      [⟨0, 0, false, 0, 0, 0⟩], [.scalar key true false]⟩ =
        ⟨⟨':' :: ' ' :: tail, key.length, 0, key.length⟩, 0, [], false,
          [⟨0, 0, false, 0, 0, 0⟩], [.scalar key true false]⟩ := by
    simp [Scan.toToken, skipGap_succ, Spot.skipSpaces, Spot.skipWhile, Spot.span, Spot.advance,
      Spot.skipComment, Spot.peek, Spot.lineBreak?, isBreak]
  rw [Scan.next, htoken]
  simp [Scan.dropStale, hstale, bind, Except.bind, Scan.close, Scan.inFlow, Spot.peek, Spot.peekAt,
    ending, isGap, endsWord, Scan.valueSign, Scan.openAt, Scan.least, Scan.add, Spot.step, isBreak]

/-- The value of the line. -/
theorem next_value (hvalue : StartsPlain value) :
    Scan.next ⟨⟨' ' :: (value ++ ['\n']), i, 0, i⟩, 0, [0], false, [],
        [.value, .scalar key true false, .key, .mapStart]⟩ =
      .ok ⟨⟨[], i + 1 + value.length + 1, 1, 0⟩, 0, [0], true, [],
        [.scalar value true false, .value, .scalar key true false, .key, .mapStart]⟩ := by
  have hspace : [' '] = [] ∨ [' '] = [' '] := .inr rfl
  have htoken := hvalue.toToken (s := ⟨⟨' ' :: (value ++ ['\n']), i, 0, i⟩, 0, [0], false, [],
    [.value, .scalar key true false, .key, .mapStart]⟩) hspace rfl
  have hsame := hvalue.toToken (s := ⟨⟨value ++ ['\n'], i + 1, 0, i + 1⟩, 0, [0], false, [],
    [.value, .scalar key true false, .key, .mapStart]⟩) (.inl rfl) rfl
  rw [next_congr (htoken.trans hsame.symm), hvalue.next rfl rfl rfl]
  have hplain := Spot.plain_value hvalue (i + 1) 0 (i + 1) Nat.one_pos
  simp [Scan.plainScalar, Scan.noteKey, Scan.inFlow, Scan.least, Scan.add, bind,
    Except.bind, pure, Except.pure, hplain]

/-- The end of the document. -/
theorem next_end (tokens : List Token) :
    Scan.next ⟨⟨[], i, 1, 0⟩, 0, [0], true, [], tokens⟩ =
      .ok ⟨⟨[], i, 1, 0⟩, 0, [], true, [], .finish :: .blockEnd :: tokens⟩ := by
  have htoken : Scan.toToken ⟨⟨[], i, 1, 0⟩, 0, [0], true, [], tokens⟩ =
      ⟨⟨[], i, 1, 0⟩, 0, [0], true, [], tokens⟩ := by
    simp [Scan.toToken, skipGap_succ, Spot.skipSpaces, Spot.skipWhile, Spot.span, Spot.advance,
      Spot.skipComment, Spot.peek, Spot.lineBreak?, ending, isBreak]
  rw [Scan.next, htoken]
  simp [Scan.dropStale, Scan.close, Spot.peek, Scan.dropKey, Scan.inFlow, Scan.add, bind,
    Except.bind, pure, Except.pure]

/-- A document of one line. -/
def lineOf (key value : List Char) : List Char := key ++ ':' :: ' ' :: (value ++ ['\n'])

/-- A line with a key and a value is a mapping with one entry. -/
theorem scan_line (hkey : StartsPlain key) (hlimit : key.length ≤ keyLimit)
    (hvalue : StartsPlain value) :
    Token.scan (lineOf key value) = [.mapStart, .key, .scalar key true false, .value,
      .scalar value true false, .blockEnd, .finish] := by
  have hfuel : (lineOf key value).length + 2 = (key.length + value.length) + 1 + 1 + 1 + 1 + 1 := by
    simp [lineOf]
    omega
  rw [Token.scan, hfuel, lineOf, run_step (next_key hkey _) (by simp),
    run_step (next_colon hlimit _) (by simp), run_step (next_value hvalue) (by simp),
    run_end (next_end _) rfl]
  rfl

/-! ### The value -/

/-- The tree of a line with a key and a value. -/
theorem ofTokens_line (key value : List Char) :
    Node.ofTokens [.mapStart, .key, .scalar key true false, .value, .scalar value true false,
      .blockEnd, .finish] =
    .ok (some (.map .map [(.scalar (.ofForm key) key false, .scalar (.ofForm value) value false)])) := by
  rfl

/-- The value of a line with a key that is a text and a value that is a number with a point. -/
theorem read_line {x : Binary64} (hkey : StartsPlain key) (hlimit : key.length ≤ keyLimit)
    (hvalue : StartsPlain value) (hplain : ∀ c ∈ key ++ value, isForbidden c = false)
    (htext : Tag.ofForm key = .text) (hfloat : Tag.ofForm value = .float)
    (hx : floatValue value = .ok x) :
    read (lineOf key value) = .ok (.map [(.text (String.ofList key), .float x)]) := by
  have hallowed : (lineOf key value).any isForbidden = false := by
    rw [List.any_eq_false]
    intro c hc
    simp only [lineOf, List.mem_append, List.mem_cons, List.not_mem_nil, or_false] at hc
    obtain hc | rfl | rfl | hc | rfl := hc
    · simp [hplain c (List.mem_append_left _ hc)]
    · decide
    · decide
    · simp [hplain c (List.mem_append_right _ hc)]
    · decide
  have hread : Node.read 16 0 (.map .map [(.scalar .text key false,
      .scalar .float value false)]) = ⟨.map [(.text (String.ofList key), .float x)], none⟩ := by
    simp [Node.read, Node.tag, Node.readEntries, Node.merged, Node.asKey, Node.addEntry,
      Node.scalarText?, scalarValue, hx, Value.put, Value.isKey, Flaw.first, Except.map, bind,
      Except.bind, pure, Except.pure]
  rw [read, if_neg (by rw [hallowed]; exact Bool.false_ne_true), scan_line hkey hlimit hvalue]
  simp only [ofTokens_line, htext, hfloat, List.length_cons, List.length_nil, Nat.reduceAdd, Nat.reduceMul,
    hread]

end RailsUpgrade.Yaml
