import Mathlib.Data.List.Forall2
import Mathlib.Tactic.SplitIfs
import RailsUpgrade.Report.Json

/-!
# `RailsUpgrade.Proofs.JsonText`: the report for programs can be read back

A reader for the data format takes a text apart as its grammar says: blanks may stand around every
part, a text is spelled by characters and escapes that stand for UTF-16 units, and the names of an
object are distinct. Numbers and `null` do not occur in reports, so they are not read.

Two halves of a pair are spelled like the code point that the pair stands for. So what is read is the
value with such halves joined, which is the value itself if no first half stands right before a second
one.

* `Spells`, `Spells.readUnits?`: the ways to spell a code point, which are read as its UTF-16 units;
* `joined_of_apart`: from their units code points are read again, if they are `Apart`;
* `utf16_decode`: and what is read has the same units, so that it is spelled in the same way;
* `readText?_quoted`, `readValue?_write`: a written value is read with its halves joined, at every
  level and whatever comes behind it;
* `toText_joined`: a value with its halves joined is written in the same way;
* `json_lossless`: a report is in ASCII and tells the value that it was written from up to this, so that
  outcomes whose texts are `Apart` and that have one report have the same findings, marks and changed
  files.
-/

set_option autoImplicit false

namespace RailsUpgrade

open Text (CodePoint Coded)

namespace Json

/-! ### Texts -/

/-- The UTF-16 units of a code point. -/
def utf16 (p : CodePoint) : List Nat :=
  if p.val < 65536 then [p.val]
  else [55296 + (p.val - 65536) / 1024, 56320 + (p.val - 65536) % 1024]

/-- The first unit of a pair. -/
def isHigh (n : Nat) : Bool := 55296 ≤ n && n < 56320

/-- The second unit of a pair. -/
def isLow (n : Nat) : Bool := 56320 ≤ n && n < 57344

/-- The code points that UTF-16 units stand for. A half of a pair that stands alone is one, too. -/
@[grind =] def decode : List Nat → List CodePoint
  | [] => []
  | [n] => [Fin.ofNat _ n]
  | n :: m :: units =>
    if isHigh n && isLow m then
      Fin.ofNat _ (65536 + (n - 55296) * 1024 + (m - 56320)) :: decode units
    else Fin.ofNat _ n :: decode (m :: units)

/-- A text in which the halves of pairs that stand together are joined. -/
def joinedText (s : List CodePoint) : List CodePoint := decode (s.flatMap utf16)

/-- No first half of a pair stands right before a second one. -/
def Apart (s : List CodePoint) : Prop := s.IsChain fun p q => ¬ (isHigh p = true ∧ isLow q = true)

instance (s : List CodePoint) : Decidable (Apart s) :=
  inferInstanceAs (Decidable (s.IsChain fun p q => ¬ (isHigh p = true ∧ isLow q = true)))

/-- The value of a hexadecimal digit. -/
def hexValue? (c : Char) : Option Nat :=
  if '0' ≤ c ∧ c ≤ '9' then some (c.toNat - 48)
  else if 'a' ≤ c ∧ c ≤ 'f' then some (c.toNat - 87)
  else if 'A' ≤ c ∧ c ≤ 'F' then some (c.toNat - 55)
  else none

/-- The unit that hexadecimal digits stand for. -/
def unit? (digits : List Char) : Option Nat :=
  (digits.mapM hexValue?).map (·.foldl (fun n digit => 16 * n + digit) 0)

/-- The unit that a character behind a backslash stands for. -/
def escape? : Char → Option Nat
  | '\x22' => some 34
  | '\\' => some 92
  | '/' => some 47
  | 'b' => some 8
  | 'f' => some 12
  | 'n' => some 10
  | 'r' => some 13
  | 't' => some 9
  | _ => none

/-- The units of a text up to its closing quote, and what stands behind the quote. -/
@[grind =] def readUnits? : List Char → Option (List Nat × List Char)
  | [] => none
  | '\x22' :: rest => some ([], rest)
  | '\\' :: 'u' :: a :: b :: c :: d :: rest =>
    (unit? [a, b, c, d]).bind fun n => (readUnits? rest).map fun r => (n :: r.1, r.2)
  | '\\' :: c :: rest =>
    (escape? c).bind fun n => (readUnits? rest).map fun r => (n :: r.1, r.2)
  | c :: rest =>
    if c.toNat < 32 then none
    else (readUnits? rest).map fun r => (utf16 (CodePoint.ofChar c) ++ r.1, r.2)

/-- A text behind its opening quote, and what stands behind it. -/
def readText? (s : List Char) : Option (List CodePoint × List Char) :=
  (readUnits? s).map fun r => (decode r.1, r.2)

/-! ### Values -/

/-- Blanks between the parts of a value. -/
def isGap (c : Char) : Bool := c == ' ' || c == '\n' || c == '\r' || c == '\t'

/-- A text without the blanks in front. -/
def skip (s : List Char) : List Char := s.dropWhile isGap

/-- The name of a member with the colon behind it, and what stands behind the colon. -/
def readName? (s : List Char) : Option (String × List Char) :=
  match skip s with
  | '\x22' :: rest => (readText? rest).bind fun (name, rest) => (Text.chars? name).bind fun name =>
    match skip rest with
    | ':' :: rest => some (String.ofList name, rest)
    | _ => none
  | _ => none

/-- A truth value, and what stands behind it. -/
def readBool? : List Char → Option (Json × List Char)
  | 't' :: 'r' :: 'u' :: 'e' :: rest => some (.bool true, rest)
  | 'f' :: 'a' :: 'l' :: 's' :: 'e' :: rest => some (.bool false, rest)
  | _ => none

mutual

/-- The value in front of a text, and what stands behind it. The bound is for the depth of the value
and the number of its parts. -/
@[grind =] def readValue? : Nat → List Char → Option (Json × List Char)
  | 0, _ => none
  | bound + 1, s =>
    match skip s with
    | '\x22' :: rest => (readText? rest).map fun r => (.text r.1, r.2)
    | '[' :: rest =>
      match skip rest with
      | ']' :: rest => some (.list [], rest)
      | _ => (readItems? bound rest).map fun r => (.list r.1, r.2)
    | '\x7b' :: rest =>
      match skip rest with
      | '\x7d' :: rest => some (.object [], rest)
      | _ => (readMembers? bound rest).bind fun r =>
        if (r.1.map Prod.fst).Nodup then some (.object r.1, r.2) else none
    | rest => readBool? rest

/-- The items of a list, which is not empty, and what stands behind its closing bracket. -/
@[grind =] def readItems? : Nat → List Char → Option (List Json × List Char)
  | 0, _ => none
  | bound + 1, s =>
    (readValue? bound s).bind fun (item, rest) =>
      match skip rest with
      | ',' :: rest => (readItems? bound rest).map fun r => (item :: r.1, r.2)
      | ']' :: rest => some ([item], rest)
      | _ => none

/-- The members of an object, which is not empty, and what stands behind its closing brace. -/
@[grind =] def readMembers? : Nat → List Char → Option (List (String × Json) × List Char)
  | 0, _ => none
  | bound + 1, s =>
    (readName? s).bind fun (name, rest) => (readValue? bound rest).bind fun (value, rest) =>
      match skip rest with
      | ',' :: rest => (readMembers? bound rest).map fun r => ((name, value) :: r.1, r.2)
      | '\x7d' :: rest => some ([(name, value)], rest)
      | _ => none

end

/-- The value that a text spells. Only blanks may stand behind it. -/
def read? (s : String) : Option Json :=
  (readValue? s.toList.length s.toList).bind fun (value, rest) =>
    if (skip rest).isEmpty then some value else none

/-! ### A quoted text is read back -/

theorem hexValue?_hexDigit : ∀ n < 16, hexValue? (Text.hexDigit n) = some n := by decide

/-- Four digits are read as the number that they were written for. -/
theorem unit?_hexDigits {n : Nat} (h : n < 65536) : unit? (Text.hexDigits 4 n) = some n := by
  have hread : ∀ m : Nat, hexValue? (Text.hexDigit (m % 16)) = some (m % 16) := fun m =>
    hexValue?_hexDigit _ (Nat.mod_lt _ (by decide))
  simp only [unit?, Text.hexDigits, List.nil_append, List.cons_append, List.mapM_cons,
    List.mapM_nil, hread, Option.bind_eq_bind, Option.bind_some, Option.pure_def, Option.map_some,
    List.foldl_cons, List.foldl_nil, Option.some.injEq]
  omega

theorem readUnits?_unit {n : Nat} (h : n < 65536) (rest : List Char) :
    readUnits? (unit n ++ rest) = (readUnits? rest).map fun r => (n :: r.1, r.2) := by
  have hdigits := unit?_hexDigits h
  simp only [unit, Text.hexDigits, List.nil_append, List.cons_append] at hdigits ⊢
  rw [readUnits?, hdigits, Option.bind_some]

theorem readUnits?_escape {c : Char} {n : Nat} (hc : c ≠ 'u') (h : escape? c = some n)
    (rest : List Char) :
    readUnits? ('\\' :: c :: rest) = (readUnits? rest).map fun r => (n :: r.1, r.2) := by
  rw [readUnits?, h, Option.bind_some]
  intro _ _ _ _ _ hu
  exact absurd hu hc

theorem readUnits?_plain {c : Char} (hquote : c ≠ '\x22') (hslash : c ≠ '\\') (h : 32 ≤ c.toNat)
    (rest : List Char) : readUnits? (c :: rest) =
      (readUnits? rest).map fun r => (utf16 (CodePoint.ofChar c) ++ r.1, r.2) := by
  rw [readUnits?, if_neg (by omega)]
  · exact fun hc => absurd hc hquote
  · exact fun _ _ _ _ _ hc => absurd hc hslash
  · exact fun _ _ hc => absurd hc hslash

theorem eq_ofChar {p : CodePoint} {c : Char} (h : (p.val == c.toNat) = true) :
    p = CodePoint.ofChar c := Fin.ext (eq_of_beq h)

theorem toNat_ofNat {n : Nat} (h : n.isValidChar) : (Char.ofNat n).toNat = n := by
  rw [Char.ofNat, dif_pos h]
  rfl

/-- The characters that a backslash and a letter or mark stand for. -/
def escapes : List (Char × Char) :=
  [('\x22', '\x22'), ('\\', '\\'), ('\n', 'n'), ('\r', 'r'), ('\t', 't'), ('\x08', 'b'), ('\x0c', 'f')]

/-- The ways to spell a code point. -/
inductive Spells : CodePoint → List Char → Prop
  | escape {c mark : Char} (h : (c, mark) ∈ escapes) : Spells (CodePoint.ofChar c) ['\\', mark]
  | plain {c : Char} (hquote : c ≠ '\x22') (hslash : c ≠ '\\') (hleast : 32 ≤ c.toNat)
      (hmost : c.toNat < 127) : Spells (CodePoint.ofChar c) [c]
  | unit {p : CodePoint} (h : p.val < 65536) : Spells p (unit p)
  | pair {p : CodePoint} (h : 65536 ≤ p.val) :
      Spells p (unit (55296 + (p.val - 65536) / 1024) ++ unit (56320 + (p.val - 65536) % 1024))

theorem spells_quotedPoint (p : CodePoint) : Spells p (quotedPoint p) := by
  simp only [quotedPoint]
  split_ifs with hmark hn hr ht hb hf hplain hsmall
  · rw [Bool.or_eq_true] at hmark
    rcases hmark with h | h
    · obtain rfl := eq_ofChar h
      exact .escape (by decide)
    · obtain rfl := eq_ofChar h
      exact .escape (by decide)
  -- Some control characters have short escapes, the others are spelled by their numbers.
  · obtain rfl := eq_ofChar hn
    exact .escape (by decide)
  · obtain rfl := eq_ofChar hr
    exact .escape (by decide)
  · obtain rfl := eq_ofChar ht
    exact .escape (by decide)
  · obtain rfl := eq_ofChar hb
    exact .escape (by decide)
  · obtain rfl := eq_ofChar hf
    exact .escape (by decide)
  · have hrange : 32 ≤ p.val ∧ p.val < 127 := by simpa using hplain
    obtain ⟨c, rfl⟩ : ∃ c, p = CodePoint.ofChar c :=
      ⟨Char.ofNat p, Fin.ext (toNat_ofNat (.inl (by omega))).symm⟩
    have hchar : Char.ofNat (CodePoint.ofChar c).val = c := Char.ofNat_toNat c
    simp only [Bool.or_eq_true, not_or] at hmark
    rw [hchar]
    exact .plain (fun hc => hmark.1 (by rw [hc]; rfl)) (fun hc => hmark.2 (by rw [hc]; rfl))
      hrange.1 hrange.2
  · exact .unit hsmall
  · exact .pair (Nat.le_of_not_lt hsmall)

/-- What spells a code point is read as its units. -/
theorem Spells.readUnits? {p : CodePoint} {s : List Char} (h : Spells p s) (rest : List Char) :
    Json.readUnits? (s ++ rest) = (Json.readUnits? rest).map fun r => (utf16 p ++ r.1, r.2) := by
  cases h with
  | @escape c mark h =>
    have hescapes : ∀ e ∈ escapes, e.2 ≠ 'u' ∧ escape? e.2 = some e.1.toNat ∧
        utf16 (CodePoint.ofChar e.1) = [e.1.toNat] := by decide
    obtain ⟨hne, hescape, hunits⟩ := hescapes _ h
    rw [hunits]
    exact readUnits?_escape hne hescape rest
  | plain hquote hslash hleast _ => exact readUnits?_plain hquote hslash hleast rest
  | unit h =>
    rw [readUnits?_unit h, utf16, if_pos h]
    rfl
  -- A code point beyond the first plane is two units.
  | pair h =>
    have hbound := p.isLt
    rw [List.append_assoc, readUnits?_unit (by omega), readUnits?_unit (by omega), utf16,
      if_neg (Nat.not_lt.mpr h), Option.map_map]
    rfl

theorem ofNat_val (p : CodePoint) : Fin.ofNat 0x110000 p.val = p :=
  Fin.ext (Nat.mod_eq_of_lt p.isLt)

/-- From its units a code point is read again, unless it is a first half and a second one follows. -/
theorem decode_utf16 {p : CodePoint} {units : List Nat}
    (h : isHigh p = true → ∀ m ∈ units.head?, isLow m = false) :
    decode (utf16 p ++ units) = p :: decode units := by
  have hbound := p.isLt
  unfold utf16
  split_ifs with hsmall
  · cases units with
    | nil => simp [decode]
    | cons m units =>
      have hpair : (isHigh p && isLow m) = false := by
        cases hhigh : isHigh p.val with
        | false => rfl
        | true => exact h hhigh m rfl
      rw [List.singleton_append, decode, hpair, if_neg Bool.false_ne_true, ofNat_val]
  · have hhigh : isHigh (55296 + (p.val - 65536) / 1024) = true := by simp [isHigh]; omega
    have hlow : isLow (56320 + (p.val - 65536) % 1024) = true := by simp [isLow]; omega
    have hnumber : 65536 + (55296 + (p.val - 65536) / 1024 - 55296) * 1024 +
        (56320 + (p.val - 65536) % 1024 - 56320) = p.val := by omega
    rw [List.cons_append, List.singleton_append, decode, hhigh, hlow, Bool.and_self, if_pos rfl, hnumber,
      ofNat_val]

/-- A text whose halves are apart is its own joined text. -/
theorem joined_of_apart {s : List CodePoint} (h : Apart s) : joinedText s = s := by
  induction s with
  | nil => rfl
  | cons p s ih =>
    have hrest : joinedText s = s := ih (List.IsChain.of_cons h)
    rw [joinedText, List.flatMap_cons, decode_utf16, ← joinedText, hrest]
    intro hhigh m hm
    cases s with
    | nil => cases hm
    | cons q s =>
      have hpair := (List.isChain_cons_cons.mp h).1
      have hbound := q.isLt
      rw [List.flatMap_cons, utf16] at hm
      split_ifs at hm with hsmall
      · obtain rfl : q.val = m := by simpa using hm
        exact Bool.eq_false_iff.mpr fun hlow => hpair ⟨hhigh, hlow⟩
      -- A code point beyond the first plane begins with a first half.
      · obtain rfl : 55296 + (q.val - 65536) / 1024 = m := by simpa using hm
        simp [isLow]
        omega

/-- Characters are no halves. -/
theorem apart_map_ofChar (chars : List Char) : Apart (chars.map CodePoint.ofChar) := by
  have hnone : ∀ c : Char, isHigh (CodePoint.ofChar c) = false := by
    intro c
    have hvalid : c.toNat < 55296 ∨ 57343 < c.toNat ∧ c.toNat < 1114112 := c.valid
    show (decide (55296 ≤ c.toNat) && decide (c.toNat < 56320)) = false
    simp only [Bool.and_eq_false_iff, decide_eq_false_iff_not]
    omega
  induction chars with
  | nil => exact .nil
  | cons c chars ih =>
    cases chars with
    | nil => exact .singleton _
    | cons d chars =>
      refine .cons_cons (fun hpair => ?_) ih
      rw [hnone c] at hpair
      exact Bool.false_ne_true hpair.1

theorem utf16_lt {p : CodePoint} {n : Nat} (h : n ∈ utf16 p) : n < 65536 := by
  have hbound := p.isLt
  unfold utf16 at h
  split_ifs at h with hsmall
  · rwa [List.mem_singleton.mp h]
  · simp only [List.mem_cons, List.not_mem_nil, or_false] at h
    omega

/-- What is read from units has these units. -/
theorem utf16_decode {units : List Nat} (h : ∀ n ∈ units, n < 65536) :
    (decode units).flatMap utf16 = units := by
  have hone : ∀ n < 65536, utf16 (Fin.ofNat _ n) = [n] := by
    intro n hn
    have hval : (Fin.ofNat 0x110000 n).val = n := Nat.mod_eq_of_lt (by omega)
    rw [utf16, hval, if_pos hn]
  fun_induction decode units with
  | case1 => rfl
  | case2 n => rw [List.flatMap_singleton, hone n (h n (by simp))]
  | case3 n m units hpair ih =>
    rw [List.flatMap_cons, ih fun n hn => h n (by simp [hn])]
    simp only [isHigh, isLow, Bool.and_eq_true, decide_eq_true_eq] at hpair
    have hval : (Fin.ofNat 0x110000 (65536 + (n - 55296) * 1024 + (m - 56320))).val =
        65536 + (n - 55296) * 1024 + (m - 56320) := Nat.mod_eq_of_lt (by omega)
    rw [utf16, hval, if_neg (by omega), List.cons_append, List.singleton_append, List.cons.injEq,
      List.cons.injEq]
    exact ⟨by omega, by omega, rfl⟩
  | case4 n m units hpair ih =>
    rw [List.flatMap_cons, ih fun n hn => h n (by simp [hn]), hone n (h n (by simp))]
    rfl

theorem utf16_joinedText (s : List CodePoint) : (joinedText s).flatMap utf16 = s.flatMap utf16 := by
  refine utf16_decode fun n hn => ?_
  obtain ⟨p, -, hp⟩ := List.mem_flatMap.mp hn
  exact utf16_lt hp

/-- Beyond ASCII all code points are spelled by numbers. -/
theorem quotedPoint_of_large {p : CodePoint} (h : 128 ≤ p.val) : quotedPoint p =
    if p.val < 65536 then unit p
    else unit (55296 + (p.val - 65536) / 1024) ++ unit (56320 + (p.val - 65536) % 1024) := by
  have hne : ∀ c : Char, c.toNat < 128 → (p.val == c.toNat) = false := fun c hc =>
    beq_eq_false_iff_ne.mpr (by omega)
  have hplain : (decide (32 ≤ p.val) && decide (p.val < 127)) = false := by simp; omega
  simp only [quotedPoint, hne '\x22' (by decide), hne '\\' (by decide), hne '\n' (by decide),
    hne '\r' (by decide), hne '\t' (by decide), hne '\x08' (by decide), hne '\x0c' (by decide),
    hplain, Bool.or_self, Bool.false_eq_true, if_false]

/-- A code point is spelled by its units. -/
theorem quotedPoint_eq (p : CodePoint) :
    quotedPoint p = (utf16 p).flatMap fun n => quotedPoint (Fin.ofNat _ n) := by
  have hbound := p.isLt
  have hhalf : ∀ n, 55296 ≤ n → n < 65536 → quotedPoint (Fin.ofNat _ n) = unit n := by
    intro n hleast hmost
    have hval : (Fin.ofNat 0x110000 n).val = n := Nat.mod_eq_of_lt (by omega)
    rw [quotedPoint_of_large (by omega), hval, if_pos hmost]
  unfold utf16
  split_ifs with hsmall
  · rw [List.flatMap_singleton, ofNat_val]
  · rw [List.flatMap_cons, List.flatMap_singleton, hhalf _ (by omega) (by omega),
      hhalf _ (by omega) (by omega), quotedPoint_of_large (by omega), if_neg hsmall]

/-- A text with its halves joined is spelled in the same way. -/
theorem quoted_joinedText (s : List CodePoint) : quoted (joinedText s) = quoted s := by
  have hunits : ∀ s : List CodePoint, s.flatMap quotedPoint =
      (s.flatMap utf16).flatMap fun n => quotedPoint (Fin.ofNat _ n) := by
    intro s
    rw [List.flatMap_assoc]
    exact List.flatMap_congr fun p _ => quotedPoint_eq p
  show '\x22' :: (joinedText s).flatMap quotedPoint ++ ['\x22'] = '\x22' :: s.flatMap quotedPoint ++ ['\x22']
  rw [hunits, hunits s, utf16_joinedText]

/-- A quoted text is read with its halves joined. -/
theorem readText?_quoted (s : List CodePoint) (rest : List Char) :
    readText? (s.flatMap quotedPoint ++ '\x22' :: rest) = some (joinedText s, rest) := by
  have hunits : readUnits? (s.flatMap quotedPoint ++ '\x22' :: rest) = some (s.flatMap utf16, rest) := by
    induction s with
    | nil => rfl
    | cons p s ih =>
      rw [List.flatMap_cons, List.append_assoc, (spells_quotedPoint p).readUnits?, ih]
      rfl
  rw [readText?, hunits]
  rfl

/-! ### A written value is read back -/

mutual

/-- A value with the halves joined in its texts. -/
def joined : Json → Json
  | .bool b => .bool b
  | .text s => .text (joinedText s)
  | .list items => .list (joinedItems items)
  | .object members => .object (joinedMembers members)

/-- The items of a list, with the halves joined in their texts. -/
def joinedItems : List Json → List Json
  | [] => []
  | item :: items => joined item :: joinedItems items

/-- The members of an object, with the halves joined in their texts. -/
def joinedMembers : List (String × Json) → List (String × Json)
  | [] => []
  | (name, value) :: members => (name, joined value) :: joinedMembers members

end

theorem joinedItems_eq (items : List Json) : joinedItems items = items.map joined := by
  induction items with
  | nil => rfl
  | cons item items ih => rw [joinedItems, ih, List.map_cons]

theorem map_fst_joinedMembers (members : List (String × Json)) :
    (joinedMembers members).map Prod.fst = members.map Prod.fst := by
  induction members with
  | nil => rfl
  | cons member members ih => rw [joinedMembers, List.map_cons, List.map_cons, ih]

mutual

/-- A value with its halves joined is written in the same way. -/
theorem write_joined (level : Nat) : ∀ v : Json, write level v.joined = write level v
  | .bool _ => by rw [joined]
  | .text s => by rw [joined, write, write, quoted_joinedText]
  | .list [] => by rw [joined, joinedItems]
  | .list (item :: items) => by
    rw [joined, joinedItems, write, write, write_joined _ item, writeItems_joined _ items]
  | .object [] => by rw [joined, joinedMembers]
  | .object ((_, value) :: members) => by
    rw [joined, joinedMembers, write, write, write_joined _ value, writeMembers_joined _ members]

theorem writeItems_joined (level : Nat) :
    ∀ items : List Json, writeItems level (joinedItems items) = writeItems level items
  | [] => by rw [joinedItems]
  | item :: items => by
    rw [joinedItems, writeItems, writeItems, write_joined _ item, writeItems_joined _ items]

theorem writeMembers_joined (level : Nat) : ∀ members : List (String × Json),
    writeMembers level (joinedMembers members) = writeMembers level members
  | [] => by rw [joinedMembers]
  | (_, value) :: members => by
    rw [joinedMembers, writeMembers, writeMembers, write_joined _ value,
      writeMembers_joined _ members]

end

theorem toText_joined (v : Json) : v.joined.toText = v.toText := by
  rw [toText, write_joined, toText]

/-- No object in a value names two of its members alike. -/
inductive Distinct : Json → Prop
  | bool (b : Bool) : Distinct (.bool b)
  | text (s : List CodePoint) : Distinct (.text s)
  | list {items : List Json} (hitems : ∀ item ∈ items, Distinct item) : Distinct (.list items)
  | object {members : List (String × Json)} (hnames : (members.map Prod.fst).Nodup)
      (hmembers : ∀ m ∈ members, Distinct m.2) : Distinct (.object members)

/-- A value is read, with its halves joined, from what is written for it, wherever that stands. -/
def IsRead (v : Json) : Prop :=
  ∀ level bound margin rest, margin.all isGap = true → (write level v).length ≤ bound →
    readValue? bound (margin ++ (write level v ++ rest)) = some (v.joined, rest)

theorem skip_append {margin : List Char} (h : margin.all isGap = true) (s : List Char) :
    skip (margin ++ s) = skip s := List.dropWhile_append_of_pos (List.all_eq_true.mp h)

theorem skip_cons {c : Char} (h : isGap c = false) (s : List Char) : skip (c :: s) = c :: s :=
  List.dropWhile_cons_of_neg (by simp [h])

theorem newLine_gap (level : Nat) : (newLine level).all isGap = true := by
  simp [newLine, isGap]

/-- What is written for a value begins with a character that neither is a blank nor closes a list. -/
theorem exists_write_eq (level : Nat) (v : Json) :
    ∃ c s, write level v = c :: s ∧ isGap c = false ∧ c ≠ ']' := by
  cases v with
  | bool b => cases b <;> exact ⟨_, _, rfl, by decide, by decide⟩
  | text s => exact ⟨_, _, rfl, by decide, by decide⟩
  | list items =>
    cases items with
    | nil => exact ⟨_, _, by rw [write], by decide, by decide⟩
    | cons => exact ⟨'[', _, by rw [write]; rfl, by decide, by decide⟩
  | object members =>
    cases members with
    | nil => exact ⟨_, _, by rw [write], by decide, by decide⟩
    | cons => exact ⟨'\x7b', _, by rw [write]; rfl, by decide, by decide⟩

theorem readItems?_write {items : List Json} {item : Json} (hitem : IsRead item)
    (hitems : ∀ item ∈ items, IsRead item) (level outer bound : Nat) (rest : List Char)
    (hbound : (write level item ++ writeItems level items).length < bound) :
    readItems? bound (newLine level ++ (write level item ++ (writeItems level items ++
      (newLine outer ++ ']' :: rest)))) = some (joinedItems (item :: items), rest) := by
  induction items generalizing item bound with
  | nil =>
    obtain ⟨bound, rfl⟩ := Nat.exists_eq_add_one_of_ne_zero (Nat.ne_of_gt (Nat.zero_lt_of_lt hbound))
    simp only [writeItems, List.append_nil, List.nil_append] at hbound ⊢
    rw [readItems?, hitem level bound _ _ (newLine_gap level) (by omega), Option.bind_some]
    simp only [joinedItems, skip_append (newLine_gap outer), skip_cons (show isGap ']' = false by decide)]
  | cons next items ih =>
    obtain ⟨bound, rfl⟩ := Nat.exists_eq_add_one_of_ne_zero (Nat.ne_of_gt (Nat.zero_lt_of_lt hbound))
    simp only [writeItems, List.length_append, List.length_cons, List.append_assoc,
      List.cons_append] at hbound ⊢
    rw [readItems?, hitem level bound _ _ (newLine_gap level) (by omega), Option.bind_some]
    obtain ⟨hnext, hitems⟩ := List.forall_mem_cons.mp hitems
    have hrest := ih hnext hitems bound (by simp only [List.length_append]; omega)
    simp only [skip_cons (show isGap ',' = false by decide), hrest, Option.map_some, joinedItems]

theorem readName?_quoted {margin : List Char} (h : margin.all isGap = true) (name : String)
    (rest : List Char) : readName? (margin ++ (quoted name ++ ':' :: rest)) = some (name, rest) := by
  have hquoted : quoted name ++ ':' :: rest =
      '\x22' :: ((Coded.points name).flatMap quotedPoint ++ '\x22' :: (':' :: rest)) := by simp [quoted]
  have hjoined : joinedText (Coded.points name) = name.toList.map CodePoint.ofChar :=
    joined_of_apart (apart_map_ofChar name.toList)
  have hname : Text.chars? (joinedText (Coded.points name)) = some name.toList := by
    rw [hjoined, Text.chars?_map_ofChar]
  rw [readName?, skip_append h, hquoted, skip_cons (by decide)]
  simp only [readText?_quoted, Option.bind_some, hname, skip_cons (show isGap ':' = false by decide),
    String.ofList_toList]

/-- What stands behind a member tells whether there are more. -/
theorem readMembers?_member {value : Json} (hvalue : IsRead value) (name : String)
    {level bound : Nat} (hbound : (write level value).length ≤ bound) (rest : List Char) :
    readMembers? (bound + 1) (newLine level ++ (quoted name ++ (':' :: ' ' ::
      (write level value ++ rest)))) =
        match skip rest with
        | ',' :: rest => (readMembers? bound rest).map fun r => ((name, value.joined) :: r.1, r.2)
        | '\x7d' :: rest => some ([(name, value.joined)], rest)
        | _ => none := by
  have hread := hvalue level bound [' '] rest (by decide) hbound
  rw [List.singleton_append] at hread
  rw [readMembers?, readName?_quoted (newLine_gap level), Option.bind_some]
  simp only [hread, Option.bind_some]

theorem readMembers?_write {members : List (String × Json)} (name : String) {value : Json}
    (hvalue : IsRead value) (hmembers : ∀ m ∈ members, IsRead m.2) (level outer bound : Nat)
    (rest : List Char)
    (hbound : (write level value ++ writeMembers level members).length < bound) :
    readMembers? bound (newLine level ++ (quoted name ++ (':' :: ' ' :: (write level value ++
      (writeMembers level members ++ (newLine outer ++ '\x7d' :: rest)))))) =
        some (joinedMembers ((name, value) :: members), rest) := by
  induction members generalizing name value bound with
  | nil =>
    obtain ⟨bound, rfl⟩ := Nat.exists_eq_add_one_of_ne_zero (Nat.ne_of_gt (Nat.zero_lt_of_lt hbound))
    simp only [writeMembers, List.append_nil, List.nil_append] at hbound ⊢
    rw [readMembers?_member hvalue name (by omega)]
    simp only [joinedMembers, skip_append (newLine_gap outer), skip_cons (show isGap '\x7d' = false by decide)]
  | cons next members ih =>
    obtain ⟨bound, rfl⟩ := Nat.exists_eq_add_one_of_ne_zero (Nat.ne_of_gt (Nat.zero_lt_of_lt hbound))
    obtain ⟨hnext, hmembers⟩ := List.forall_mem_cons.mp hmembers
    simp only [writeMembers, List.length_append, List.length_cons, List.append_assoc,
      List.cons_append, List.nil_append] at hbound ⊢
    have hrest := ih next.1 hnext hmembers bound
      (by simp only [List.length_append]; omega)
    rw [readMembers?_member hvalue name (by omega)]
    simp only [skip_cons (show isGap ',' = false by decide), hrest, Option.map_some, joinedMembers]

theorem isRead_of_succ {v : Json} (h : ∀ level bound margin rest, margin.all isGap = true →
      (write level v).length ≤ bound + 1 →
      readValue? (bound + 1) (margin ++ (write level v ++ rest)) = some (v.joined, rest)) :
    IsRead v := by
  intro level bound margin rest hmargin hbound
  obtain ⟨c, s, hwrite, -⟩ := exists_write_eq level v
  cases bound with
  | zero => simp [hwrite] at hbound
  | succ bound => exact h level bound margin rest hmargin hbound

/-- A written value is read back with its halves joined, at every level and whatever comes behind it. -/
theorem readValue?_write {v : Json} (h : v.Distinct) : IsRead v := by
  induction h with
  | bool b =>
    refine isRead_of_succ fun level bound margin rest hmargin _ => ?_
    rw [readValue?, skip_append hmargin]
    cases b <;> rfl
  | text s =>
    refine isRead_of_succ fun level bound margin rest hmargin _ => ?_
    have hquoted : quoted s ++ rest = '\x22' :: (s.flatMap quotedPoint ++ '\x22' :: rest) := by
      simp [quoted, Coded.points]
    rw [readValue?, skip_append hmargin, write, hquoted, skip_cons (by decide)]
    simp only [readText?_quoted, Option.map_some, joined]
  | @list items hitems ih =>
    refine isRead_of_succ fun level bound margin rest hmargin hbound => ?_
    rw [readValue?, skip_append hmargin]
    -- What stands behind the bracket is a first item, since no item begins with the closing bracket.
    cases items with
    | nil => rfl
    | cons item items =>
      obtain ⟨hitem, hitems⟩ := List.forall_mem_cons.mp ih
      obtain ⟨c, s, hwrite, hgap, hclose⟩ := exists_write_eq (level + 1) item
      rw [write] at hbound ⊢
      simp only [List.length_append, List.length_cons, List.append_assoc, List.cons_append,
        List.nil_append] at hbound ⊢
      have hread := readItems?_write hitem hitems (level + 1) level bound rest
        (by simp only [List.length_append]; omega)
      rw [skip_cons (by decide)]
      simp only [skip_append (newLine_gap _), hread, Option.map_some, joined]
      rw [hwrite, List.cons_append, skip_cons hgap]
      split
      · rename_i heq
        exact absurd (List.cons.inj heq).1 hclose
      · rfl
  | @object members hnames hmembers ih =>
    refine isRead_of_succ fun level bound margin rest hmargin hbound => ?_
    rw [readValue?, skip_append hmargin]
    cases members with
    | nil => rfl
    | cons member members =>
      -- Behind the brace the names are read with the members, and they differ.
      obtain ⟨hmember, hmembers⟩ := List.forall_mem_cons.mp ih
      rw [write] at hbound ⊢
      simp only [List.length_append, List.length_cons, List.append_assoc, List.cons_append,
        List.nil_append] at hbound ⊢
      have hread := readMembers?_write member.1 hmember hmembers (level + 1) level bound
        rest (by simp only [List.length_append]; omega)
      rw [skip_cons (by decide)]
      have hnames' : ((joinedMembers (member :: members)).map Prod.fst).Nodup := by
        rwa [map_fst_joinedMembers]
      simp only [skip_append (newLine_gap _), hread, Option.bind_some, if_pos hnames', joined]
      rw [quoted, List.cons_append, List.cons_append, skip_cons (by decide)]
      rfl

/-- A value is read from its text with its halves joined. -/
theorem read?_toText {v : Json} (h : v.Distinct) : read? v.toText = some v.joined := by
  have hread := readValue?_write h 0 (write 0 v).length [] [] rfl (Nat.le_refl _)
  rw [List.nil_append, List.append_nil] at hread
  rw [read?, toText, String.toList_ofList, hread]
  rfl

/-! ### A written value is in ASCII -/

/-- All characters of a text are in ASCII. -/
def IsAscii (s : List Char) : Prop := ∀ c ∈ s, c.toNat < 128

@[simp] theorem isAscii_nil : IsAscii [] := by simp [IsAscii]

@[simp] theorem isAscii_cons {c : Char} {s : List Char} :
    IsAscii (c :: s) ↔ c.toNat < 128 ∧ IsAscii s := List.forall_mem_cons

@[simp] theorem isAscii_append {s t : List Char} : IsAscii (s ++ t) ↔ IsAscii s ∧ IsAscii t :=
  List.forall_mem_append

theorem isAscii_hexDigits (width n : Nat) : IsAscii (Text.hexDigits width n) := by
  have hdigit : ∀ n < 16, (Text.hexDigit n).toNat < 128 := by decide
  induction width generalizing n with
  | zero => exact isAscii_nil
  | succ width ih =>
    rw [Text.hexDigits, isAscii_append, isAscii_cons]
    exact ⟨ih _, hdigit _ (Nat.mod_lt _ (by decide)), isAscii_nil⟩

theorem isAscii_unit (n : Nat) : IsAscii (unit n) := by
  simp [unit, isAscii_hexDigits]

theorem Spells.isAscii {p : CodePoint} {s : List Char} (h : Spells p s) : IsAscii s := by
  cases h with
  | @escape c mark h =>
    have hescapes : ∀ e ∈ escapes, e.2.toNat < 128 := by decide
    simp [hescapes _ h]
  | plain _ _ _ hmost =>
    rw [isAscii_cons]
    exact ⟨by omega, isAscii_nil⟩
  | unit => exact isAscii_unit _
  | pair => exact isAscii_append.mpr ⟨isAscii_unit _, isAscii_unit _⟩

@[simp] theorem isAscii_quoted {T : Type} [Coded T] (s : T) : IsAscii (quoted s) := by
  have hpoints : IsAscii ((Coded.points s).flatMap quotedPoint) := fun x hx => by
    obtain ⟨p, -, hp⟩ := List.mem_flatMap.mp hx
    exact (spells_quotedPoint p).isAscii x hp
  simp [quoted, hpoints]

@[simp] theorem isAscii_newLine (level : Nat) : IsAscii (newLine level) := by
  simp [newLine, IsAscii]

mutual

@[simp] theorem isAscii_write (level : Nat) : ∀ v : Json, IsAscii (write level v)
  | .bool true | .bool false => by simp [write]
  | .text s => by simp [write]
  | .list [] => by simp [write]
  | .list (item :: items) => by simp [write, isAscii_write _ item, isAscii_writeItems _ items]
  | .object [] => by simp [write]
  | .object ((_, value) :: members) => by
    simp [write, isAscii_write _ value, isAscii_writeMembers _ members]

theorem isAscii_writeItems (level : Nat) : ∀ items : List Json, IsAscii (writeItems level items)
  | [] => by simp [writeItems]
  | item :: items => by simp [writeItems, isAscii_write _ item, isAscii_writeItems _ items]

theorem isAscii_writeMembers (level : Nat) :
    ∀ members : List (String × Json), IsAscii (writeMembers level members)
  | [] => by simp [writeMembers]
  | (_, value) :: members => by
    simp [writeMembers, isAscii_write _ value, isAscii_writeMembers _ members]

end

end Json

namespace Outcome

open Json

variable {T : Type} [DecidableEq T] [Coded T]

/-! ### The report -/

theorem distinct_findingJson (o : Outcome T) (analysis : Bool) (f : Finding T) :
    (o.findingJson analysis f).Distinct := by
  cases analysis
  · refine .object (by simp) ?_
    simpa using ⟨.text _, .text _, .text _, .bool _⟩
  · refine .object (by simp) ?_
    simpa using ⟨.text _, .text _, .text _⟩

theorem distinct_toJson (o : Outcome T) (analysis : Bool) : (o.toJson analysis).Distinct := by
  have hissues : (Json.list (o.findings.map (o.findingJson analysis))).Distinct :=
    .list (by simpa using fun f _ => distinct_findingJson o analysis f)
  have hchanged : (Json.list (o.changed.map ofText)).Distinct :=
    .list (by simpa using fun file _ => .text (Coded.points file))
  cases analysis
  · refine .object (by simp) ?_
    simpa using ⟨.text _, hissues, hchanged⟩
  · refine .object (by simp) ?_
    simpa using ⟨.text _, hissues⟩

/-- In the texts of an outcome no first half of a pair stands right before a second one. -/
structure Apart (o : Outcome T) : Prop where
  findings : ∀ f ∈ o.findings, Json.Apart (Coded.points f.file) ∧
    Json.Apart (Coded.points f.message) ∧ Json.Apart (Coded.points f.source)
  changed : ∀ path ∈ o.changed, Json.Apart (Coded.points path)

/-- The outcome of a run has texts of characters, so it always is. -/
theorem apart_of_string (o : Outcome) : o.Apart where
  findings f _ := ⟨apart_map_ofChar f.file.toList, apart_map_ofChar f.message.toList,
    apart_map_ofChar f.source.toList⟩
  changed path _ := apart_map_ofChar path.toList

theorem joined_ofText {U : Type} [Coded U] {s : U} (h : Json.Apart (Coded.points s)) :
    (ofText s).joined = ofText s := by
  rw [ofText, joined, joined_of_apart h]

theorem joined_findingJson (o : Outcome T) (analysis : Bool) {f : Finding T}
    (h : Json.Apart (Coded.points f.file) ∧ Json.Apart (Coded.points f.message) ∧
      Json.Apart (Coded.points f.source)) :
    (o.findingJson analysis f).joined = o.findingJson analysis f := by
  obtain ⟨hfile, hmessage, hsource⟩ := h
  cases analysis <;>
    simp [findingJson, joined, joinedMembers, joined_ofText hfile, joined_ofText hmessage,
      joined_ofText hsource]

/-- The value of such an outcome has nothing to be joined. -/
theorem joined_toJson {o : Outcome T} (h : o.Apart) (analysis : Bool) :
    (o.toJson analysis).joined = o.toJson analysis := by
  have hsummary : (ofText (o.summary analysis)).joined = ofText (o.summary analysis) :=
    joined_ofText (apart_map_ofChar _)
  have hissues : (o.findings.map (o.findingJson analysis)).map joined =
      o.findings.map (o.findingJson analysis) := by
    rw [List.map_map]
    exact List.map_congr_left fun f hf => joined_findingJson o analysis (h.findings f hf)
  have hchanged : (o.changed.map ofText).map joined = o.changed.map ofText := by
    rw [List.map_map]
    exact List.map_congr_left fun path hpath => joined_ofText (h.changed path hpath)
  cases analysis <;>
    simp only [toJson, Bool.false_eq_true, if_false, if_true, List.append_nil, List.cons_append,
      List.nil_append, joined, joinedMembers, joinedItems_eq, hsummary, hissues, hchanged]

theorem ofText_inj {U : Type} [Coded U] {s t : U} (h : ofText s = ofText t) : s = t :=
  Coded.points_inj (Json.text.inj h)

/-- A finding and its mark are told by what is written for it. -/
theorem eq_of_findingJson_eq {o other : Outcome T} {analysis : Bool} {f g : Finding T}
    (h : other.findingJson analysis f = o.findingJson analysis g) :
    f = g ∧ (analysis = false → other.isFixed f = o.isFixed g) := by
  cases f
  cases g
  cases analysis
  · simp only [findingJson, Bool.false_eq_true, if_false, List.cons_append, List.nil_append,
      Json.object.injEq, List.cons.injEq, Prod.mk.injEq, Json.bool.injEq, true_and, and_true] at h
    obtain ⟨hfile, hmessage, hsource, hfixed⟩ := h
    obtain rfl := ofText_inj hfile
    obtain rfl := ofText_inj hmessage
    obtain rfl := ofText_inj hsource
    exact ⟨rfl, fun _ => hfixed⟩
  · simp only [findingJson, if_true, List.append_nil, Json.object.injEq, List.cons.injEq,
      Prod.mk.injEq, true_and, and_true] at h
    obtain ⟨hfile, hmessage, hsource⟩ := h
    obtain rfl := ofText_inj hfile
    obtain rfl := ofText_inj hmessage
    obtain rfl := ofText_inj hsource
    exact ⟨rfl, fun hrun => absurd hrun (by decide)⟩

/-- Outcomes that are one value have the same findings, marks and changed files. -/
theorem eq_of_toJson_eq {o other : Outcome T} {analysis : Bool}
    (h : other.toJson analysis = o.toJson analysis) :
    other.findings = o.findings ∧ (analysis = false →
      other.findings.map other.isFixed = o.findings.map o.isFixed ∧ other.changed = o.changed) := by
  have hissues : other.findings.map (other.findingJson analysis) =
      o.findings.map (o.findingJson analysis) := by
    cases analysis <;> simp_all [toJson]
  have hpairs : List.Forall₂ (fun f g => f = g ∧ (analysis = false → other.isFixed f = o.isFixed g))
      other.findings o.findings := by
    rw [← List.forall₂_eq_eq_eq, List.forall₂_map_left_iff, List.forall₂_map_right_iff] at hissues
    exact hissues.imp fun f g => eq_of_findingJson_eq
  have hfindings : other.findings = o.findings := by
    rw [← List.forall₂_eq_eq_eq]
    exact hpairs.imp fun f g hfg => hfg.1
  refine ⟨hfindings, fun hrun => ⟨?_, ?_⟩⟩
  · rw [← List.forall₂_eq_eq_eq, List.forall₂_map_left_iff, List.forall₂_map_right_iff]
    exact hpairs.imp fun f g hfg => hfg.2 hrun
  · subst hrun
    have hchanged : other.changed.map ofText = o.changed.map ofText := by
      simp_all [toJson]
    exact List.map_injective_iff.mpr (fun _ _ => ofText_inj) hchanged

/-- The report for programs, for texts of any kind. It is in ASCII and is read as the value that it was
written from, with halves of pairs joined that stand together, and outcomes have one report exactly if
their values are one up to this. So it loses nothing where no first half stands right before a second
one: it is read as its value, and outcomes with one report have the same findings and, unless this is an
analysis, the same marks and changed files. -/
theorem json_lossless (o : Outcome T) (analysis : Bool) :
    (∀ c ∈ (o.json analysis).toList, c.toNat < 128) ∧
    Json.read? (o.json analysis) = some (o.toJson analysis).joined ∧
    (∀ other : Outcome T, other.json analysis = o.json analysis ↔
      (other.toJson analysis).joined = (o.toJson analysis).joined) ∧
    (o.Apart → Json.read? (o.json analysis) = some (o.toJson analysis) ∧
      ∀ other : Outcome T, other.Apart → other.json analysis = o.json analysis →
        other.findings = o.findings ∧ (analysis = false →
          other.findings.map other.isFixed = o.findings.map o.isFixed ∧
            other.changed = o.changed)) := by
  have hread : ∀ o : Outcome T, Json.read? (o.json analysis) = some (o.toJson analysis).joined :=
    fun o => read?_toText (distinct_toJson o analysis)
  have hsame : ∀ other : Outcome T, other.json analysis = o.json analysis ↔
      (other.toJson analysis).joined = (o.toJson analysis).joined := by
    intro other
    constructor
    · intro htext
      have hother := hread other
      rw [htext, hread o] at hother
      exact (Option.some.inj hother).symm
    · intro hvalue
      rw [json, json, ← toText_joined, hvalue, toText_joined]
  refine ⟨?_, hread o, hsame, fun hapart => ⟨?_, fun other hother htext => eq_of_toJson_eq ?_⟩⟩
  · rw [json, toText, String.toList_ofList]
    exact isAscii_write 0 _
  · rw [hread, joined_toJson hapart]
  · rw [← joined_toJson hother, ← joined_toJson hapart]
    exact (hsame other).mp htext

/-- A finding with a second half right before a first one, a code point that is spelled by a pair, and a
half that stands alone. -/
def apartFinding : Finding (List CodePoint) := ⟨[0xDE00, 0xD83D], [0x22, 0x1F600, 0x0A], [0xD83D]⟩

/-- Such texts are told, and so is the mark of a finding. -/
theorem json_lossless_apart :
    let left : Outcome (List CodePoint) := ⟨[apartFinding], [[0xDE00]], [apartFinding]⟩
    let fixed : Outcome (List CodePoint) := ⟨[apartFinding], [[0xDE00]], []⟩
    left.Apart ∧ fixed.Apart ∧ Json.read? (left.json false) = some (left.toJson false) ∧
      fixed.json false ≠ left.json false := by
  intro left fixed
  have hopen : left.Apart := ⟨by decide, by decide⟩
  have hfixed : fixed.Apart := ⟨by decide, by decide⟩
  obtain ⟨-, -, -, hlossless⟩ := json_lossless left false
  obtain ⟨hread, htold⟩ := hlossless hopen
  refine ⟨hopen, hfixed, hread, fun htext => ?_⟩
  obtain ⟨-, hmarks⟩ := htold fixed hfixed htext
  exact absurd (hmarks rfl).1 (by decide)

/-- Two halves in a row are written like the code point of the pair, and the report of an analysis does
not name the changed files. -/
theorem json_halves_joined :
    let halves : Outcome (List CodePoint) := ⟨[⟨[0x61], [0xD83D, 0xDE00], [0x62]⟩], [], []⟩
    let whole : Outcome (List CodePoint) := ⟨[⟨[0x61], [0x1F600], [0x62]⟩], [], []⟩
    let changed : Outcome := ⟨[], ["a.rb"], []⟩
    halves.json false = whole.json false ∧ halves.findings ≠ whole.findings ∧
      Json.read? (halves.json false) ≠ some (halves.toJson false) ∧
      Json.read? (changed.json true) =
        some (.object [("summary", ofText "No issues found."), ("issues", .list [])]) := by
  intro halves whole changed
  have hpair : joinedText [0xD83D, 0xDE00] = [0x1F600] := by decide
  have hsummary : halves.summary false = whole.summary false := by decide
  have hwhole : (whole.toJson false).joined = whole.toJson false :=
    joined_toJson ⟨by decide, by decide⟩ false
  have hjoined : (halves.toJson false).joined = whole.toJson false := by
    rw [← hwhole, toJson, toJson, hsummary]
    simp [halves, whole, findingJson, isFixed, joined, joinedItems, joinedMembers, ofText,
      Coded.points, hpair, show joinedText [0x1F600] = [0x1F600] by decide]
  have hread : Json.read? (halves.json false) = some (whole.toJson false) := by
    rw [json, read?_toText (distinct_toJson halves false), hjoined]
  refine ⟨?_, by decide, ?_, ?_⟩
  · rw [json, json, ← hjoined, toText_joined]
  · rw [hread]
    intro hsame
    exact absurd (eq_of_toJson_eq (Option.some.inj hsame)).1 (by decide)
  · rw [json, read?_toText (distinct_toJson changed true), joined_toJson (apart_of_string changed)]
    rfl

end Outcome

end RailsUpgrade
