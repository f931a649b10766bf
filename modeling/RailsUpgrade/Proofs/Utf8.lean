import RailsUpgrade.Proofs.Encoding

/-!
# `RailsUpgrade.Proofs.Utf8`: which bytes are a text

The first byte of a character announces how many bytes it takes, and every other one goes on with six
more bits of its number. Of these sequences those are characters that are the shortest for their number
and whose number is that of a character. Bytes are strict if they are characters one after the other.

* `IsCharacter.exists_char`, `isCharacter_utf8EncodeChar`: the characters are what single characters are
  written as;
* `strict_iff`: the strict bytes are what texts are written as;
* `not_strict_iff`: bytes are not strict exactly if behind some characters a byte announces nothing, a
  sequence breaks off, is too long for its number, or has the number of a surrogate or one that is too
  large;
* `decode?_eq_none_iff`: bytes are no text exactly if they are not strict.
-/

set_option autoImplicit false

namespace RailsUpgrade.Text.Utf8

/-! ### The syntax -/

/-- How many bytes a character takes that begins with a byte of this value. -/
def width? (lead : Nat) : Option Nat :=
  if lead < 0x80 then some 1
  else if lead < 0xC0 then none
  else if lead < 0xE0 then some 2
  else if lead < 0xF0 then some 3
  else if lead < 0xF8 then some 4
  else none

/-- A byte that goes on with a character. -/
def GoesOn (byte : UInt8) : Prop := 0x80 ≤ byte.toNat ∧ byte.toNat < 0xC0

instance (byte : UInt8) : Decidable (GoesOn byte) := inferInstanceAs (Decidable (_ ∧ _))

/-- A first byte and as many others as it announces. -/
def IsSequence : List UInt8 → Prop
  | [] => False
  | lead :: rest => width? lead.toNat = some (rest.length + 1) ∧ ∀ byte ∈ rest, GoesOn byte

/-- The number that a sequence has. -/
def number : List UInt8 → Nat
  | [a] => a.toNat
  | [a, b] => a.toNat % 32 * 64 + b.toNat % 64
  | [a, b, c] => (a.toNat % 16 * 64 + b.toNat % 64) * 64 + c.toNat % 64
  | [a, b, c, d] =>
    ((a.toNat % 8 * 64 + b.toNat % 64) * 64 + c.toNat % 64) * 64 + d.toNat % 64
  | _ => 0

/-- The least number for which so many bytes are needed. -/
def least : Nat → Nat
  | 2 => 0x80
  | 3 => 0x800
  | 4 => 0x10000
  | _ => 0

/-- A sequence that is a character. -/
structure IsCharacter (bytes : List UInt8) : Prop where
  sequence : IsSequence bytes
  shortest : least bytes.length ≤ number bytes
  notSurrogate : ¬ (0xD800 ≤ number bytes ∧ number bytes ≤ 0xDFFF)
  inRange : number bytes ≤ 0x10FFFF

/-- Characters, one after the other. -/
inductive Strict : List UInt8 → Prop where
  | nil : Strict []
  | cons {char rest : List UInt8} : IsCharacter char → Strict rest → Strict (char ++ rest)

/-- What no character can begin. -/
inductive Fault : List UInt8 → Prop where
  /-- The first byte announces nothing. -/
  | stray {lead : UInt8} (rest : List UInt8) : width? lead.toNat = none → Fault (lead :: rest)
  /-- A sequence breaks off. -/
  | truncated {begun missing rest : List UInt8} : IsSequence (begun ++ missing) → begun ≠ [] →
      missing ≠ [] → (∀ byte, rest.head? = some byte → ¬ GoesOn byte) → Fault (begun ++ rest)
  /-- Fewer bytes would do. -/
  | overlong {char : List UInt8} (rest : List UInt8) : IsSequence char →
      number char < least char.length → Fault (char ++ rest)
  | surrogate {char : List UInt8} (rest : List UInt8) : IsSequence char → 0xD800 ≤ number char →
      number char ≤ 0xDFFF → Fault (char ++ rest)
  | tooLarge {char : List UInt8} (rest : List UInt8) : IsSequence char →
      0x10FFFF < number char → Fault (char ++ rest)

/-! ### Sequences -/

theorem width?_eq_some_iff {lead n : Nat} : width? lead = some n ↔
    (n = 1 ∧ lead < 0x80) ∨ (n = 2 ∧ 0xC0 ≤ lead ∧ lead < 0xE0) ∨
      (n = 3 ∧ 0xE0 ≤ lead ∧ lead < 0xF0) ∨ (n = 4 ∧ 0xF0 ≤ lead ∧ lead < 0xF8) := by
  unfold width?
  split_ifs <;> simp only [Option.some.injEq, false_iff] <;> omega

/-- A sequence takes one to four bytes. -/
theorem IsSequence.cases_bytes {bytes : List UInt8} (h : IsSequence bytes) :
    (∃ a, bytes = [a] ∧ a.toNat < 0x80) ∨
    (∃ a b, bytes = [a, b] ∧ (0xC0 ≤ a.toNat ∧ a.toNat < 0xE0) ∧ GoesOn b) ∨
    (∃ a b c, bytes = [a, b, c] ∧ (0xE0 ≤ a.toNat ∧ a.toNat < 0xF0) ∧ GoesOn b ∧ GoesOn c) ∨
    ∃ a b c d, bytes = [a, b, c, d] ∧ (0xF0 ≤ a.toNat ∧ a.toNat < 0xF8) ∧ GoesOn b ∧ GoesOn c ∧
      GoesOn d := by
  cases bytes with
  | nil => exact h.elim
  | cons a rest =>
    obtain ⟨hwidth, hrest⟩ := h
    rw [width?_eq_some_iff] at hwidth
    match rest with
    | [] => exact .inl ⟨a, rfl, by simpa using hwidth⟩
    | [b] => exact .inr (.inl ⟨a, b, rfl, by simpa using hwidth, hrest b (by simp)⟩)
    | [b, c] =>
      exact .inr (.inr (.inl ⟨a, b, c, rfl, by simpa using hwidth, hrest b (by simp),
        hrest c (by simp)⟩))
    | [b, c, d] =>
      exact .inr (.inr (.inr ⟨a, b, c, d, rfl, by simpa using hwidth, hrest b (by simp),
        hrest c (by simp), hrest d (by simp)⟩))
    | _ :: _ :: _ :: _ :: more => simp at hwidth

/-- A first byte, and others behind it that carry six bits each. -/
theorem isSequence_ofNat {lead : Nat} (hlead : lead < 256) (vs : List Nat)
    (hwidth : width? lead = some (vs.length + 1)) :
    IsSequence (UInt8.ofNat lead :: vs.map fun v => UInt8.ofNat (v % 64 + 128)) := by
  refine ⟨by rw [UInt8.toNat_ofNat_of_lt' hlead, List.length_map, hwidth], fun byte hbyte => ?_⟩
  obtain ⟨v, -, rfl⟩ := List.mem_map.mp hbyte
  rw [GoesOn, UInt8.toNat_ofNat']
  omega

/-- What a character is written as is a character of the syntax. -/
theorem isCharacter_utf8EncodeChar (c : Char) : IsCharacter (String.utf8EncodeChar c) := by
  have hvalid : c.val.toNat < 0xD800 ∨ 0xDFFF < c.val.toNat ∧ c.val.toNat < 0x110000 := c.valid
  unfold String.utf8EncodeChar
  generalize c.val.toNat = v at hvalid
  dsimp only
  split_ifs with h₁ h₂ h₃
  -- One case for each length of a character, with its number read back from the bytes.
  · have hnumber : number [UInt8.ofNat v] = v := UInt8.toNat_ofNat_of_lt' (show v < 256 by omega)
    refine ⟨isSequence_ofNat (by omega) [] ?_, Nat.zero_le _, by omega, by omega⟩
    exact width?_eq_some_iff.mpr (.inl ⟨rfl, by omega⟩)
  · have hnumber : number [UInt8.ofNat (v / 64 % 32 + 192), UInt8.ofNat (v % 64 + 128)] = v := by
      simp only [number, UInt8.toNat_ofNat']
      omega
    refine ⟨isSequence_ofNat (by omega) [v] ?_, ?_, by omega, by omega⟩
    · exact width?_eq_some_iff.mpr (.inr (.inl ⟨rfl, by omega, by omega⟩))
    · rw [hnumber]
      show 0x80 ≤ v
      omega
  · have hnumber : number [UInt8.ofNat (v / 4096 % 16 + 224), UInt8.ofNat (v / 64 % 64 + 128),
        UInt8.ofNat (v % 64 + 128)] = v := by
      simp only [number, UInt8.toNat_ofNat']
      omega
    refine ⟨isSequence_ofNat (by omega) [v / 64, v] ?_, ?_, by omega, by omega⟩
    · exact width?_eq_some_iff.mpr (.inr (.inr (.inl ⟨rfl, by omega, by omega⟩)))
    · rw [hnumber]
      show 0x800 ≤ v
      omega
  · have hnumber : number [UInt8.ofNat (v / 262144 % 8 + 240), UInt8.ofNat (v / 4096 % 64 + 128),
        UInt8.ofNat (v / 64 % 64 + 128), UInt8.ofNat (v % 64 + 128)] = v := by
      simp only [number, UInt8.toNat_ofNat']
      omega
    refine ⟨isSequence_ofNat (by omega) [v / 4096, v / 64, v] ?_, ?_, by omega, by omega⟩
    · exact width?_eq_some_iff.mpr (.inr (.inr (.inr ⟨rfl, by omega, by omega⟩)))
    · rw [hnumber]
      show 0x10000 ≤ v
      omega

/-- A character of the syntax is what the character with its number is written as. -/
theorem IsCharacter.exists_char {bytes : List UInt8} (h : IsCharacter bytes) :
    ∃ c, bytes = String.utf8EncodeChar c := by
  obtain ⟨hsequence, hshortest, hsurrogate, hrange⟩ := h
  obtain ⟨c, hnumber⟩ : ∃ c : Char, c.val.toNat = number bytes := by
    have hsize : number bytes < UInt32.size := lt_of_le_of_lt hrange (by decide)
    refine ⟨⟨UInt32.ofNatLT (number bytes) hsize, ?_⟩, UInt32.toNat_ofNatLT⟩
    show (UInt32.ofNatLT (number bytes) hsize).toNat.isValidChar
    rw [UInt32.toNat_ofNatLT, Nat.isValidChar]
    omega
  refine ⟨c, ?_⟩
  unfold String.utf8EncodeChar
  generalize c.val.toNat = v at hnumber
  dsimp only
  rw [← hnumber] at hshortest hrange
  obtain ⟨a, rfl, ha⟩ | ⟨a, b, rfl, ha, hb⟩ | ⟨a, b, c, rfl, ha, hb, hc⟩ |
    ⟨a, b, c, d, rfl, ha, hb, hc, hd⟩ := hsequence.cases_bytes
  -- In each length the bytes are the digits of the number, and the bounds say that it has no shorter form.
  · obtain rfl : v = a.toNat := hnumber
    rw [if_pos (by omega), UInt8.ofNat_toNat]
  · replace hshortest : 0x80 ≤ v := hshortest
    rw [number] at hnumber
    rw [GoesOn] at hb
    rw [if_neg (by omega), if_pos (by omega)]
    simp only [List.cons.injEq, ← UInt8.toNat_inj, UInt8.toNat_ofNat', and_true]
    omega
  · replace hshortest : 0x800 ≤ v := hshortest
    rw [number] at hnumber
    rw [GoesOn] at hb hc
    rw [if_neg (by omega), if_neg (by omega), if_pos (by omega)]
    simp only [List.cons.injEq, ← UInt8.toNat_inj, UInt8.toNat_ofNat', and_true]
    omega
  · replace hshortest : 0x10000 ≤ v := hshortest
    rw [number] at hnumber
    rw [GoesOn] at hb hc hd
    rw [if_neg (by omega), if_neg (by omega), if_neg (by omega)]
    simp only [List.cons.injEq, ← UInt8.toNat_inj, UInt8.toNat_ofNat', and_true]
    omega

/-! ### Strict bytes -/

/-- Strict bytes are what texts are written as. -/
theorem strict_iff {bytes : List UInt8} :
    Strict bytes ↔ ∃ s : List Char, bytes = s.flatMap String.utf8EncodeChar := by
  constructor
  · intro h
    induction h with
    | nil => exact ⟨[], rfl⟩
    | cons hchar _ ih =>
      obtain ⟨c, rfl⟩ := hchar.exists_char
      obtain ⟨s, rfl⟩ := ih
      exact ⟨c :: s, rfl⟩
  · rintro ⟨s, rfl⟩
    induction s with
    | nil => exact .nil
    | cons c s ih => exact .cons (isCharacter_utf8EncodeChar c) ih

/-- Bytes are no text exactly if they are not strict. -/
theorem decode?_eq_none_iff {bytes : ByteArray} :
    decode? bytes = none ↔ ¬ Strict bytes.data.toList := by
  have hvalid : bytes.IsValidUTF8 ↔ Strict bytes.data.toList := by
    rw [strict_iff]
    constructor
    · rintro ⟨s, rfl⟩
      exact ⟨s, List.toList_data_toByteArray⟩
    · rintro ⟨s, hs⟩
      refine ⟨s, ByteArray.ext (Array.toList_inj.mp ?_)⟩
      rw [hs, List.utf8Encode, List.toList_data_toByteArray]
  rw [decode?, Option.map_eq_none_iff, String.fromUTF8?, ← hvalid]
  split_ifs with h <;> simp [h]

/-- The first byte tells where a sequence ends. -/
theorem IsSequence.eq_of_append {char char' rest rest' : List UInt8} (h : IsSequence char)
    (h' : IsSequence char') (heq : char ++ rest = char' ++ rest') : char = char' ∧ rest = rest' := by
  cases char with
  | nil => exact h.elim
  | cons lead more =>
    cases char' with
    | nil => exact h'.elim
    | cons lead' more' =>
      obtain ⟨rfl, -⟩ := List.cons_eq_cons.mp heq
      have hlength := Option.some.inj (h.1.symm.trans h'.1)
      exact List.append_inj heq (by simpa using hlength)

theorem Strict.exists_char {bytes : List UInt8} (h : Strict bytes) (hne : bytes ≠ []) :
    ∃ char rest, bytes = char ++ rest ∧ IsCharacter char ∧ Strict rest := by
  cases h with
  | nil => exact absurd rfl hne
  | cons hchar hrest => exact ⟨_, _, rfl, hchar, hrest⟩

/-- Bytes that begin with a sequence are strict exactly if it is a character and the others are. -/
theorem strict_append_iff {char rest : List UInt8} (h : IsSequence char) :
    Strict (char ++ rest) ↔ IsCharacter char ∧ Strict rest := by
  constructor
  · intro hstrict
    have hne : char ++ rest ≠ [] := by
      rintro hnil
      rw [(List.append_eq_nil_iff.mp hnil).1] at h
      exact h
    obtain ⟨char', rest', heq, hchar', hrest'⟩ := hstrict.exists_char hne
    obtain ⟨rfl, rfl⟩ := h.eq_of_append hchar'.sequence heq
    exact ⟨hchar', hrest'⟩
  · exact fun ⟨hchar, hrest⟩ => .cons hchar hrest

/-- Behind characters, bytes are strict exactly if they are strict alone. -/
theorem Strict.append_iff {front rest : List UInt8} (h : Strict front) :
    Strict (front ++ rest) ↔ Strict rest := by
  induction h with
  | nil => rfl
  | cons hchar _ ih =>
    rw [List.append_assoc, strict_append_iff hchar.sequence, ih]
    exact and_iff_right hchar

/-! ### What is not strict -/

/-- A fault is in no text. -/
theorem Fault.not_strict {bytes : List UInt8} (h : Fault bytes) : ¬ Strict bytes := by
  cases h with
  | @stray lead rest hwidth =>
    intro hstrict
    obtain ⟨char, rest', heq, hchar, -⟩ := hstrict.exists_char (by simp)
    have hsequence := hchar.sequence
    cases char with
    | nil => exact hsequence
    | cons lead' more =>
      obtain ⟨rfl, -⟩ := List.cons_eq_cons.mp heq
      rw [hsequence.1] at hwidth
      cases hwidth
  | @truncated begun missing rest hsequence hbegun hmissing hrest =>
    intro hstrict
    obtain ⟨char, rest', heq, hchar, -⟩ := hstrict.exists_char (by simp [hbegun])
    obtain ⟨lead, more, rfl⟩ := List.exists_cons_of_ne_nil hbegun
    have hchar := hchar.sequence
    cases char with
    | nil => exact hchar
    | cons lead' more' =>
      obtain ⟨rfl, htail⟩ := List.cons_eq_cons.mp heq
      -- The character takes as many bytes as the sequence that breaks off, so it goes on behind it.
      have hlength : (more ++ missing).length + 1 = more'.length + 1 :=
        Option.some.inj (hsequence.1.symm.trans hchar.1)
      rw [List.length_append] at hlength
      have hpos := List.length_pos_iff.mpr hmissing
      obtain ⟨extra, hmore, hextra⟩ | ⟨extra, hmore, -⟩ := List.append_eq_append_iff.mp htail
      · cases extra with
        | nil =>
          rw [hmore, List.length_append, List.length_nil] at hlength
          omega
        | cons byte extra =>
          have hgoes : GoesOn byte := hchar.2 byte (by simp [hmore])
          exact hrest byte (by rw [hextra]; rfl) hgoes
      · rw [hmore, List.length_append] at hlength
        omega
  | overlong rest hsequence hshort =>
    rw [strict_append_iff hsequence]
    exact fun h => absurd h.1.shortest (by omega)
  | surrogate rest hsequence hlow hhigh =>
    rw [strict_append_iff hsequence]
    exact fun h => h.1.notSurrogate ⟨hlow, hhigh⟩
  | tooLarge rest hsequence hlarge =>
    rw [strict_append_iff hsequence]
    exact fun h => absurd h.1.inRange (by omega)

/-- A sequence that is no character is a fault. -/
theorem IsSequence.isCharacter_or_fault {char : List UInt8} (h : IsSequence char)
    (rest : List UInt8) : IsCharacter char ∨ Fault (char ++ rest) := by
  by_cases hshort : number char < least char.length
  · exact .inr (.overlong rest h hshort)
  by_cases hlarge : 0x10FFFF < number char
  · exact .inr (.tooLarge rest h hlarge)
  by_cases hsurrogate : 0xD800 ≤ number char ∧ number char ≤ 0xDFFF
  · exact .inr (.surrogate rest h hsurrogate.1 hsurrogate.2)
  · exact .inl ⟨h, by omega, hsurrogate, by omega⟩

/-- Bytes that are not empty begin with a character or with a fault. -/
theorem exists_char_or_fault {bytes : List UInt8} (hne : bytes ≠ []) :
    (∃ char rest, bytes = char ++ rest ∧ IsCharacter char) ∨ Fault bytes := by
  obtain ⟨lead, more, rfl⟩ := List.exists_cons_of_ne_nil hne
  cases hwidth : width? lead.toNat with
  | none => exact .inr (.stray more hwidth)
  | some n =>
    obtain ⟨k, rfl⟩ : ∃ k, n = k + 1 := by
      rw [width?_eq_some_iff] at hwidth
      exact ⟨n - 1, by omega⟩
    -- The bytes that go on with the first one, as many as there are.
    have hrun : ∀ byte ∈ more.takeWhile (fun byte => decide (GoesOn byte)), GoesOn byte :=
      fun byte hbyte => by simpa using List.mem_takeWhile_imp hbyte
    have hmore := List.takeWhile_append_dropWhile (p := fun byte => decide (GoesOn byte)) (l := more)
    have hstop := List.head?_dropWhile_not (fun byte => decide (GoesOn byte)) more
    generalize more.takeWhile _ = run at hrun hmore
    generalize more.dropWhile _ = rest at hmore hstop
    subst hmore
    by_cases hlength : k ≤ run.length
    · have hsequence : IsSequence (lead :: run.take k) :=
        ⟨by rw [hwidth, List.length_take_of_le hlength],
          fun byte hbyte => hrun byte (List.mem_of_mem_take hbyte)⟩
      have hbytes : lead :: (run ++ rest) = lead :: run.take k ++ (run.drop k ++ rest) := by
        rw [List.cons_append, ← List.append_assoc, List.take_append_drop]
      rw [hbytes]
      exact (hsequence.isCharacter_or_fault _).imp_left fun hchar => ⟨_, _, rfl, hchar⟩
    · -- What is missing could be made up for, so this is a sequence that breaks off.
      have hwhole : (run ++ List.replicate (k - run.length) 0x80).length = k := by
        rw [List.length_append, List.length_replicate]
        omega
      have hsequence : IsSequence (lead :: run ++ List.replicate (k - run.length) 0x80) := by
        refine ⟨hwidth.trans (congrArg (fun n => some (n + 1)) hwhole.symm), fun byte hbyte => ?_⟩
        obtain hbyte | hbyte := List.mem_append.mp hbyte
        · exact hrun byte hbyte
        · rw [List.eq_of_mem_replicate hbyte]
          decide
      refine .inr (.truncated hsequence (by simp) ?_ fun byte hbyte hgoes => ?_)
      · rw [ne_eq, List.replicate_eq_nil_iff]
        omega
      · rw [hbyte] at hstop
        simp [hgoes] at hstop

/-- Bytes are not strict exactly if there is a fault behind characters. -/
theorem not_strict_iff {bytes : List UInt8} :
    ¬ Strict bytes ↔ ∃ front rest, bytes = front ++ rest ∧ Strict front ∧ Fault rest := by
  constructor
  · intro h
    induction hlength : bytes.length using Nat.strong_induction_on generalizing bytes with
    | _ n ih =>
      have hne : bytes ≠ [] := by
        rintro rfl
        exact h .nil
      obtain ⟨char, more, rfl, hchar⟩ | hfault := exists_char_or_fault hne
      · rw [strict_append_iff hchar.sequence, not_and] at h
        have hpos : 0 < char.length := by
          cases char with
          | nil => exact hchar.sequence.elim
          | cons => simp
        rw [List.length_append] at hlength
        obtain ⟨front, rest, rfl, hfront, hfault⟩ := ih more.length (by omega) (h hchar) rfl
        exact ⟨char ++ front, rest, by rw [List.append_assoc], .cons hchar hfront, hfault⟩
      · exact ⟨[], bytes, rfl, .nil, hfault⟩
  · rintro ⟨front, rest, rfl, hfront, hfault⟩
    rw [hfront.append_iff]
    exact hfault.not_strict

end RailsUpgrade.Text.Utf8
