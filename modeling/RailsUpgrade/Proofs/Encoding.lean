import RailsUpgrade.Proofs.Lines
import RailsUpgrade.Text.Encoding

/-!
# `RailsUpgrade.Proofs.Encoding`: texts that are written and read again

Reading leaves no carriage return in a text, and a text without one is read back as it was written:

* `return_notMem_of_decode?`: what was read has line feeds only;
* `decode?_encode`: what was written can be read, and a text without carriage returns is as it was
  (`decode?_encode_of_notMem`).
-/

set_option autoImplicit false

namespace RailsUpgrade.Text

theorem return_notMem_unixNewlines (s : List Char) : '\r' ∉ unixNewlines s := by
  fun_induction unixNewlines s with
  | case1 => simp
  | case2 rest ih => simpa using ih
  | case3 c rest _ ih =>
    rw [List.mem_cons, not_or]
    refine ⟨?_, ih⟩
    by_cases hc : c = '\r'
    · simp [hc]
    · simp [hc, Ne.symm hc]

theorem unixNewlines_of_notMem {s : List Char} (h : '\r' ∉ s) : unixNewlines s = s := by
  fun_induction unixNewlines s with
  | case1 => rfl
  | case2 rest ih => simp at h
  | case3 c rest _ ih =>
    rw [List.mem_cons, not_or] at h
    rw [ih h.2, if_neg (by simpa using Ne.symm h.1)]

/-- A beginning without carriage returns stays. -/
theorem unixNewlines_append {s : List Char} (h : '\r' ∉ s) (t : List Char) :
    unixNewlines (s ++ t) = s ++ unixNewlines t := by
  induction s with
  | nil => rfl
  | cons c s ih =>
    rw [List.mem_cons, not_or] at h
    rw [List.cons_append, unixNewlines, ih h.2, if_neg (by simpa using Ne.symm h.1)]
    · rfl
    · intro _ hc
      exact absurd hc.symm h.1

/-- What was read has no carriage return. -/
theorem return_notMem_of_decode? {bytes : ByteArray} {text : List Char}
    (h : decode? bytes = some text) : '\r' ∉ text := by
  obtain ⟨s, -, rfl⟩ := Option.map_eq_some_iff.mp h
  exact return_notMem_unixNewlines s.toList

/-- What was written can be read. -/
theorem decode?_encode (text : List Char) : decode? (encode text) = some (unixNewlines text) := by
  have hvalid : String.fromUTF8? (String.ofList text).toUTF8 = some (String.ofList text) := by
    have hbytes : (String.ofList text).toUTF8.IsValidUTF8 := (String.ofList text).isValidUTF8
    rw [String.fromUTF8?, dif_pos hbytes]
    rfl
  rw [decode?, encode, hvalid, Option.map_some, String.toList_ofList]

/-- A text without carriage returns is read back as it was written. -/
theorem decode?_encode_of_notMem {text : List Char} (h : '\r' ∉ text) :
    decode? (encode text) = some text := by
  rw [decode?_encode, unixNewlines_of_notMem h]

end RailsUpgrade.Text
