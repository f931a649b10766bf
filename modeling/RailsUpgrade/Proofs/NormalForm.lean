import RailsUpgrade.Proofs.Constraints
import RailsUpgrade.Proofs.Migrations

/-!
# `RailsUpgrade.Proofs.NormalForm`: the texts of a version

A version text may have blanks around it, zeros in front of its numbers, digits of any script and
numbers that are not looked at. All texts of a version are alike to those who read them, and what the
program writes for a version is one of them:

* `lineOf_line`: the release line of a release line is this line itself;
* `parse_dotted`: the three numbers of a version, with dots between them, are a text of the version;
* `Constraint.answer_target_congr`, `Constraint.answer_parts_congr`: constraints cannot tell apart texts
  that are read alike;
* `Migration.exists_search_header`: the header of a migration for a release line is recognised, and the
  line is read off it;
* `normal_form`: all of this for any text of a version.
-/

set_option autoImplicit false

namespace RailsUpgrade

/-! ### Constraints -/

namespace Constraint

/-- A constraint in two parts answers alike for texts that are read alike. -/
theorem answer_parts_congr {wanted wanted' : String}
    (h : Version.parse wanted = Version.parse wanted') (operator : String) (target : Option String) :
    (parts [operator, wanted]).answer target = (parts [operator, wanted']).answer target := by
  rw [answer_eq, answer_eq]
  simp only [pair?]
  cases Comparison.parse? operator <;> cases target <;> simp [h]

/-- And so it does for targets that are read alike. -/
theorem answer_target_congr {t t' : String} (h : Version.parse t = Version.parse t')
    (c : Constraint) : c.answer (some t) = c.answer (some t') := by
  rw [answer_eq, answer_eq]
  cases c.pair? <;> simp [h]

end Constraint

/-! ### Headers -/

namespace Migration

/-- A header with a name. -/
def Header.ofName {name : List Char} (hword : name.all Text.isWord = true) (hne : name ≠ []) :
    Header where
  gap := [' ']
  name := name
  space := [' ']
  margin := [' ']
  gap_blank := Gemfile.isBlank_space
  gap_ne := Gemfile.space_ne_nil
  name_word := hword
  name_ne := hne
  space_blank := Gemfile.isBlank_space
  space_ne := Gemfile.space_ne_nil
  margin_blank := Gemfile.isBlank_space
  margin_ne := Gemfile.space_ne_nil

/-- The header for the release line of a version is recognised, with the line as its second group. -/
theorem exists_search_header {name : List Char} (hword : name.all Text.isWord = true)
    (hne : name ≠ []) (v : Version) :
    ∃ m, versioned.expr.search (headerText name v.line.toList) = some m ∧
      m.group 2 = v.line.toList := by
  have htext : headerText name v.line.toList =
      (Header.ofName hword hne).plain.base ++ (Title.ofVersion v).text := by
    rw [← headerText_eq, Title.line_ofVersion]
    rfl
  have htitle : HasTitle (headerText name v.line.toList) :=
    ⟨[], _, Title.ofVersion v, [], by rw [htext, List.append_nil, List.nil_append], rfl⟩
  obtain ⟨m, hm⟩ := htitle.exists_search
  obtain ⟨lead, rest, h, t, hfound, hgroup⟩ := exists_header_of_search hm
  rw [htext] at hfound
  refine ⟨m, hm, ?_⟩
  -- The match is the whole header, since no other one begins inside it.
  obtain rfl : lead = [] := by
    by_contra hlead
    have hc : 'c' ∉ (Title.ofVersion v).text :=
      Title.notMem_text _ (by decide) (by decide) (by decide)
    have hpart : h.base ++ (t.text ++ rest) ≠ [] := by
      rw [Header.base_eq]
      simp
    have hsame : h.base ++ (t.text ++ rest) ++ [] = h.base ++ (t.text ++ rest) := List.append_nil _
    exact Header.not_begins hc hfound hlead hpart hsame
  obtain ⟨-, hsame⟩ := Header.base_unique hfound
  rw [← List.append_nil (Title.ofVersion v).text] at hsame
  rw [hgroup, ← (Title.text_unique hsame).1, Title.line_ofVersion]

end Migration

namespace Version

/-- All three numbers of a version, with dots between them. -/
def dotted (v : Version) : String :=
  toString v.major ++ "." ++ toString v.minor ++ "." ++ toString v.patch

/-- The release line of the version that a text stands for. -/
def lineOf (text : String) : Except Fault String := (parse text).map line

variable {text : String} {v : Version}

/-- The release line of a release line is this line itself. -/
theorem lineOf_line (h : parse text = .ok v) : lineOf v.line = .ok v.line := by
  rw [lineOf, parse_line (parse?_of_parse h)]
  rfl

/-- The three numbers of a version are a text of the version. -/
theorem parse_dotted (h : parse text = .ok v) : parse v.dotted = .ok v := by
  have htext : v.dotted.toList = Text.join ['.'] (digitsOf [v.major, v.minor, v.patch]) := by
    have hdot : ".".toList = ['.'] := by decide
    simp [dotted, hdot, Text.join, digitsOf]
  exact parse_of_numbers (by simp) htext (length_toString_le h)

/-- The normal form of versions. The release line of a version that was read is a version with the same
major and minor number, it is its own release line, and a migration that is written for it is
recognised as one for this line. The three numbers of the version are read as the version. Texts of one
version can stand for each other as the target that a constraint is asked about, and as the version in
a constraint, be it in two parts or one text. -/
theorem normal_form (h : parse text = .ok v) :
    (∃ line, lineOf text = .ok line ∧ parse line = .ok ⟨v.major, v.minor, 0⟩ ∧
      lineOf line = .ok line ∧
      ∀ name : List Char, name ≠ [] → name.all Text.isWord = true →
        ∃ m, Migration.versioned.expr.search (Migration.headerText name line.toList) = some m ∧
          m.group 2 = line.toList) ∧
    parse v.dotted = .ok v ∧
    ∀ other, parse other = .ok v →
      (∀ c : Constraint, c.answer (some other) = c.answer (some text)) ∧
      ∀ (operator : String) (target : Option String),
        (Constraint.parts [operator, other]).answer target =
          (Constraint.parts [operator, text]).answer target ∧
        (operator ≠ "" → (∀ c ∈ operator.toList, Text.isBlank c = false) →
          (Constraint.text (operator ++ " " ++ other)).answer target =
            (Constraint.text (operator ++ " " ++ text)).answer target) := by
  have hline : lineOf text = .ok v.line := by
    rw [lineOf, h]
    rfl
  refine ⟨⟨v.line, hline, parse_line (parse?_of_parse h), lineOf_line h, fun name hne hword =>
    Migration.exists_search_header hword hne v⟩, parse_dotted h, fun other hother => ?_⟩
  have hsame : parse other = parse text := hother.trans h.symm
  refine ⟨Constraint.answer_target_congr hsame, fun operator target => ?_⟩
  have hparts := Constraint.answer_parts_congr hsame operator target
  refine ⟨hparts, fun hne hsolid => ?_⟩
  rw [Constraint.answer_text hne hsolid, Constraint.answer_text hne hsolid, hparts]

/-- A text with a blank in front, zeros, digits of another script and a fourth number, next to the
plain text of its version. -/
theorem normal_form_digits : parse " 07.\u0660.4.1" = .ok ⟨7, 0, 4⟩ ∧
    lineOf " 07.\u0660.4.1" = .ok "7.0" ∧
    (Constraint.parts [">=", " 07.\u0660.4.1"]).answer (some "7.1") =
      (Constraint.parts [">=", "7.0.4"]).answer (some "7.1") := by
  have hdigits : parse " 07.\u0660.4.1" = .ok ⟨7, 0, 4⟩ := by decide
  have hplain : parse "7.0.4" = .ok ⟨7, 0, 4⟩ := by decide
  obtain ⟨-, -, hsame⟩ := normal_form hplain
  refine ⟨hdigits, ?_, ((hsame _ hdigits).2 ">=" (some "7.1")).1⟩
  rw [lineOf, hdigits]
  rfl

end Version

end RailsUpgrade
