import RailsUpgrade.Proofs.DetectedVersion
import RailsUpgrade.Proofs.Gemfile
import RailsUpgrade.Proofs.Raising
import RailsUpgrade.Proofs.ReleaseLine
import RailsUpgrade.Proofs.Rerun

/-!
# `RailsUpgrade.Proofs.DetectedRelease`: the release that an updated Gemfile tells

An update of the Gemfile writes the pin of a release line, and the next run reads its target off this
pin:

* `SameRelease`: targets that no rule and no edit of the Gemfile tells apart. Those with the same release
  line are such targets;
* `Gemfile.updateTo_congr`, `Project.stockRepaired_congr`: so updates and repairs are the same for them;
* `Project.pinnedVersion?_of_tidy`: once Rails is pinned, the version that is read is the one that was
  written, if any is;
* `Project.wholePins_of_tails`: how to see that no pin has a line break behind its operator.
-/

set_option autoImplicit false

namespace RailsUpgrade

/-! ### Targets of the same release -/

/-- The releases that constraints ask for. -/
def releases : List Nat := [5, 6, 7]

/-- A constraint that asks for a release and those after it, or for those before it. -/
def Constraint.AsksRelease (c : Constraint) : Prop :=
  ∃ major ∈ releases, c.parse? = some (.atLeast, ⟨major, 0, 0⟩) ∨ c.parse? = some (.below, ⟨major, 0, 0⟩)

instance (c : Constraint) : Decidable c.AsksRelease :=
  inferInstanceAs (Decidable (∃ major ∈ releases, _ ∨ _))

/-- Two targets that are not told apart by the releases that they have reached. -/
def SameRelease (a b : String) : Prop :=
  a = b ∨ ∃ v v', Version.parse? a = some v ∧ Version.parse? b = some v' ∧
    ∀ major ∈ releases, major ≤ v.major ↔ major ≤ v'.major

theorem Version.before_release (v : Version) (major : Nat) :
    v.before ⟨major, 0, 0⟩ = decide (v.major < major) := by simp [before]

theorem SameRelease.symm {a b : String} (h : SameRelease a b) : SameRelease b a := by
  rcases h with rfl | ⟨v, v', hv, hv', hsame⟩
  · exact .inl rfl
  · exact .inr ⟨v', v, hv', hv, fun major hmajor => (hsame major hmajor).symm⟩

theorem SameRelease.admits {a b : String} {c : Constraint} (h : SameRelease a b) (hc : c.AsksRelease) :
    c.admits (some a) = c.admits (some b) := by
  rcases h with rfl | ⟨v, v', hv, hv', hsame⟩
  · rfl
  · obtain ⟨major, hmajor, hparse⟩ := hc
    have hlt : v.major < major ↔ v'.major < major := by
      rw [← Nat.not_le, ← Nat.not_le, hsame major hmajor]
    rcases hparse with hparse | hparse <;>
      simp [Constraint.admits, hparse, hv, hv', Comparison.holds, Version.before_release, hlt]

namespace Gemfile

variable {a b : String}

theorem atLeast_release {v : Version} (hv : Version.parse? a = some v) {minimum : String} {major : Nat}
    (hminimum : Version.parse? minimum = some ⟨major, 0, 0⟩) :
    Version.atLeast (some a) minimum = decide (major ≤ v.major) := by
  have hpair : (Constraint.parts [">=", minimum]).parse? = some (.atLeast, ⟨major, 0, 0⟩) := by
    simp [Constraint.parse?, Constraint.pair?, Comparison.parse?, hminimum]
  simp [Version.atLeast, Constraint.admits, hpair, hv, Comparison.holds, Version.before_release,
    ← decide_not]

/-- A target with a release line is a version. -/
theorem exists_version_of_releaseLine? {line : ReleaseLine} (h : releaseLine? a = some line) :
    ∃ v, Version.parse a = .ok v := by
  unfold releaseLine? at h
  exact Version.exists_parse_of_atLeast (by simpa using List.find?_some h)

/-- The release line of a version is told by its first number. -/
theorem releaseLine?_eq {v : Version} (hv : Version.parse? a = some v) :
    releaseLine? a = if 7 ≤ v.major then some ⟨"7.0.0", "~> 7.0.0", "3.0.0"⟩
      else if 6 ≤ v.major then some ⟨"6.0.0", "~> 6.1.0", "2.7.0"⟩
      else if 5 ≤ v.major then some ⟨"5.0.0", "~> 5.2.0", "2.5.0"⟩ else none := by
  have hseven : Version.atLeast (some a) "7.0.0" = decide (7 ≤ v.major) :=
    atLeast_release hv (by decide)
  have hsix : Version.atLeast (some a) "6.0.0" = decide (6 ≤ v.major) :=
    atLeast_release hv (by decide)
  have hfive : Version.atLeast (some a) "5.0.0" = decide (5 ≤ v.major) :=
    atLeast_release hv (by decide)
  simp only [releaseLine?, releaseLines, List.find?_cons, List.find?_nil, hseven, hsix, hfive]
  by_cases h₇ : 7 ≤ v.major
  · simp [h₇]
  · by_cases h₆ : 6 ≤ v.major
    · simp [h₇, h₆]
    · by_cases h₅ : 5 ≤ v.major <;> simp [h₇, h₆, h₅]

theorem sameRelease_of_releaseLine? {line : ReleaseLine} (ha : releaseLine? a = some line)
    (hb : releaseLine? b = some line) : SameRelease a b := by
  obtain ⟨v, hv⟩ := exists_version_of_releaseLine? ha
  obtain ⟨v', hv'⟩ := exists_version_of_releaseLine? hb
  have hv := Version.parse?_of_parse hv
  have hv' := Version.parse?_of_parse hv'
  refine .inr ⟨v, v', hv, hv', fun major hmajor => ?_⟩
  rw [← hb, releaseLine?_eq hv, releaseLine?_eq hv'] at ha
  obtain rfl | rfl | rfl : major = 5 ∨ major = 6 ∨ major = 7 := by simpa [releases] using hmajor
  all_goals split_ifs at ha <;> first | omega | exact absurd ha (by decide)

/-- No edit of a Gemfile tells targets of the same release apart. -/
theorem asksRelease_edits : ∀ e ∈ incompatible ++ (rubyPin? "2.6").toList ++ (rubyPin? "2.5").toList,
    (Constraint.text e.constraint).AsksRelease := by decide +kernel

theorem Edit.apply_congr (h : SameRelease a b) {e : Edit} (he : (Constraint.text e.constraint).AsksRelease)
    (text : List Char) : e.apply a text = e.apply b text := by
  rw [apply, apply, h.admits he]

theorem updateTo_congr (h : SameRelease a b) (line : ReleaseLine) (text : List Char) :
    updateTo line a text = updateTo line b text := by
  -- The edits of lines and the pin of Ruby ask for releases only.
  have hfold : ∀ edits ⊆ incompatible, ∀ text : List Char,
      edits.foldl (fun text e => e.apply a text) text = edits.foldl (fun text e => e.apply b text) text := by
    intro edits hedits
    induction edits with
    | nil => exact fun _ => rfl
    | cons e edits ih =>
      obtain ⟨he, hedits⟩ := List.cons_subset.mp hedits
      intro text
      have hasks := asksRelease_edits e (by simp [he])
      rw [List.foldl_cons, List.foldl_cons, Edit.apply_congr h hasks, ih hedits]
  have hpin : ∀ version pin, rubyPin? version = some pin → ∀ text, pin.apply a text = pin.apply b text := by
    intro version pin hpin text
    refine Edit.apply_congr h (asksRelease_edits pin ?_) text
    unfold rubyPin? at hpin
    split at hpin <;> cases hpin <;> simp [rubyPin?]
  unfold updateTo
  simp only [hfold incompatible (List.Subset.refl _)]
  generalize incompatible.foldl _ _ = edited
  cases hruby : rubyPin? (rubyLineOf line edited) with
  | none => rfl
  | some pin => simp only [hpin _ pin hruby]

end Gemfile

namespace Project

open Gemfile (GemCall RailsCall Tidy pinOf releaseLine? releaseLines ReleaseLine versionSet isQuote
  isQuote_straight isBlank_space space_ne_nil isBlank_eq_false_of_isQuote)

variable {a b : String}

/-! ### Rules of the library -/

theorem asksRelease_stock : ∀ d ∈ Registry.stock.detections, ∀ c ∈ d.constraint, c.AsksRelease := by
  have hsix : (Constraint.text ">= 6.0.0").AsksRelease := by decide
  have hseven : (Constraint.text ">= 7.0.0").AsksRelease := by decide
  intro d hd c hc
  rcases constraint_stock d hd with h | h | h <;> rw [h] at hc <;> cases hc
  · exact hsix
  · exact hseven

/-- The repairs of the library are the same for targets of the same release. -/
theorem stockRepaired_congr (h : SameRelease a b) (safe : Bool) (names : List String) (text : List Char) :
    stockRepaired safe a names text = stockRepaired safe b names text := by
  have hactive : ∀ d ∈ Registry.stock.detections, d.isActive (some a) = d.isActive (some b) := by
    intro d hd
    unfold Detection.isActive
    cases hc : d.constraint with
    | none => rfl
    | some c => exact h.admits (asksRelease_stock d hd c hc)
  have hdue : dueSources .stock a names text = dueSources .stock b names text := by
    rw [dueSources, dueSources]
    refine congrArg (fun ds => distinct (ds.map Detection.source)) (List.filter_congr fun d hd => ?_)
    rw [hactive d hd]
  rw [stockRepaired, stockRepaired, hdue]

/-! ### The version that an updated Gemfile tells -/

/-- A pin whose operator and version are on one line is a call that asks for Rails. -/
def VersionPin.railsCall {operator : List Char} (pin : VersionPin operator)
    (hoperator : operator.all versionSet.mem = true) (hgap : '\n' ∉ pin.gap) : RailsCall where
  gap := pin.call.gap
  space := pin.space
  version := operator ++ (pin.gap ++ pin.version)
  opening := pin.call.opening
  closing := pin.call.closing
  opening' := pin.opening
  closing' := pin.closing
  gap_blank := pin.call.gap_blank
  gap_ne := pin.call.gap_ne
  space_blank := pin.space_blank
  space_ne := pin.space_ne
  version_plain := by
    have hblank : ∀ c ∈ pin.gap, versionSet.mem c = true := by
      intro c hc
      have hquote : isQuote c = false := by
        by_contra hquote
        have hsolid := isBlank_eq_false_of_isQuote (by simpa using hquote)
        rw [List.all_eq_true.mp pin.gap_blank c hc] at hsolid
        cases hsolid
      simpa [hquote] using ne_of_mem_of_not_mem hc hgap
    have hversion : ∀ c ∈ pin.version, versionSet.mem c = true := by
      intro c hc
      have hplain := List.all_eq_true.mp pin.version_plain c hc
      have hquote : isQuote c = false := by
        rw [← Bool.not_eq_true]
        intro hquote
        obtain rfl | rfl : c = '\'' ∨ c = '"' := by simpa [isQuote] using hquote
        · exact absurd hplain (by decide)
        · exact absurd hplain (by decide)
      have hbreak : c ≠ '\n' := by
        rintro rfl
        exact absurd hplain (by decide)
      simp [hquote, hbreak]
    rw [List.all_append, List.all_append, hoperator, List.all_eq_true.mpr hblank,
      List.all_eq_true.mpr hversion]
    rfl
  isQuote_opening := pin.call.isQuote_opening
  isQuote_closing := pin.call.isQuote_closing
  isQuote_opening' := pin.isQuote_opening
  isQuote_closing' := pin.isQuote_closing

theorem VersionPin.text_railsCall {operator : List Char} (pin : VersionPin operator)
    (hoperator : operator.all versionSet.mem = true) (hgap : '\n' ∉ pin.gap) :
    (pin.railsCall hoperator hgap).text = pin.text := by
  simp only [railsCall, RailsCall.text, RailsCall.front, VersionPin.text, GemCall.text, GemCall.tail,
    List.append_assoc, List.cons_append, List.nil_append]

/-- The version that the pin of a release line tells. -/
def pinnedTo (line : ReleaseLine) : String := String.ofList (line.railsPin.toList.drop 3)

/-- The pin of a release line leads back to this line. -/
theorem releaseLine?_pinnedTo : ∀ line ∈ releaseLines, releaseLine? (pinnedTo line) = some line := by
  decide

theorem railsPin_eq : ∀ line ∈ releaseLines,
    line.railsPin.toList = "~>".toList ++ (' ' :: (pinnedTo line).toList) ∧
      (pinnedTo line).toList.all isVersionChar = true ∧ (pinnedTo line).toList ≠ [] := by
  decide

variable {line : ReleaseLine} {text : List Char}

/-- The pin that an update writes. -/
def writtenPin (h : line ∈ releaseLines) : VersionPin "~>".toList where
  call := ⟨[' '], '\'', '\'', isBlank_space, space_ne_nil, isQuote_straight, isQuote_straight⟩
  space := [' ']
  opening := '\''
  gap := [' ']
  version := (pinnedTo line).toList
  closing := '\''
  space_blank := isBlank_space
  space_ne := space_ne_nil
  isQuote_opening := isQuote_straight
  gap_blank := isBlank_space
  gap_ne := space_ne_nil
  version_plain := (railsPin_eq line h).2.1
  version_ne := (railsPin_eq line h).2.2
  isQuote_closing := isQuote_straight

theorem text_writtenPin (h : line ∈ releaseLines) : (writtenPin h).text = (pinOf h).text := by
  have hpin : (pinOf h).text = "gem 'rails', '".toList ++ (line.railsPin.toList ++ ['\'']) := rfl
  have hfront : "gem 'rails', '".toList = "gem".toList ++ ([' '] ++ ('\'' :: ("rails".toList ++
      ('\'' :: ',' :: ([' '] ++ ['\'']))))) := by decide
  rw [hpin, hfront, (railsPin_eq line h).1]
  simp only [writtenPin, VersionPin.text, GemCall.text_eq, List.append_assoc, List.cons_append,
    List.nil_append]

/-- A text none of whose pins has a line break behind its operator. -/
def WholePins (text : List Char) : Prop :=
  ∀ operator ∈ ["~>", ">="], ∀ pin : VersionPin operator.toList, pin.text <:+: text → '\n' ∉ pin.gap

/-- Whether a text begins with an operator that has a line break behind it. -/
def opensCut (operator : List Char) (s : List Char) : Bool :=
  operator.isPrefixOf s && ((s.drop operator.length).takeWhile Text.isBlank).contains '\n'

/-- Operators can be looked for at each place of a text. -/
theorem wholePins_of_tails
    (h : ∀ operator ∈ ["~>", ">="], ∀ s ∈ text.tails, opensCut operator.toList s = false) :
    WholePins text := by
  rintro operator hoperator pin ⟨lead, rest, rfl⟩ hbreak
  have hcut := h operator hoperator (operator.toList ++ (pin.gap ++ (pin.version ++ pin.closing :: rest)))
    ((List.mem_tails _ _).mpr ⟨lead ++ (pin.call.text ++ (',' :: (pin.space ++ [pin.opening]))), by
      simp [VersionPin.text]⟩)
  rw [opensCut, List.drop_left, List.takeWhile_append_of_pos (List.all_eq_true.mp pin.gap_blank),
    List.isPrefixOf_iff_prefix.mpr (List.prefix_append _ _), Bool.true_and, ← Bool.not_eq_true,
    List.contains_iff_mem] at hcut
  exact hcut (List.mem_append_left _ hbreak)

theorem text_eq_of_tidy (hline : line ∈ releaseLines) (htidy : Tidy (pinOf hline) text)
    (hwhole : WholePins text) {operator : String} (hoperator : operator ∈ ["~>", ">="])
    {pin : VersionPin operator.toList} (hpin : pin.text <:+: text) : pin.text = (writtenPin hline).text := by
  have hplain : operator.toList.all versionSet.mem = true := by
    rcases List.mem_pair.mp hoperator with rfl | rfl
    · decide
    · decide
  have hgap := hwhole operator hoperator pin hpin
  rw [text_writtenPin, ← pin.text_railsCall hplain hgap]
  exact htidy.pinned _ (by rwa [pin.text_railsCall hplain hgap])

/-- Once Rails is pinned, the version that is told is that of the pin, if any is. -/
theorem pinnedVersion?_of_tidy (hline : line ∈ releaseLines) (htidy : Tidy (pinOf hline) text)
    (hwhole : WholePins text) : pinnedVersion? text = none ∨ pinnedVersion? text = some (pinnedTo line) := by
  have hpart : ∀ {s : List Char}, s ∈ text.tails → ∀ {part rest : List Char}, s = part ++ rest →
      part <:+: text := by
    rintro s hs part rest rfl
    exact (List.prefix_append _ _).isInfix.trans ((List.mem_tails _ _).mp hs).isInfix
  have hfrom : firstPin ">=" text = none := by
    refine List.findSome?_eq_none_iff.mpr fun s hs => ?_
    rw [← Option.not_isSome_iff_eq_none]
    intro hsome
    obtain ⟨version, hversion⟩ := Option.isSome_iff_exists.mp hsome
    obtain ⟨pin, rest, hpin, -⟩ := pinAt_iff.mp hversion
    have hsame := text_eq_of_tidy hline htidy hwhole (by simp) (hpart hs hpin)
    have happend : pin.text ++ [] = (writtenPin hline).text ++ [] := by rw [hsame]
    exact absurd (List.append_inj_left (VersionPin.operator_unique happend) (by decide)) (by decide)
  rw [pinnedVersion?_eq, hfrom, Option.or_none]
  cases hfirst : firstPin "~>" text with
  | none => exact .inl rfl
  | some version =>
    refine .inr ?_
    obtain ⟨s, hs, hversion⟩ := List.exists_of_findSome?_eq_some hfirst
    obtain ⟨pin, rest, hpin, rfl⟩ := pinAt_iff.mp hversion
    have hsame := text_eq_of_tidy hline htidy hwhole (by simp) (hpart hs hpin)
    have happend : pin.text ++ [] = (writtenPin hline).text ++ [] := by rw [hsame]
    rw [VersionPin.version_unique happend, Option.map_some, writtenPin, String.ofList_toList]

end Project

end RailsUpgrade
