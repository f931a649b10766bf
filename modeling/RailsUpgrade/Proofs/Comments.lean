import RailsUpgrade.Proofs.LineStarts
import RailsUpgrade.Proofs.Margins

/-!
# `RailsUpgrade.Proofs.Comments`: lines that are commented out

* `isCommented` tells it of a line, and of a text that begins a line;
* `comments`, `activeLines`, `active`: the lines that are commented out and the others;
* `stacked`: lines with a line break in front of each;
* `OnComment`, `Interrupted`: a part that begins on a line that is commented out, and one that such a
  line cuts in two.
-/

set_option autoImplicit false

namespace RailsUpgrade.Text

variable {part s t text line : List Char}

/-! ### Commented lines -/

/-- Whether the first character behind the margin is the comment sign. -/
def isCommented (s : List Char) : Bool := (s.dropWhile isSpaceOrTab).head? == some '#'

/-- The lines of a text that are commented out. -/
def comments (text : List Char) : List (List Char) := (splitChar '\n' text).filter isCommented

/-- The lines of a text. A line break at its end opens no further one. -/
def lines (text : List Char) : List (List Char) :=
  if (splitChar '\n' text).getLast? = some [] then (splitChar '\n' text).dropLast else splitChar '\n' text

/-- The lines of a text that are not commented out. -/
def activeLines (text : List Char) : List (List Char) := (lines text).filter (!isCommented ·)

/-- A text without the lines that are commented out. -/
def active (text : List Char) : List Char :=
  join ['\n'] ((splitChar '\n' text).filter (!isCommented ·))

theorem splitChar_eq_lines (text : List Char) :
    splitChar '\n' text = lines text ∨ splitChar '\n' text = lines text ++ [[]] := by
  unfold lines
  split
  · rename_i h
    exact .inr (List.dropLast_append_getLast? [] h).symm
  · exact .inl rfl

theorem isCommented_iff : isCommented s = true ↔
    ∃ margin rest, s = margin ++ '#' :: rest ∧ margin.all isSpaceOrTab = true := by
  unfold isCommented
  constructor
  · intro h
    obtain ⟨rest, hrest⟩ := List.head?_eq_some_iff.mp (eq_of_beq h)
    refine ⟨s.takeWhile isSpaceOrTab, rest, ?_, List.all_takeWhile⟩
    rw [← hrest, List.takeWhile_append_dropWhile]
  · rintro ⟨margin, rest, rfl, hmargin⟩
    rw [List.dropWhile_append_of_pos (List.all_eq_true.mp hmargin)]
    rfl

/-- What begins with another character behind its margin is not commented out. -/
theorem isCommented_append_cons {margin : List Char} {x : Char} (hmargin : margin.all isSpaceOrTab = true)
    (hx : isSpaceOrTab x = false) : isCommented (margin ++ x :: s) = (x == '#') := by
  rw [isCommented, List.dropWhile_append_of_pos (List.all_eq_true.mp hmargin),
    List.dropWhile_cons_of_neg (by simp [hx])]
  simp

/-- The first character that is no blank decides, and it must be on the first line. -/
theorem isCommented_gap {gap : List Char} {x : Char} (hgap : gap.all isBlank = true)
    (hx : isBlank x = false) (hsign : x ≠ '#') : isCommented (gap ++ x :: s) = false := by
  have hmargin : ∀ {c : Char}, isSpaceOrTab c = true → isBlank c = true := fun hc =>
    (isBlank_of_isSpaceOrTab hc).1
  rw [← Bool.not_eq_true, isCommented_iff]
  rintro ⟨margin, rest, heq, hall⟩
  induction gap generalizing margin with
  | nil =>
    cases margin with
    | nil => exact hsign (List.cons_eq_cons.mp heq).1
    | cons y margin =>
      obtain ⟨rfl, -⟩ := List.cons_eq_cons.mp heq
      rw [List.all_cons, Bool.and_eq_true] at hall
      rw [hmargin hall.1] at hx
      cases hx
  | cons y gap ih =>
    rw [List.all_cons, Bool.and_eq_true] at hgap
    cases margin with
    | nil =>
      obtain ⟨rfl, -⟩ := List.cons_eq_cons.mp heq
      exact absurd hgap.1 (by decide)
    | cons z margin =>
      rw [List.all_cons, Bool.and_eq_true] at hall
      exact ih hgap.2 margin (List.cons_eq_cons.mp heq).2 hall.2

/-- What stands behind a character that is no margin and no comment sign has no say. -/
theorem isCommented_append_of_solid {x : Char} (hx : isSpaceOrTab x = false) (hsign : x ≠ '#') :
    isCommented (s ++ x :: t) = isCommented s := by
  unfold isCommented
  rw [List.dropWhile_append]
  cases s.dropWhile isSpaceOrTab with
  | nil => simp [hx, hsign]
  | cons y more => rfl

/-- The lines that follow have no say. -/
theorem isCommented_append (ht : StartsBreak t) : isCommented (s ++ t) = isCommented s := by
  rcases ht with rfl | ⟨rest, rfl⟩
  · rw [List.append_nil]
  · exact isCommented_append_of_solid (by decide) (by decide)

/-- What stands behind a comment sign has no say. -/
theorem isCommented_append_of_isCommented (h : isCommented s = true) : isCommented (s ++ t) = true := by
  obtain ⟨margin, rest, rfl, hmargin⟩ := isCommented_iff.mp h
  exact isCommented_iff.mpr ⟨margin, rest ++ t, by simp, hmargin⟩

/-! ### What stands behind the line breaks -/

/-- What stands behind each line break of a text. -/
@[grind =] def behindBreaks : List Char → List (List Char)
  | [] => []
  | c :: s => if c = '\n' then s :: behindBreaks s else behindBreaks s

theorem behindBreaks_append (s t : List Char) :
    behindBreaks (s ++ t) = (behindBreaks s).map (· ++ t) ++ behindBreaks t := by
  induction s with
  | nil => rfl
  | cons c s ih =>
    rw [List.cons_append, behindBreaks, behindBreaks, ih]
    split <;> rfl

/-- The first line of a text. -/
def firstLine (s : List Char) : List Char := s.takeWhile (· != '\n')

theorem mem_behindBreaks_iff : s ∈ behindBreaks text ↔ ∃ lead, text = lead ++ '\n' :: s := by
  induction text with
  | nil => simp [behindBreaks]
  | cons c text ih =>
    have hstep : (∃ lead, c :: text = lead ++ '\n' :: s) ↔
        (c = '\n' ∧ text = s) ∨ ∃ lead, text = lead ++ '\n' :: s := by
      constructor
      · rintro ⟨lead, h⟩
        cases lead with
        | nil => exact .inl (List.cons_eq_cons.mp h)
        | cons x lead => exact .inr ⟨lead, (List.cons_eq_cons.mp h).2⟩
      · rintro (⟨rfl, rfl⟩ | ⟨lead, rfl⟩)
        · exact ⟨[], rfl⟩
        · exact ⟨c :: lead, rfl⟩
    rw [hstep, ← ih, behindBreaks]
    split
    · rename_i hc
      simp [hc, eq_comm]
    · rename_i hc
      simp [hc]

/-- The lines of a text are the first lines of what stands behind a break, with one in front. -/
theorem splitChar_eq_map (text : List Char) :
    splitChar '\n' text = (behindBreaks ('\n' :: text)).map firstLine := by
  rw [behindBreaks, if_pos rfl]
  induction text with
  | nil => rfl
  | cons c text ih =>
    rw [splitChar, ih, behindBreaks]
    by_cases hc : c = '\n'
    · simp [hc, firstLine]
    · simp [hc, firstLine]

/-- The lines of a text behind its first one. -/
def laterLines (s : List Char) : List (List Char) := (behindBreaks s).map firstLine

theorem splitChar_eq_cons (s : List Char) : splitChar '\n' s = firstLine s :: laterLines s := by
  rw [splitChar_eq_map, behindBreaks, if_pos rfl, List.map_cons, laterLines]

theorem behindBreaks_of_notMem (h : '\n' ∉ s) : behindBreaks s = [] := by
  rw [List.eq_nil_iff_forall_not_mem]
  intro u hu
  obtain ⟨lead, rfl⟩ := mem_behindBreaks_iff.mp hu
  simp at h

theorem isCommented_firstLine (s : List Char) : isCommented (firstLine s) = isCommented s := by
  have hsplit : firstLine s ++ s.dropWhile (· != '\n') = s := List.takeWhile_append_dropWhile
  conv_rhs => rw [← hsplit, isCommented_append (startsBreak_dropWhile s)]

/-- What stands behind the line breaks that a line that is commented out follows. -/
def behindCommentBreaks (text : List Char) : List (List Char) := (behindBreaks text).filter isCommented

theorem comments_eq_map (text : List Char) :
    comments text = (behindCommentBreaks ('\n' :: text)).map firstLine := by
  rw [comments, splitChar_eq_map, behindCommentBreaks, List.filter_map]
  congr 1
  exact List.filter_congr fun s _ => isCommented_firstLine s

theorem firstLine_isPrefix (s : List Char) : firstLine s <+: s := List.takeWhile_prefix _

theorem firstLine_append (hline : '\n' ∉ line) (t : List Char) :
    firstLine (line ++ t) = line ++ firstLine t := by
  refine List.takeWhile_append_of_pos fun c hc => ?_
  have hne : c ≠ '\n' := fun h => hline (h ▸ hc)
  simpa using hne

/-! ### Lines with a break in front of each -/

/-- Lines with a line break in front of each. -/
def stacked (lines : List (List Char)) : List Char := lines.flatMap ('\n' :: ·)

@[simp] theorem stacked_nil : stacked [] = [] := rfl

@[simp] theorem stacked_cons (line : List Char) (lines : List (List Char)) :
    stacked (line :: lines) = '\n' :: (line ++ stacked lines) := rfl

theorem stacked_append (lines more : List (List Char)) :
    stacked (lines ++ more) = stacked lines ++ stacked more := List.flatMap_append

theorem startsBreak_stacked (lines : List (List Char)) : StartsBreak (stacked lines) := by
  cases lines with
  | nil => exact .inl rfl
  | cons line lines => exact .inr ⟨_, rfl⟩

theorem stacked_eq {lines : List (List Char)} (hne : lines ≠ []) :
    stacked lines = '\n' :: join ['\n'] lines := by
  induction lines with
  | nil => exact absurd rfl hne
  | cons line lines ih =>
    by_cases hlast : lines = []
    · subst hlast
      simp [join]
    · rw [stacked_cons, ih hlast, join_cons _ _ hlast, List.append_assoc]
      rfl

theorem stacked_splitChar (text : List Char) : stacked (splitChar '\n' text) = '\n' :: text := by
  rw [stacked_eq (splitChar_ne_nil _ _), join_splitChar]

/-- The first line and those behind it. -/
theorem append_stacked (line : List Char) (lines : List (List Char)) :
    line ++ stacked lines = join ['\n'] (line :: lines) := by
  have hstacked : '\n' :: (line ++ stacked lines) = '\n' :: join ['\n'] (line :: lines) :=
    stacked_eq (List.cons_ne_nil line lines)
  exact (List.cons_eq_cons.mp hstacked).2

theorem splitChar_append_stacked {lines : List (List Char)} (hline : '\n' ∉ line)
    (hlines : ∀ l ∈ lines, '\n' ∉ l) : splitChar '\n' (line ++ stacked lines) = line :: lines := by
  rw [append_stacked]
  exact splitChar_join (List.cons_ne_nil _ _) (List.forall_mem_cons.mpr ⟨hline, hlines⟩)

/-- What begins with two parts ends in the first one or goes on with the second. -/
theorem prefix_append_cases {b : List Char} (h : b <+: s ++ t) :
    b <+: s ∨ ∃ b', b = s ++ b' ∧ b' <+: t := by
  obtain ⟨rest, hrest⟩ := h
  rcases List.append_eq_append_iff.mp hrest with ⟨a, rfl, -⟩ | ⟨a, rfl, ht⟩
  · exact .inl ⟨a, rfl⟩
  · exact .inr ⟨a, rfl, rest, ht.symm⟩

/-- What begins with lines, some of which are commented out and are left out, also begins with all of
them, unless one that is commented out cuts it in two. -/
theorem prefix_or_cut_of_prefix_active {b : List Char} {lines : List (List Char)}
    (hlines : ∀ l ∈ lines, '\n' ∉ l) (h : b <+: stacked (lines.filter (!isCommented ·))) :
    b <+: stacked lines ∨ ∃ p q rest, b = p ++ '\n' :: q ∧ stacked lines = p ++ '\n' :: rest ∧
      isCommented rest = true ∧ q <+: active rest := by
  induction lines generalizing b with
  | nil => exact .inl h
  | cons line lines ih =>
    obtain ⟨hline, hlines⟩ := List.forall_mem_cons.mp hlines
    cases b with
    | nil => exact .inl List.nil_prefix
    | cons x b =>
      by_cases hcomment : isCommented line = true
      · -- The line is left out, and what it cuts off goes on behind it.
        rw [List.filter_cons_of_neg (by simp [hcomment])] at h
        have hne : lines.filter (!isCommented ·) ≠ [] := by
          intro hnil
          rw [hnil] at h
          simp at h
        rw [stacked_eq hne] at h
        obtain ⟨rfl, hb⟩ := List.cons_prefix_cons.mp h
        refine .inr ⟨[], b, line ++ stacked lines, rfl, rfl, ?_, ?_⟩
        · rw [isCommented_append (startsBreak_stacked lines), hcomment]
        · rw [active, splitChar_append_stacked hline hlines, List.filter_cons_of_neg (by simp [hcomment])]
          exact hb
      · rw [List.filter_cons_of_pos (by simpa using hcomment), stacked_cons] at h
        obtain ⟨rfl, hb⟩ := List.cons_prefix_cons.mp h
        rcases prefix_append_cases hb with hshort | ⟨b, rfl, hrest⟩
        · refine .inl ?_
          rw [stacked_cons]
          exact (List.prefix_cons_inj _).mpr (hshort.trans (List.prefix_append _ _))
        · rcases ih hlines hrest with hall | ⟨p, q, rest, rfl, hcut, htail⟩
          · refine .inl ?_
            rw [stacked_cons]
            exact (List.prefix_cons_inj _).mpr ((List.prefix_append_right_inj _).mpr hall)
          · exact .inr ⟨'\n' :: (line ++ p), q, rest, by simp, by simp [hcut], htail⟩

/-! ### Parts and commented lines -/

/-- A part begins on a line that is commented out, behind `line`. With a break in front of the text
every line stands behind one. -/
def OnComment (part text : List Char) : Prop :=
  ∃ lead line rest, '\n' :: text = lead ++ '\n' :: (line ++ (part ++ rest)) ∧ '\n' ∉ line ∧
    isCommented line = true

/-- A part begins on a line that is not commented out, and lines that are commented out stand between
it and its rest `q`. -/
def Interrupted (part text : List Char) : Prop :=
  ∃ lead line p q rest, '\n' :: text = lead ++ '\n' :: (line ++ (p ++ '\n' :: rest)) ∧ '\n' ∉ line ∧
    isCommented line = false ∧ p ≠ [] ∧ part = p ++ '\n' :: q ∧ isCommented rest = true ∧
    q <+: active rest

/-- The line on which such a part begins is one of those that are commented out. -/
theorem OnComment.exists_comment {x : Char} (h : OnComment (x :: part) text) (hx : x ≠ '\n') :
    ∃ l ∈ comments text, x ∈ l := by
  obtain ⟨lead, line, rest, htext, hline, hcomment⟩ := h
  refine ⟨firstLine (line ++ (x :: part ++ rest)), ?_, ?_⟩
  · rw [comments_eq_map]
    refine List.mem_map_of_mem (List.mem_filter.mpr ⟨mem_behindBreaks_iff.mpr ⟨lead, htext⟩, ?_⟩)
    exact isCommented_append_of_isCommented hcomment
  · rw [firstLine_append hline]
    simp [firstLine, hx]

/-- A line that is commented out stands behind the place where such a part begins. -/
theorem Interrupted.exists_comment {x : Char} (h : Interrupted (x :: part) text) (hx : x ≠ '\n') :
    ∃ s, x :: s <:+ text ∧ comments s ≠ [] := by
  obtain ⟨lead, line, p, q, rest, htext, -, -, hp, hpart, hcomment, -⟩ := h
  obtain ⟨y, p, rfl⟩ := List.exists_cons_of_ne_nil hp
  obtain ⟨rfl, -⟩ := List.cons_eq_cons.mp hpart
  refine ⟨p ++ '\n' :: rest, ?_, ?_⟩
  · have hsuffix : x :: (p ++ '\n' :: rest) <:+ '\n' :: text := ⟨lead ++ '\n' :: line, by rw [htext]; simp⟩
    rcases List.suffix_cons_iff.mp hsuffix with heq | hsuffix
    · exact absurd (List.cons_eq_cons.mp heq).1 hx
    · exact hsuffix
  · rw [comments_eq_map]
    refine List.ne_nil_of_mem (List.mem_map_of_mem (List.mem_filter.mpr
      ⟨mem_behindBreaks_iff.mpr ⟨'\n' :: p, rfl⟩, hcomment⟩))

end RailsUpgrade.Text
