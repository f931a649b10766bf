import RailsUpgrade.Proofs.ClassText
import RailsUpgrade.Proofs.Margins
import RailsUpgrade.Proofs.OnLine

/-!
# `RailsUpgrade.Proofs.Extracted`: a class that has moved can be taken out again

The new file of a class wraps its text in modules and puts it under their margin. Taking the class out
of this file undoes all of it.

* `searchIn_fileOf`: a search for the start of a line passes over lines that begin otherwise;
* `classIn?_fileOf`: what is taken out of a file that is given by its lines;
* `toList_movedClass`: the lines of the new file;
* `classIn?_movedClass`: the class that is taken out of the new file is the one that was put in.
-/

set_option autoImplicit false

namespace RailsUpgrade

open Pattern (Expr Cursor Match canTake_seq canTake_star canTake_plus canTake_one canTake_literal
  canTake_group canTake_anchor run_eq_findSome? findSome?_some)
open Text (StartsBreak)

variable {e : Expr} {before line rest margin : List Char}

/-! ### Searching line by line -/

/-- A pattern that begins at the start of a line. -/
def AtLineStart (e : Expr) : Prop :=
  ∀ c : Cursor, c.before ≠ [] → c.before.head? ≠ some '\n' → e.ends c = []

theorem atLineStart_seq (p : Expr) : AtLineStart (.seq (.anchor .lineStart) p) := by
  intro c hne hhead
  have hholds : Pattern.Anchor.lineStart.holds c = false := by
    simp [Pattern.Anchor.holds, hne, hhead]
  simp [Expr.ends, hholds]

theorem matchAt_eq_head? (e : Expr) (c : Cursor) : e.matchAt c = (e.ends c).head?.map (⟨c, ·⟩) := by
  rw [Expr.matchAt, run_eq_findSome?, findSome?_some]

theorem searchIn_of_head? {text : List Char} {pos : Nat} {last : Cursor}
    (h : (e.ends { before, after := text, pos }).head? = some last) :
    e.searchIn before pos text = some ⟨{ before, after := text, pos }, last⟩ := by
  cases text with
  | nil => rw [Expr.searchIn, matchAt_eq_head?, h, Option.map_some]
  | cons x text => rw [Expr.searchIn, matchAt_eq_head?, h, Option.map_some]

/-- A file that is given by its lines. -/
def fileOf (lines : List (List Char)) : List Char := lines.flatMap (· ++ ['\n'])

theorem fileOf_cons (line : List Char) (lines : List (List Char)) :
    fileOf (line :: lines) = line ++ '\n' :: fileOf lines := by
  simp [fileOf]

theorem fileOf_append (lines more : List (List Char)) :
    fileOf (lines ++ more) = fileOf lines ++ fileOf more := List.flatMap_append

/-- A search passes over a line that its pattern does not begin with. -/
theorem searchIn_line (he : AtLineStart e) (hline : '\n' ∉ line) {pos : Nat}
    (hnone : e.ends { before, after := line ++ '\n' :: rest, pos } = []) :
    e.searchIn before pos (line ++ '\n' :: rest) =
      e.searchIn ((line ++ ['\n']).reverse ++ before) (pos + (line ++ ['\n']).length) rest := by
  induction line generalizing before pos with
  | nil =>
    rw [List.nil_append] at hnone ⊢
    rw [Expr.searchIn, matchAt_eq_head?, hnone]
    rfl
  | cons x line ih =>
    rw [List.mem_cons, not_or] at hline
    rw [List.cons_append] at hnone ⊢
    have hinside := he { before := x :: before, after := line ++ '\n' :: rest, pos := pos + 1 } (by simp)
      (by simpa using fun h => hline.1 h.symm)
    rw [Expr.searchIn, matchAt_eq_head?, hnone]
    refine (ih hline.2 hinside).trans ?_
    simp [Nat.add_assoc, Nat.add_comm 1]

theorem searchIn_fileOf (he : AtLineStart e) {lines : List (List Char)} {pos : Nat}
    (hlines : ∀ line ∈ lines, '\n' ∉ line ∧
      ∀ before rest pos, e.ends { before, after := line ++ '\n' :: rest, pos } = []) :
    e.searchIn before pos (fileOf lines ++ rest) =
      e.searchIn ((fileOf lines).reverse ++ before) (pos + (fileOf lines).length) rest := by
  induction lines generalizing before pos with
  | nil => rfl
  | cons line lines ih =>
    rw [List.forall_mem_cons] at hlines
    rw [fileOf_cons, List.append_assoc, List.cons_append, searchIn_line he hlines.1.1 (hlines.1.2 _ _ _),
      ih hlines.2]
    congr 1
    · simp
    · simp only [List.length_append, List.length_cons, List.length_nil]
      omega

/-! ### The header and the end of a class -/

/-- The name of a class or a module: a word. -/
def isIdentifier (name : List Char) : Bool := !name.isEmpty && name.all Text.isWord

theorem mem_word (x : Char) : Pattern.CharKind.word.mem false x = Text.isWord x := rfl

/-- A name begins with a character that is no blank, and ends with one of a word. -/
theorem exists_of_isIdentifier {name : List Char} (h : isIdentifier name = true) :
    (∃ x more, name = x :: more ∧ Text.isSpaceOrTab x = false) ∧
      ∃ front x, name = front ++ [x] ∧ Text.isWord x = true := by
  rw [isIdentifier, Bool.and_eq_true, Bool.not_eq_true', List.isEmpty_eq_false_iff] at h
  obtain ⟨hne, hword⟩ := h
  constructor
  · obtain ⟨x, more, rfl⟩ := List.exists_cons_of_ne_nil hne
    refine ⟨x, more, rfl, Bool.eq_false_iff.mpr fun hx => ?_⟩
    have hsolid := Text.isWord_eq_false_of_isBlank (Text.isBlank_of_isSpaceOrTab hx).1
    rw [List.all_eq_true.mp hword x List.mem_cons_self] at hsolid
    cases hsolid
  · obtain ⟨front, x, rfl⟩ := (List.eq_nil_or_concat' name).resolve_left hne
    exact ⟨front, x, rfl, List.all_eq_true.mp hword x (by simp)⟩

theorem holds_lineStart {c : Cursor} (h : StartsBreak c.before) :
    Pattern.Anchor.lineStart.holds c = true := by
  rcases h with hnil | ⟨more, hmore⟩
  · simp [Pattern.Anchor.holds, hnil]
  · simp [Pattern.Anchor.holds, hmore]

/-- The header of a class, as a file has it that a class was moved to. -/
def headerOf (margin : List Char) (name : String) (rest : List Char) : List Char :=
  margin ++ "class".toList ++ [' '] ++ name.toList ++ rest ++ ['\n']

/-- The only way to read a header. -/
theorem header_unique {name : String} {margin' gap rest' more more' : List Char}
    (hname : isIdentifier name.toList = true) (hmargin : margin.all Text.isSpaceOrTab = true)
    (hrest : '\n' ∉ rest) (hmargin' : margin'.all Text.isSpaceOrTab = true)
    (hgap : gap.all Text.isSpaceOrTab = true) (hrest' : '\n' ∉ rest')
    (h : margin' ++ "class".toList ++ gap ++ name.toList ++ rest' ++ ['\n'] ++ more' =
      headerOf margin name rest ++ more) : margin' = margin ∧ gap = [' '] ∧ rest' = rest := by
  obtain ⟨⟨x, tail, hx, hblank⟩, -⟩ := exists_of_isIdentifier hname
  have hline : ∀ {s : List Char}, '\n' ∉ s → s.all (· != '\n') = true := fun h =>
    List.all_eq_true.mpr fun c hc => bne_iff_ne.mpr fun heq => h (heq ▸ hc)
  simp only [headerOf, List.append_assoc] at h
  obtain ⟨rfl, hword⟩ := Text.span_unique hmargin' hmargin rfl rfl h
  have hbehind := List.append_cancel_left hword
  rw [hx] at hbehind
  have hstop : ∀ t, ((x :: tail) ++ t).head?.any Text.isSpaceOrTab = false := fun _ => hblank
  obtain ⟨rfl, hnames⟩ := Text.span_unique hgap (show [' '].all Text.isSpaceOrTab = true by decide)
    (hstop _) (hstop _) hbehind
  obtain ⟨rfl, -⟩ := Text.span_unique (hline hrest') (hline hrest) (by simp) (by simp)
    (List.append_cancel_left hnames)
  exact ⟨rfl, rfl, rfl⟩

/-- A header at the start of a line is found, with its margin and its clause. -/
theorem exists_header_end {name : String} {c : Cursor} {more : List Char}
    (hname : isIdentifier name.toList = true) (hmargin : margin.all Text.isSpaceOrTab = true)
    (hrest : '\n' ∉ rest) (hedge : rest.head?.any Text.isWord = false) (hgroups : c.groups = [])
    (hstart : StartsBreak c.before) (hafter : c.after = headerOf margin name rest ++ more) :
    ∃ last, ((classHeader name).ends c).head? = some last ∧ c.Takes (headerOf margin name rest) last ∧
      last.group? 1 = some margin ∧ (last.group? 2).getD [] = clauseOf rest := by
  obtain ⟨-, front, x, hx, hword⟩ := exists_of_isIdentifier hname
  have htake : (classHeader name).CanTake c.before ([] ++ (margin ++ ("class".toList ++ ([' '] ++
      (name.toList ++ ([] ++ ([] ++ (rest ++ ['\n'])))))))) more := by
    rw [classHeader_eq]
    refine canTake_seq (canTake_anchor ?_) (canTake_seq (canTake_group (canTake_star (by simpa using hmargin)))
      (canTake_seq canTake_literal (canTake_seq (canTake_plus (by decide) (by simp))
        (canTake_seq canTake_literal (canTake_seq (canTake_anchor ?_) (canTake_seq ?_
          (canTake_seq (canTake_star ?_) (canTake_one (by simp)))))))))
    · rintro c' hbefore -
      exact holds_lineStart (hbefore ▸ hstart)
    · rintro c' hbefore hnext
      have hleft : Pattern.startsWithWord false c'.before = true := by
        simp [hbefore, hx, Pattern.startsWithWord, mem_word, hword]
      have hright : Pattern.startsWithWord false c'.after = false := by
        rw [hnext, Pattern.startsWithWord]
        cases rest with
        | nil => rfl
        | cons y rest => exact hedge
      rw [Pattern.Anchor.holds, hleft, hright]
      rfl
    · -- The clause may be left out, so the rest of the line can be taken as it is.
      rintro c' - -
      exact ⟨c', by rw [ends_optional]; simp, .refl c'⟩
    · exact List.all_eq_true.mpr fun y hy => by
        rw [mem_lineSet, bne_iff_ne]
        rintro rfl
        exact hrest hy
  obtain ⟨c', hc', -⟩ := htake c rfl (by simpa [headerOf] using hafter)
  obtain ⟨last, hlast⟩ := Option.isSome_iff_exists.mp
    (List.isSome_head?.mpr (List.ne_nil_of_mem hc'))
  obtain ⟨margin', gap, rest', -, hmargin', hgap, hrest', htakes, hgroup₁, hgroup₂⟩ :=
    exists_header hlast hgroups
  obtain ⟨rfl, rfl, rfl⟩ := header_unique hname hmargin hrest hmargin' hgap hrest'
    (htakes.after.symm.trans hafter)
  exact ⟨last, hlast, htakes, hgroup₁, hgroup₂⟩

/-- The end of a class at the start of a line is found. -/
theorem exists_blockEnd_end {c : Cursor} {more : List Char} (hstart : StartsBreak c.before)
    (hafter : c.after = margin ++ "end".toList ++ '\n' :: more) :
    ∃ last, ((blockEnd margin).ends c).head? = some last := by
  have htake : (blockEnd margin).CanTake c.before ([] ++ (margin ++ ("end".toList ++ []))) ('\n' :: more) := by
    refine canTake_seq (canTake_anchor ?_) (canTake_seq canTake_literal (canTake_seq canTake_literal
      (canTake_anchor ?_)))
    · rintro c' hbefore -
      exact holds_lineStart (hbefore ▸ hstart)
    · rintro c' hbefore hnext
      rw [Pattern.Anchor.holds, hbefore, hnext]
      rfl
  obtain ⟨c', hc', -⟩ := htake c rfl (by simpa using hafter)
  exact Option.isSome_iff_exists.mp (List.isSome_head?.mpr (List.ne_nil_of_mem hc'))

/-- At the start of a line behind lines. -/
theorem startsBreak_append (lines : List (List Char)) (h : StartsBreak before) :
    StartsBreak ((fileOf lines).reverse ++ before) := by
  rcases List.eq_nil_or_concat' lines with rfl | ⟨lines, line, rfl⟩
  · exact h
  · exact .inr ⟨(fileOf lines ++ line).reverse ++ before, by simp [fileOf]⟩

/-- Lines that do not begin with `c` are no headers of classes. -/
theorem ends_classHeader_eq_nil (name : String) (h : (line.dropWhile Text.isSpaceOrTab).head? ≠ some 'c')
    (before rest : List Char) (pos : Nat) :
    (classHeader name).ends { before, after := line ++ '\n' :: rest, pos } = [] := by
  by_contra hne
  obtain ⟨last, hlast⟩ := Option.isSome_iff_exists.mp (List.isSome_head?.mpr hne)
  obtain ⟨margin, gap, rest', -, hmargin, -, -, htakes, -⟩ := exists_header hlast rfl
  have htext : line ++ '\n' :: rest = margin ++ ("class".toList ++ (gap ++ (name.toList ++ (rest' ++
      (['\n'] ++ last.after))))) := by
    simpa using htakes.after
  -- Behind its margin the line would begin with the word of the header.
  have hdrop := congrArg (List.dropWhile Text.isSpaceOrTab) htext
  rw [List.dropWhile_append_of_pos (List.all_eq_true.mp hmargin), List.dropWhile_append] at hdrop
  cases hline : line.dropWhile Text.isSpaceOrTab with
  | nil =>
    rw [hline] at hdrop
    exact absurd (congrArg List.head? hdrop) (by simp [Text.isSpaceOrTab])
  | cons x more =>
    rw [hline] at hdrop h
    obtain ⟨rfl, -⟩ : x = 'c' ∧ _ := List.cons_eq_cons.mp hdrop
    exact h rfl

/-- The header behind lines that are none. -/
theorem exists_opening {name : String} {front : List (List Char)} (more : List Char)
    (hname : isIdentifier name.toList = true) (hmargin : margin.all Text.isSpaceOrTab = true)
    (hrest : '\n' ∉ rest) (hedge : rest.head?.any Text.isWord = false)
    (hfront : ∀ line ∈ front, '\n' ∉ line ∧ (line.dropWhile Text.isSpaceOrTab).head? ≠ some 'c') :
    ∃ opening, (classHeader name).search (fileOf front ++ (headerOf margin name rest ++ more)) =
      some opening ∧ opening.group 1 = margin ∧ opening.group 2 = clauseOf rest ∧
      StartsBreak opening.last.before ∧ opening.last.after = more := by
  have he : AtLineStart (classHeader name) := atLineStart_seq _
  obtain ⟨last, hlast, htakes, hgroup₁, hgroup₂⟩ := exists_header_end
    (c := ⟨(fileOf front).reverse ++ [], headerOf margin name rest ++ more, 0 + (fileOf front).length, [],
      []⟩) hname hmargin hrest hedge rfl (startsBreak_append front (.inl rfl)) rfl
  have hfound := searchIn_of_head? hlast
  rw [← searchIn_fileOf he fun line hline =>
    ⟨(hfront line hline).1, ends_classHeader_eq_nil name (hfront line hline).2⟩] at hfound
  refine ⟨_, hfound, ?_, hgroup₂, ?_, (List.append_cancel_left htakes.after).symm⟩
  · rw [Match.group, hgroup₁, Option.getD_some]
  · rw [htakes.before, headerOf, List.reverse_concat, List.cons_append]
    exact .inr ⟨_, rfl⟩

/-- Lines that are empty or stand further to the right do not end a class. -/
theorem ends_blockEnd_eq_nil (h : line = [] ∨ ∃ x more, line = margin ++ x :: more ∧ x ≠ 'e')
    (hmargin : '\n' ∉ margin) (before rest : List Char) (pos : Nat) :
    (blockEnd margin).ends { before, after := line ++ '\n' :: rest, pos } = [] := by
  by_contra hne
  obtain ⟨last, hlast⟩ := Option.isSome_iff_exists.mp (List.isSome_head?.mpr hne)
  obtain ⟨-, after, hafter⟩ := exists_blockEnd hlast
  have htext : line ++ '\n' :: rest = margin ++ ("end".toList ++ after) := by simpa using hafter
  rcases h with rfl | ⟨x, more, rfl, hx⟩
  · cases margin with
    | nil => exact absurd (List.cons_eq_cons.mp htext).1 (by decide)
    | cons y margin =>
      obtain ⟨rfl, -⟩ := List.cons_eq_cons.mp htext
      exact hmargin List.mem_cons_self
  · rw [List.append_assoc] at htext
    exact hx (List.cons_eq_cons.mp (List.append_cancel_left htext)).1

/-- The end of a class behind lines that are none. -/
theorem exists_closing {c : Cursor} {body : List (List Char)} {after : List Char} (hstart : StartsBreak c.before)
    (hmargin : '\n' ∉ margin)
    (hbody : ∀ line ∈ body, '\n' ∉ line ∧
      (line = [] ∨ ∃ x more, line = margin ++ x :: more ∧ x ≠ 'e'))
    (hafter : c.after = fileOf body ++ (margin ++ "end".toList ++ '\n' :: after)) :
    ∃ closing, (blockEnd margin).searchFrom c = some closing ∧ c.textTo closing.first = fileOf body := by
  have he : AtLineStart (blockEnd margin) := atLineStart_seq _
  obtain ⟨last, hlast⟩ := exists_blockEnd_end
    (c := ⟨(fileOf body).reverse ++ c.before, margin ++ "end".toList ++ '\n' :: after,
      c.pos + (fileOf body).length, [], []⟩) (startsBreak_append body hstart) rfl
  have hfound := searchIn_of_head? hlast
  rw [← searchIn_fileOf he fun line hline =>
    ⟨(hbody line hline).1, ends_blockEnd_eq_nil (hbody line hline).2 hmargin⟩, ← hafter] at hfound
  exact ⟨_, hfound, Cursor.Takes.textTo ⟨hafter, rfl, rfl⟩⟩

/-- What is taken out of a file with one header and one end at the margin of the class. -/
theorem classIn?_fileOf {name : String} {front body : List (List Char)} (after : List Char)
    (hname : isIdentifier name.toList = true) (hmargin : margin.all Text.isSpaceOrTab = true)
    (hrest : '\n' ∉ rest) (hedge : rest.head?.any Text.isWord = false)
    (hfront : ∀ line ∈ front, '\n' ∉ line ∧ (line.dropWhile Text.isSpaceOrTab).head? ≠ some 'c')
    (hbody : ∀ line ∈ body, '\n' ∉ line ∧
      (line = [] ∨ ∃ x more, line = margin ++ x :: more ∧ x ≠ 'e')) :
    classIn? name (fileOf front ++ (headerOf margin name rest ++ (fileOf body ++
      (margin ++ "end".toList ++ '\n' :: after)))) =
      some ⟨String.ofList (Text.trim (clauseOf rest)),
        String.ofList (Text.trimNewlines (Text.dedent (fileOf body)))⟩ := by
  have hsolid : '\n' ∉ margin := fun hmem => absurd (List.all_eq_true.mp hmargin _ hmem) (by decide)
  obtain ⟨opening, hopening, hgroup₁, hgroup₂, hstart, hafter⟩ := exists_opening
    (fileOf body ++ (margin ++ "end".toList ++ '\n' :: after)) hname hmargin hrest hedge hfront
  obtain ⟨closing, hclosing, htext⟩ := exists_closing hstart hsolid hbody hafter
  simp only [classIn?, hopening, Option.bind_eq_bind, Option.bind_some, hgroup₁, hclosing, hgroup₂,
    htext, Option.pure_def]

/-! ### The lines of the new file -/

namespace Relocation

/-- The lines that open modules, from level `depth` on. -/
def openings (depth : Nat) : List String → List (List Char)
  | [] => []
  | m :: modules => (pad depth ++ "module " ++ m).toList :: openings (depth + 1) modules

theorem toList_pad (depth : Nat) : (pad depth).toList = List.replicate (2 * depth) ' ' :=
  String.toList_ofList

theorem isSpaceOrTab_pad (depth : Nat) : (pad depth).toList.all Text.isSpaceOrTab = true := by
  simp [toList_pad, Text.isSpaceOrTab]

/-- No line that opens a module is the header of a class. -/
theorem openings_spec {modules : List String} (h : ∀ m ∈ modules, isIdentifier m.toList = true)
    (depth : Nat) : ∀ line ∈ openings depth modules,
      '\n' ∉ line ∧ (line.dropWhile Text.isSpaceOrTab).head? ≠ some 'c' := by
  induction modules generalizing depth with
  | nil => simp [openings]
  | cons m modules ih =>
    rw [List.forall_mem_cons] at h
    rw [openings, List.forall_mem_cons]
    refine ⟨?_, ih h.2 (depth + 1)⟩
    have hm : '\n' ∉ m.toList := fun hmem => by
      have hword := (Bool.and_eq_true _ _ ▸ h.1).2
      exact absurd (List.all_eq_true.mp hword _ hmem) (by decide)
    have hline : (pad depth ++ "module " ++ m).toList =
        (pad depth).toList ++ ("module ".toList ++ m.toList) := by simp
    rw [hline, List.dropWhile_append_of_pos (List.all_eq_true.mp (isSpaceOrTab_pad depth))]
    refine ⟨?_, by simp [Text.isSpaceOrTab]⟩
    simp [toList_pad, hm]

/-- Nested lines: those that open the modules, the lines inside behind their margin, and others. -/
theorem exists_nest (inner modules : List String) (depth : Nat) : ∃ closings : List (List Char),
    (nest depth inner modules).map String.toList = openings depth modules ++
      inner.map (fun line => Text.inset (pad (depth + modules.length)).toList line.toList) ++ closings := by
  induction modules generalizing depth with
  | nil =>
    refine ⟨[], ?_⟩
    rw [nest, openings, List.nil_append, List.append_nil, List.map_map]
    refine List.map_congr_left fun line _ => ?_
    by_cases hline : line = ""
    · simp [hline]
    · have hne : line.toList ≠ [] := by simpa using hline
      simp [hline, Text.inset_of_ne _ hne]
  | cons m modules ih =>
    obtain ⟨closings, hnest⟩ := ih (depth + 1)
    refine ⟨closings ++ [(pad depth ++ "end").toList], ?_⟩
    rw [nest, openings, List.map_append, List.map_cons, hnest, List.length_cons, ← Nat.add_assoc,
      Nat.add_right_comm]
    simp

theorem join_concat {lines : List (List Char)} (hne : lines ≠ []) :
    Text.join ['\n'] lines ++ ['\n'] = fileOf lines := by
  induction lines with
  | nil => exact absurd rfl hne
  | cons line lines ih =>
    rw [fileOf_cons]
    by_cases hlast : lines = []
    · subst hlast
      rfl
    · rw [Text.join_cons _ _ hlast, List.append_assoc, ih hlast, List.append_assoc]
      rfl

theorem toList_ofLines {lines : List String} (hne : lines ≠ []) :
    (ofLines lines).toList = fileOf (lines.map String.toList) := by
  rw [← join_concat (by simpa using hne), ofLines, String.toList_append, Text.join_eq_intercalate]
  simp

/-- What stands behind the name of the class in its new file. -/
def behindName (c : ClassText) : List Char := if c.superclass.isEmpty then [] else ' ' :: c.superclass.toList

/-- The margin of the class in its new file. -/
def newMargin (r : Relocation) : List Char := (pad r.newModules.length).toList

/-- The lines of the body in the new file. -/
theorem map_bodyLines {c : ClassText} {s : List Char}
    (hbody : c.body.toList = Text.trimNewlines (Text.dedent s)) (hne : c.body.toList ≠ [])
    (hblank : ∀ x ∈ c.body.toList, Text.isBlank x = true → x = ' ' ∨ x = '\t' ∨ x = '\n') :
    (bodyLines c).map String.toList =
      (Text.splitChar '\n' c.body.toList).map (Text.inset "  ".toList) := by
  have hflush := Text.areFlush_trimNewlines (Text.areFlush_dedent s)
  rw [← hbody] at hflush
  -- The only other blank is the line break, and lines hold none.
  have hspaces : ∀ line ∈ Text.splitChar '\n' c.body.toList, ∀ x ∈ line, Text.isBlank x = true →
      Text.isSpaceOrTab x = true := by
    intro line hline x hx hblankx
    have hmem : x ∈ c.body.toList := by
      rw [← Text.join_splitChar '\n' c.body.toList]
      exact Text.mem_join_of_mem _ hline hx
    rcases hblank x hmem hblankx with rfl | rfl | rfl
    · decide
    · decide
    · exact absurd hx (Text.notMem_of_mem_splitChar hline)
  have hindent : Text.indent "  ".toList c.body.toList =
      Text.join ['\n'] ((Text.splitChar '\n' c.body.toList).map (Text.inset "  ".toList)) := by
    rw [← Text.indent_join hflush.solid hspaces, Text.join_splitChar]
  rw [bodyLines, if_neg (by simpa using hne), hindent, Text.splitChar_join, List.map_map]
  · exact (List.map_congr_left fun line _ => String.toList_ofList).trans (List.map_id _)
  · simp [Text.splitChar_ne_nil]
  · intro line hline
    obtain ⟨piece, hpiece, rfl⟩ := List.mem_map.mp hline
    exact Text.notMem_inset (by decide) (Text.notMem_of_mem_splitChar hpiece)

/-- The new file, cut where the class is. -/
theorem toList_movedClass (r : Relocation) (c : ClassText) : ∃ closings : List (List Char),
    (r.movedClass c).toList = fileOf (openings 0 r.newModules) ++
      (headerOf (newMargin r) r.newName (behindName c) ++
        (fileOf (((bodyLines c).map String.toList).map (Text.inset (newMargin r))) ++
          (newMargin r ++ "end".toList ++ '\n' :: fileOf closings))) := by
  obtain ⟨closings, hnest⟩ := exists_nest (r.newHeader c :: bodyLines c ++ ["end"]) r.newModules 0
  have hne : nest 0 (r.newHeader c :: bodyLines c ++ ["end"]) r.newModules ≠ [] := by
    cases r.newModules with
    | nil => simp [nest]
    | cons m modules => simp [nest]
  -- The innermost part is the header, the body and the word that ends it, behind the margin.
  have hheader : (r.newHeader c).toList = "class".toList ++ [' '] ++ r.newName.toList ++ behindName c := by
    unfold newHeader behindName
    split <;> simp
  have hmargin : (pad (0 + r.newModules.length)).toList = newMargin r := by rw [Nat.zero_add, newMargin]
  have hinner : (r.newHeader c :: bodyLines c ++ ["end"]).map
      (fun line => Text.inset (newMargin r) line.toList) =
      (newMargin r ++ (r.newHeader c).toList) ::
        (((bodyLines c).map String.toList).map (Text.inset (newMargin r)) ++ [newMargin r ++ "end".toList]) := by
    have hheaderNe : (r.newHeader c).toList ≠ [] := by simp [hheader]
    have hendNe : "end".toList ≠ [] := by decide
    rw [List.cons_append, List.map_cons, List.map_append, List.map_singleton, List.map_map,
      Text.inset_of_ne _ hheaderNe, Text.inset_of_ne _ hendNe]
    rfl
  refine ⟨closings, ?_⟩
  rw [movedClass_eq, toList_ofLines hne, hnest, hmargin, hinner, fileOf_append, fileOf_append, fileOf_cons,
    fileOf_append, fileOf_cons, hheader]
  simp only [headerOf, fileOf, List.flatMap_nil, List.append_assoc, List.cons_append, List.nil_append]

/-- The clause of a superclass is found again behind a space. -/
theorem trim_clauseOf_behindName {c : ClassText} {rest : List Char}
    (hsuperclass : c.superclass.toList = Text.trim (clauseOf rest)) :
    '\n' ∉ behindName c ∧ (behindName c).head?.any Text.isWord = false ∧
      Text.trim (clauseOf (behindName c)) = c.superclass.toList := by
  unfold behindName
  by_cases hnone : clauseOf rest = []
  · rw [hnone] at hsuperclass
    have hempty : c.superclass.isEmpty = true := by simpa using hsuperclass
    rw [if_pos hempty, hsuperclass]
    exact ⟨by simp, rfl, rfl⟩
  · obtain ⟨lead, gap, constant, tail, -, hclause, hlead, hgap, hconstant, hne⟩ :=
      exists_parts_of_clauseOf hnone
    rw [hclause, trim_clause hlead hconstant hne] at hsuperclass
    -- The superclass is not empty, since the clause names a constant.
    have hfull : c.superclass.isEmpty = false := by
      rw [← Bool.not_eq_true, String.isEmpty_iff]
      intro hempty
      simp [hempty] at hsuperclass
    obtain ⟨x, more, rfl⟩ := List.exists_cons_of_ne_nil hne
    have hall := List.all_eq_true.mp hconstant
    have hx : Text.isSpaceOrTab x = false := by
      rw [← Bool.not_eq_true]
      intro hspace
      have hx := hall x List.mem_cons_self
      rw [not_isConstantChar_of_isSpaceOrTab hspace] at hx
      cases hx
    rw [hfull, if_neg Bool.false_ne_true, hsuperclass]
    refine ⟨?_, rfl, ?_⟩
    · have hgapSolid : '\n' ∉ gap := fun hmem => absurd (List.all_eq_true.mp hgap _ hmem) (by decide)
      have hmoreSolid : '\n' ∉ x :: more := fun hmem => absurd (hall _ hmem) (by decide)
      rw [List.mem_cons, List.mem_cons, List.mem_append]
      simp only [hgapSolid, hmoreSolid, or_false]
      decide
    -- Behind a single blank the clause is read as far as in the old header.
    · have hclause' := clauseOf_of_blank (show [' '].all Text.isSpaceOrTab = true by decide) hgap hx more
      rw [if_pos (hall x List.mem_cons_self), List.takeWhile_eq_self_iff.mpr hall] at hclause'
      rw [← List.singleton_append, hclause', trim_clause (by decide) hconstant hne]

theorem newName_mem_segments (r : Relocation) : r.newName ∈ segments r.newConstant := by
  have hne : segments r.newConstant ≠ [] := by simp [segments, Text.splitOn_ne_nil]
  rw [newName, lastName, List.getLast?_eq_some_getLast hne, Option.getD_some]
  exact List.getLast_mem hne

/-- The lines of the body stand further to the right than the class, and taking off their margin leaves
the body. -/
theorem newBody_spec (r : Relocation) {c : ClassText} {s : List Char}
    (hbody : c.body.toList = Text.trimNewlines (Text.dedent s))
    (hblank : ∀ x ∈ c.body.toList, Text.isBlank x = true → x = ' ' ∨ x = '\t' ∨ x = '\n') :
    (∀ line ∈ ((bodyLines c).map String.toList).map (Text.inset (newMargin r)), '\n' ∉ line ∧
      (line = [] ∨ ∃ x more, line = newMargin r ++ x :: more ∧ x ≠ 'e')) ∧
    Text.trimNewlines (Text.dedent
      (fileOf (((bodyLines c).map String.toList).map (Text.inset (newMargin r))))) = c.body.toList := by
  have hmargin : (newMargin r).all Text.isSpaceOrTab = true := isSpaceOrTab_pad _
  by_cases hne : c.body.toList = []
  · have hnone : bodyLines c = [] := by
      rw [bodyLines, if_pos (by simpa using hne)]
    rw [hnone, hne]
    exact ⟨by simp, rfl⟩
  -- Each line goes in by the margin and two blanks, so that no line but an empty one begins earlier.
  · have hlines : ((bodyLines c).map String.toList).map (Text.inset (newMargin r)) =
        (Text.splitChar '\n' c.body.toList).map (Text.inset (newMargin r ++ "  ".toList)) := by
      rw [map_bodyLines hbody hne hblank, List.map_map]
      exact List.map_congr_left fun line _ => Text.inset_inset _ _ _
    have hwide : (newMargin r ++ "  ".toList).all Text.isSpaceOrTab = true := by
      rw [List.all_append, hmargin]
      rfl
    rw [hlines]
    constructor
    · intro line hline
      obtain ⟨piece, hpiece, rfl⟩ := List.mem_map.mp hline
      refine ⟨Text.notMem_inset hwide (Text.notMem_of_mem_splitChar hpiece), ?_⟩
      by_cases hempty : piece = []
      · exact .inl (by rw [hempty, Text.inset_nil])
      · refine .inr ⟨' ', ' ' :: piece, ?_, by decide⟩
        rw [Text.inset_of_ne _ hempty, List.append_assoc]
        rfl
    · rw [← join_concat (by simp [Text.splitChar_ne_nil]), hbody]
      exact Text.trimNewlines_dedent_inset s hwide

end Relocation

/-- Taking the class out of its new file undoes the move. -/
theorem classIn?_movedClass (r : Relocation) {text : List Char} {c : ClassText}
    (hnames : ∀ segment ∈ Relocation.segments r.newConstant, isIdentifier segment.toList = true)
    (hfound : classIn? r.oldName text = some c)
    (hblank : ∀ x ∈ c.body.toList, Text.isBlank x = true → x = ' ' ∨ x = '\t' ∨ x = '\n') :
    classIn? r.newName (r.movedClass c).toList = some c := by
  obtain ⟨cut, hsuperclass, hbody⟩ := exists_cut_of_classIn? hfound
  obtain ⟨hsolid, hedge, hclause⟩ := Relocation.trim_clauseOf_behindName hsuperclass
  obtain ⟨hlines, htext⟩ := Relocation.newBody_spec r hbody hblank
  obtain ⟨closings, hmoved⟩ := Relocation.toList_movedClass r c
  have hmoduleNames : ∀ m ∈ r.newModules, isIdentifier m.toList = true := fun m hm =>
    hnames m ((List.dropLast_sublist _).subset hm)
  have hmodules := Relocation.openings_spec hmoduleNames 0
  have hmargin : (Relocation.newMargin r).all Text.isSpaceOrTab = true := Relocation.isSpaceOrTab_pad _
  rw [hmoved, classIn?_fileOf (fileOf closings) (hnames _ r.newName_mem_segments) hmargin hsolid hedge
    hmodules hlines, hclause, htext]
  simp

/-- A class with a superclass, an empty line, tabs and an `end` inside. -/
def syncStock : ClassText := ⟨"< Base", "def run\n\tgo\n\nend"⟩

/-- A move into two modules. -/
def syncStockMove : Relocation :=
  ⟨"app/jobs/inventory/sync_stock_job.rb", "app/jobs/sidekiq/stock/sync.rb", "Inventory::SyncStockJob",
    "Sidekiq::Stock::Sync", false⟩

theorem classIn?_movedClass_syncStock :
    (∀ segment ∈ Relocation.segments syncStockMove.newConstant, isIdentifier segment.toList = true) ∧
    classIn? syncStockMove.oldName
      "class SyncStockJob < Base\n\n\tdef run\n\t\tgo\n\n\tend\nend\n".toList = some syncStock ∧
    classIn? syncStockMove.newName (syncStockMove.movedClass syncStock).toList = some syncStock := by
  have hnames : ∀ segment ∈ Relocation.segments syncStockMove.newConstant,
      isIdentifier segment.toList = true := by
    decide
  have hfound : classIn? syncStockMove.oldName
      "class SyncStockJob < Base\n\n\tdef run\n\t\tgo\n\n\tend\nend\n".toList = some syncStock := by
    decide
  have hblank : (syncStock.body.toList.all fun x =>
      !Text.isBlank x || x == ' ' || x == '\t' || x == '\n') = true := by
    decide
  refine ⟨hnames, hfound, classIn?_movedClass syncStockMove hnames hfound fun x hx hblankx => ?_⟩
  simpa [hblankx, or_assoc] using List.all_eq_true.mp hblank x hx

end RailsUpgrade
