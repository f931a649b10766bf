import RailsUpgrade.Proofs.Accounting
import RailsUpgrade.Proofs.ChangedFiles
import RailsUpgrade.Proofs.FindingTable
import RailsUpgrade.Proofs.JsonText
import RailsUpgrade.Proofs.Path

/-!
# `RailsUpgrade.Proofs.Reports`: reports that agree with the outcome

A report asks for every finding whether an equal one is among those that are left. An outcome leaves
findings by their file and their source, so two findings that are equal are left together, and what
the three reports say is what the outcome says. On a terminal the marks are only seen in a window of
98 columns or more, since a narrower one cuts the table off:

* `Json.entries?`, `Json.memberLines`: the findings read off the report for programs;
* `memberLines_json`: this report, line by line;
* `markdown_eq`, `filter_isMarked_markdown`: the report for documents, and its lines that end in a mark;
* `rowsOf_findingColumns`: the rows of the table on a terminal;
* `Outcome.ReportedAs`: the reports list the findings with the same marks, and those that are marked
  as open are the ones that are left;
* `upgrade_reportedAs`: the outcome of an upgrade is reported so.
-/

set_option autoImplicit false

namespace RailsUpgrade

open Text (CodePoint Coded)

/-! ### Reading the report for programs -/

namespace Json

/-- The member of an object under a key. -/
def member? (key : String) : Json → Option Json
  | .object members => members.lookup key
  | _ => none

/-- The text that a value is, if it is one of characters. -/
def text? : Json → Option String
  | .text s => (Text.chars? s).map String.ofList
  | _ => none

/-- The truth value that a value is. -/
def bool? : Json → Option Bool
  | .bool b => some b
  | _ => none

/-- The items of a list. -/
def items? : Json → Option (List Json)
  | .list items => some items
  | _ => none

/-- The finding that a value tells of, and whether it was fixed. -/
def finding? (j : Json) : Option (Finding × Bool) := do
  let file ← (← j.member? "file").text?
  let message ← (← j.member? "message").text?
  let source ← (← j.member? "pattern").text?
  let fixed ← (← j.member? "fixed").bool?
  return (⟨file, message, source⟩, fixed)

/-- The findings that a report tells of, and whether they were fixed. -/
def entries? (report : Json) : Option (List (Finding × Bool)) := do
  (← (← report.member? "issues").items?).mapM finding?

/-! ### The lines of the report for programs -/

theorem newline_notMem_hexDigits (width n : Nat) : '\n' ∉ Text.hexDigits width n := by
  have hdigit : ∀ n < 16, '\n' ≠ Text.hexDigit n := by decide
  induction width generalizing n with
  | zero => simp [Text.hexDigits]
  | succ width ih =>
    rw [Text.hexDigits, List.mem_append, List.mem_singleton, not_or]
    exact ⟨ih _, hdigit _ (Nat.mod_lt _ (by decide))⟩

theorem Spells.newline_notMem {p : CodePoint} {s : List Char} (h : Spells p s) : '\n' ∉ s := by
  have hunit : ∀ n, '\n' ∉ Json.unit n := fun n => by
    simp [Json.unit, newline_notMem_hexDigits]
  cases h with
  | @escape c mark h =>
    have hescapes : ∀ e ∈ escapes, '\n' ≠ e.2 := by decide
    simp [hescapes _ h]
  | @plain c _ _ hleast _ =>
    have hne : '\n' ≠ c := by
      rintro rfl
      exact absurd hleast (by decide)
    simp [hne]
  | unit => exact hunit _
  | pair => simp [hunit]

/-- A quoted text stays on its line. -/
theorem newline_notMem_quoted {T : Type} [Coded T] (s : T) : '\n' ∉ quoted s := by
  simp [quoted, fun p => (spells_quotedPoint p).newline_notMem]

@[simp] theorem write_ofText {T : Type} [Coded T] (level : Nat) (s : T) :
    write level (ofText s) = quoted s := by
  rw [ofText, write]
  rfl

/-- The margin of the lines about a finding. -/
def memberMargin : List Char := List.replicate 6 ' '

/-- The lines of a text that stand under the margin of findings. -/
def memberLines (s : List Char) : List (List Char) :=
  (Text.splitChar '\n' s).filter memberMargin.isPrefixOf

/-- The line of a finding that tells one thing about it. -/
def memberLine (key : String) (value : Json) : List Char :=
  memberMargin ++ quoted key ++ ": ".toList ++ write 3 value

/-- The lines about a finding. -/
def entryLines (e : Finding × Bool) : List (List Char) :=
  [memberLine "file" (ofText e.1.file) ++ [','], memberLine "message" (ofText e.1.message) ++ [','],
    memberLine "pattern" (ofText e.1.source) ++ [','], memberLine "fixed" (.bool e.2)]

theorem memberLines_append_cons (s t : List Char) :
    memberLines (s ++ '\n' :: t) = memberLines s ++ memberLines t := by
  rw [memberLines, Text.splitChar_append_cons, List.filter_append]
  rfl

theorem memberLines_of_notMem {line : List Char} (h : '\n' ∉ line) :
    memberLines line = if memberMargin.isPrefixOf line then [line] else [] := by
  rw [memberLines, Text.splitChar_of_notMem h, List.filter_cons, List.filter_nil]

/-- Lines under the margin are told one after the other. -/
theorem memberLines_flatMap {lines : List (List Char)}
    (h : ∀ line ∈ lines, '\n' ∉ line ∧ memberMargin.isPrefixOf line = true) (s t : List Char) :
    memberLines (s ++ lines.flatMap ('\n' :: ·) ++ '\n' :: t) =
      memberLines s ++ lines ++ memberLines t := by
  induction lines generalizing s with
  | nil => simp [memberLines_append_cons]
  | cons line lines ih =>
    obtain ⟨⟨hline, hmargin⟩, hlines⟩ := List.forall_mem_cons.mp h
    have hrest := ih hlines line
    rw [memberLines_of_notMem hline, if_pos hmargin] at hrest
    rw [List.flatMap_cons, List.cons_append, List.append_assoc, List.cons_append,
      memberLines_append_cons, hrest]
    simp

theorem mem_entryLines {e : Finding × Bool} {line : List Char} (h : line ∈ entryLines e) :
    '\n' ∉ line ∧ memberMargin.isPrefixOf line = true := by
  have hquoted : ∀ s : String, '\n' ∉ quoted s := newline_notMem_quoted
  have hbool : ∀ b : Bool, '\n' ∉ (if b = true then "true" else "false").toList := by decide
  simp only [entryLines, List.mem_cons, List.not_mem_nil, or_false] at h
  obtain rfl | rfl | rfl | rfl := h
  all_goals
    constructor
    · simp [memberLine, memberMargin, write, hquoted, hbool]
    · simp [memberLine, memberMargin, List.append_assoc]

/-- Only the line that says so tells that a finding is not fixed. -/
theorem count_entryLines (entries : List (Finding × Bool)) :
    (entries.flatMap entryLines).count (memberLine "fixed" (.bool false)) =
      entries.countP (!·.2) := by
  have hcomma : ∀ s : List Char, s ++ [','] ≠ memberLine "fixed" (.bool false) := by
    intro s h
    have hlast := congrArg List.getLast? h
    rw [List.getLast?_concat] at hlast
    exact absurd hlast (by decide)
  induction entries with
  | nil => rfl
  | cons e entries ih =>
    rw [List.flatMap_cons, List.count_append, ih, List.countP_cons, Nat.add_comm]
    congr 1
    obtain ⟨f, fixed⟩ := e
    cases fixed
    · simp [entryLines, hcomma]
    · have hne : memberLine "fixed" (.bool true) ≠ memberLine "fixed" (.bool false) := by decide
      simp [entryLines, hcomma, hne]

end Json

namespace Outcome

open Json

/-- What a finding is written as, before what comes behind it. -/
theorem memberLines_findingJson (o : Outcome) (f : Finding) (s : List Char) :
    memberLines (List.replicate 4 ' ' ++ write 2 (o.findingJson false f) ++ s) =
      entryLines (f, o.isFixed f) ++ memberLines ("    \x7d".toList ++ s) := by
  have hwritten : List.replicate 4 ' ' ++ write 2 (o.findingJson false f) ++ s =
      "    \x7b".toList ++ (entryLines (f, o.isFixed f)).flatMap ('\n' :: ·)
        ++ '\n' :: ("    \x7d".toList ++ s) := by
    simp [findingJson, write, writeMembers, entryLines, memberLine, memberMargin, newLine]
  rw [hwritten, memberLines_flatMap fun _ => mem_entryLines]
  rfl

/-- The findings after the first are written one after the other. -/
theorem memberLines_writeItems (o : Outcome) (findings : List Finding) (s : List Char) :
    memberLines ("    \x7d".toList ++ writeItems 2 (findings.map (o.findingJson false)) ++ '\n' :: s) =
      (findings.flatMap fun f => entryLines (f, o.isFixed f)) ++ memberLines s := by
  induction findings with
  | nil =>
    rw [List.map_nil, writeItems, List.append_nil, memberLines_append_cons]
    rfl
  | cons f findings ih =>
    have hwritten : "    \x7d".toList ++ writeItems 2 ((f :: findings).map (o.findingJson false))
          ++ '\n' :: s =
        "    \x7d,".toList ++ '\n' :: (List.replicate 4 ' ' ++ write 2 (o.findingJson false f)
          ++ (writeItems 2 (findings.map (o.findingJson false)) ++ '\n' :: s)) := by
      simp [writeItems, newLine]
    rw [hwritten, memberLines_append_cons, memberLines_findingJson, ← List.append_assoc _ _ ('\n' :: s),
      ih, List.flatMap_cons, List.append_assoc]
    rfl

/-- A path in the list of files does not stand under the margin of findings. -/
theorem memberLines_path (path : String) (more : List Char) (hmore : '\n' ∉ more) :
    memberLines (List.replicate 4 ' ' ++ quoted path ++ more) = [] := by
  have hline : '\n' ∉ List.replicate 4 ' ' ++ quoted path ++ more := by
    simp [newline_notMem_quoted, hmore]
  rw [memberLines_of_notMem hline]
  rfl

/-- The paths after the first are written one after the other. -/
theorem memberLines_texts (paths : List String) {first : List Char}
    (hfirst : ∀ more, '\n' ∉ more → memberLines (first ++ more) = []) (s : List Char) :
    memberLines (first ++ writeItems 2 (paths.map ofText) ++ '\n' :: s) = memberLines s := by
  induction paths generalizing first with
  | nil =>
    have hnone := hfirst [] (by simp)
    rw [List.append_nil] at hnone
    rw [List.map_nil, writeItems, List.append_nil, memberLines_append_cons, hnone, List.nil_append]
  | cons path paths ih =>
    have hwritten : first ++ writeItems 2 ((path :: paths).map ofText) ++ '\n' :: s =
        (first ++ [',']) ++ '\n' :: ((List.replicate 4 ' ' ++ quoted path)
          ++ writeItems 2 (paths.map ofText) ++ '\n' :: s) := by
      simp [writeItems, newLine]
    rw [hwritten, memberLines_append_cons, hfirst [','] (by decide), List.nil_append,
      ih (memberLines_path path)]

/-- The list of files has nothing under the margin of findings. -/
theorem memberLines_changed (paths : List String) (s : List Char) :
    memberLines ("  \x22changed_files\x22: ".toList ++ write 1 (.list (paths.map ofText))
      ++ '\n' :: s) = memberLines s := by
  cases paths with
  | nil => exact memberLines_append_cons "  \x22changed_files\x22: []".toList s
  | cons path paths =>
    have hwritten : "  \x22changed_files\x22: ".toList
          ++ write 1 (.list ((path :: paths).map ofText)) ++ '\n' :: s =
        "  \x22changed_files\x22: [".toList ++ '\n' :: ((List.replicate 4 ' ' ++ quoted path)
          ++ writeItems 2 (paths.map ofText) ++ '\n' :: ("  ]".toList ++ '\n' :: s)) := by
      simp [write, newLine]
    rw [hwritten, memberLines_append_cons, memberLines_texts paths (memberLines_path path),
      memberLines_append_cons]
    rfl

/-- The list of findings has the lines of each under the margin. -/
theorem memberLines_issues (o : Outcome) (findings : List Finding) (s : List Char) :
    memberLines ("  \x22issues\x22: ".toList
        ++ write 1 (.list (findings.map (o.findingJson false))) ++ ',' :: '\n' :: s) =
      (findings.flatMap fun f => entryLines (f, o.isFixed f)) ++ memberLines s := by
  cases findings with
  | nil => exact memberLines_append_cons "  \x22issues\x22: [],".toList s
  | cons f findings =>
    have hwritten : "  \x22issues\x22: ".toList
          ++ write 1 (.list ((f :: findings).map (o.findingJson false))) ++ ',' :: '\n' :: s =
        "  \x22issues\x22: [".toList ++ '\n' :: (List.replicate 4 ' '
          ++ write 2 (o.findingJson false f)
          ++ (writeItems 2 (findings.map (o.findingJson false))
            ++ '\n' :: ("  ],".toList ++ '\n' :: s))) := by
      simp [write, newLine]
    rw [hwritten, memberLines_append_cons, memberLines_findingJson, ← List.append_assoc "    \x7d".toList,
      memberLines_writeItems, memberLines_append_cons, List.flatMap_cons, List.append_assoc]
    rfl

/-- The report for programs tells of the findings, each on its lines, in their order. -/
theorem memberLines_json (o : Outcome) :
    memberLines (o.json false).toList = o.findings.flatMap fun f => entryLines (f, o.isFixed f) := by
  have hwritten : (o.json false).toList =
      ['\x7b'] ++ '\n' :: (("  \x22summary\x22: ".toList ++ quoted (o.summary false) ++ [','])
        ++ '\n' :: ("  \x22issues\x22: ".toList
          ++ write 1 (.list (o.findings.map (o.findingJson false)))
          ++ ',' :: '\n' :: ("  \x22changed_files\x22: ".toList
            ++ write 1 (.list (o.changed.map ofText)) ++ '\n' :: ['\x7d']))) := by
    have hkeys : ∀ key ∈ ["summary", "issues", "changed_files"],
        quoted key = '\x22' :: key.toList ++ ['\x22'] := by decide
    simp only [List.forall_mem_cons] at hkeys
    obtain ⟨hsummary, hissues, hchanged, -⟩ := hkeys
    simp [json, toJson, Json.toText, write, writeMembers, newLine, hsummary, hissues, hchanged]
  have hsummary : '\n' ∉ "  \x22summary\x22: ".toList ++ quoted (o.summary false) ++ [','] := by
    simp [newline_notMem_quoted]
  rw [hwritten, memberLines_append_cons, memberLines_append_cons, memberLines_issues,
    memberLines_changed, memberLines_of_notMem hsummary]
  show _ ++ [] = _
  simp

/-! ### The report for documents -/

/-- A finding and its mark as a line of the report for documents. -/
def entryLine (e : Finding × Bool) : String :=
  "- `" ++ e.1.file ++ "`: " ++ e.1.message ++ (if e.2 then " (fixed)" else " (open)")

/-- The lines above those about findings. -/
def documentHead (o : Outcome) : List String :=
  ["# upshift Upgrade", "", "## Summary", "", o.summary false, "", "## Issues", ""]

/-- The lines below them. -/
def documentTail (o : Outcome) : List String :=
  if o.changed.isEmpty then []
  else ["", "## Updated files", ""] ++ o.changed.map fun path => "- `" ++ path ++ "`"

/-- Whether a line ends in the mark of a finding. -/
def isMarked (line : List Char) : Bool :=
  " (open)".toList.isSuffixOf line || " (fixed)".toList.isSuffixOf line

/-- The report for documents has a line for every finding, in order, and other lines around them. -/
theorem markdown_eq {o : Outcome} (hne : o.findings ≠ []) : o.markdown false =
    String.intercalate "\n" (o.documentHead ++ (o.findings.map fun f => entryLine (f, o.isFixed f))
      ++ o.documentTail ++ [""]) := by
  have hsome : o.findings.isEmpty = false := by simpa using hne
  have hitems : o.findings.map (o.findingLine false) =
      o.findings.map fun f => entryLine (f, o.isFixed f) := rfl
  rw [markdown, markdownLines, hsome, ← hitems, documentHead, documentTail]
  by_cases hchanged : o.changed.isEmpty = true
  · simp [hchanged, title]
  · simp [hchanged, title]

theorem newline_notMem_toDigits (n : Nat) : '\n' ∉ Nat.toDigits 10 n := by
  rw [← Text.toList_toString]
  exact fun h => absurd (Text.isDigit_of_mem_toString h) (by decide)

theorem newline_notMem_counted (n : Nat) {noun : String} (hnoun : '\n' ∉ noun.toList) :
    '\n' ∉ (counted n noun).toList := by
  have hplural : '\n' ∉ (if n = 1 then "" else "s").toList := by split <;> decide
  simp [counted, newline_notMem_toDigits, hnoun, hplural]

/-- The sentence about a run stays on its line. -/
theorem newline_notMem_summary (o : Outcome) : '\n' ∉ (o.summary false).toList := by
  rw [summary]
  split
  · decide
  · simp [newline_notMem_counted, newline_notMem_toDigits]

/-- A mark closes a bracket, which no other line of the report ends in. -/
theorem getLast?_of_isMarked {line : List Char} (h : isMarked line = true) :
    line.getLast? = some ')' := by
  rw [isMarked, Bool.or_eq_true, List.isSuffixOf_iff_suffix, List.isSuffixOf_iff_suffix] at h
  rcases h with ⟨lead, rfl⟩ | ⟨lead, rfl⟩
  · exact List.getLast?_append_of_ne_nil _ (by decide)
  · exact List.getLast?_append_of_ne_nil _ (by decide)

theorem isMarked_entryLine (e : Finding × Bool) : isMarked (entryLine e).toList = true := by
  obtain ⟨f, mark⟩ := e
  rw [isMarked, Bool.or_eq_true, List.isSuffixOf_iff_suffix, List.isSuffixOf_iff_suffix, entryLine,
    String.toList_append]
  cases mark
  · exact .inl (List.suffix_append _ _)
  · exact .inr (List.suffix_append _ _)

/-- The lines around those about findings have no mark, and stay on their lines. -/
theorem documentLine_props {o : Outcome} (hne : o.findings ≠ [])
    (hchanged : ∀ path ∈ o.changed, '\n' ∉ path.toList) {line : String}
    (h : line ∈ o.documentHead ∨ line ∈ o.documentTail ++ [""]) :
    '\n' ∉ line.toList ∧ isMarked line.toList = false := by
  suffices hline : '\n' ∉ line.toList ∧ line.toList.getLast? ≠ some ')' from
    ⟨hline.1, Bool.eq_false_iff.mpr fun hmark => hline.2 (getLast?_of_isMarked hmark)⟩
  have hfixed : ∀ line ∈ ["# upshift Upgrade", "", "## Summary", "## Issues", "## Updated files"],
      '\n' ∉ line.toList ∧ line.toList.getLast? ≠ some ')' := by decide
  have hsummary : (o.summary false).toList.getLast? ≠ some ')' := by
    rw [summary, if_neg (by simpa using hne), if_neg Bool.false_ne_true, String.toList_append,
      List.getLast?_append_of_ne_nil _ (by decide)]
    decide
  rcases h with h | h
  · simp only [documentHead, List.mem_cons, List.not_mem_nil, or_false] at h
    rcases h with rfl | rfl | rfl | rfl | rfl | rfl | rfl | rfl
    case inr.inr.inr.inr.inl => exact ⟨newline_notMem_summary o, hsummary⟩
    all_goals exact hfixed _ (by simp)
  · rw [documentTail] at h
    split at h
    · obtain rfl : line = "" := by simpa using h
      exact hfixed _ (by simp)
    · simp only [List.cons_append, List.nil_append, List.mem_cons, List.mem_append, List.mem_map,
        List.not_mem_nil, or_false] at h
      rcases h with rfl | rfl | rfl | ⟨path, hpath, rfl⟩ | rfl
      case inr.inr.inr.inl =>
        refine ⟨by simp [hchanged path hpath], ?_⟩
        rw [String.toList_append, List.getLast?_append_of_ne_nil _ (by decide)]
        decide
      all_goals exact hfixed _ (by simp)

/-- The lines of the report that end in a mark are those about findings, if none of these has a line
feed in it. -/
theorem filter_isMarked_markdown {o : Outcome} (hne : o.findings ≠ [])
    (hfindings : ∀ f ∈ o.findings, '\n' ∉ f.file.toList ∧ '\n' ∉ f.message.toList)
    (hchanged : ∀ path ∈ o.changed, '\n' ∉ path.toList) :
    (Text.splitChar '\n' (o.markdown false).toList).filter isMarked =
      o.findings.map fun f => (entryLine (f, o.isFixed f)).toList := by
  have hentry : ∀ f ∈ o.findings, '\n' ∉ (entryLine (f, o.isFixed f)).toList := by
    intro f hf
    have hmark : '\n' ∉ (if o.isFixed f = true then " (fixed)" else " (open)").toList := by
      split <;> decide
    simp [entryLine, hfindings f hf, hmark]
  have hhead := fun line (h : line ∈ o.documentHead) => documentLine_props hne hchanged (.inl h)
  have htail := fun line (h : line ∈ o.documentTail ++ [""]) =>
    documentLine_props hne hchanged (.inr h)
  have hsolid : ∀ line ∈ (o.documentHead ++ (o.findings.map fun f => entryLine (f, o.isFixed f))
      ++ o.documentTail ++ [""]).map String.toList, '\n' ∉ line := by
    intro line hline
    obtain ⟨text, htext, rfl⟩ := List.mem_map.mp hline
    rw [List.append_assoc, List.append_assoc, List.mem_append, List.mem_append, List.mem_map] at htext
    rcases htext with h | ⟨f, hf, rfl⟩ | h
    · exact (hhead _ h).1
    · exact hentry f hf
    · exact (htail _ h).1
  have hnone : ∀ lines : List String, (∀ line ∈ lines, isMarked line.toList = false) →
      (lines.map String.toList).filter isMarked = [] := by
    intro lines hlines
    rw [List.filter_eq_nil_iff]
    intro line hline
    obtain ⟨text, htext, rfl⟩ := List.mem_map.mp hline
    simp [hlines text htext]
  have hall : ((o.findings.map fun f => entryLine (f, o.isFixed f)).map String.toList).filter isMarked =
      o.findings.map fun f => (entryLine (f, o.isFixed f)).toList := by
    rw [List.map_map, List.filter_eq_self.mpr]
    · rfl
    · intro line hline
      obtain ⟨f, -, rfl⟩ := List.mem_map.mp hline
      exact isMarked_entryLine _
  rw [markdown_eq hne, String.toList_intercalate,
    show "\n".toList = ['\n'] from rfl, ← Text.join_eq_intercalate,
    Text.splitChar_join (by simp) hsolid, List.append_assoc, List.append_assoc, List.map_append,
    List.map_append, List.filter_append, List.filter_append, hall,
    hnone _ fun line h => (hhead line h).2, hnone _ fun line h => (htail line h).2, List.nil_append,
    List.append_nil]

/-! ### The report for a terminal -/

/-- A finding and its mark as a row of the table. -/
def entryRow (e : Finding × Bool) : List (List Char) :=
  [Report.printable e.1.file.toList, Report.printable e.1.message.toList, Report.markText e.2]

/-- The lines of a finding in the table, with so many cells for the message. -/
def entryText (issue : Nat) (e : Finding × Bool) : List (List Char) :=
  Report.rowText issue (Report.printable e.1.file.toList) (Report.printable e.1.message.toList)
    (Report.markText e.2)

theorem rowsOf_findingColumns (o : Outcome) :
    Report.rowsOf (o.findingColumns false) = o.findings.map fun f => entryRow (f, o.isFixed f) := by
  have hheight : ((o.findingColumns false).map fun c => c.entries.length).foldl max 0 =
      o.findings.length := by
    simp [findingColumns]
  rw [Report.rowsOf, hheight]
  apply List.ext_getElem
  · simp
  · intro i hi _
    have hi : i < o.findings.length := by simpa using hi
    simp [findingColumns, entryRow, Report.markText, hi]

/-- In a window of 98 columns, or more, the row of a finding is printed as its lines. -/
theorem exists_rowPrinted_eq (o : Outcome) {width : Nat} (hwidth : 98 ≤ width) :
    ∃ issue, 40 ≤ issue ∧ issue + 58 ≤ width ∧
      ∀ e, o.rowPrinted width (entryRow e) = entryText issue e := by
  have hlimit : 94 ≤ width - 4 := by omega
  obtain ⟨issue, hleast, hmost, hwidths⟩ := o.columnWidths_findingColumns hlimit
  refine ⟨issue, hleast, by omega, fun e => ?_⟩
  rw [rowPrinted, hwidths]
  exact Report.map_cropped_rowLines (by omega) (by omega) (by rw [Report.wrap_markText]; rfl)

/-- One line shows that a finding is open, if it is. -/
theorem countP_entryText (issue : Nat) (entries : List (Finding × Bool)) :
    (entries.flatMap (entryText issue)).countP Report.openEnd.isSuffixOf =
      entries.countP (!·.2) := by
  induction entries with
  | nil => rfl
  | cons e entries ih =>
    obtain ⟨f, fixed⟩ := e
    rw [List.flatMap_cons, List.countP_append, ih, entryText, Report.countP_rowText, List.countP_cons,
      Nat.add_comm]
    cases fixed <;> rfl

/-! ### What the reports say -/

/-- The reports of an outcome list these findings with these marks, and those that are marked as open
are the ones that are left. -/
structure ReportedAs (o : Outcome) (entries : List (Finding × Bool)) : Prop where
  /-- Every finding is listed once, in order. -/
  listed : entries.map (·.1) = o.findings
  /-- What is not fixed is left. -/
  left : (entries.filter (!·.2)).map (·.1) = o.unresolved
  /-- So as many are marked as open as are left. -/
  opened : entries.countP (!·.2) = o.unresolved.length
  /-- The sentence that every report begins with counts them. -/
  summary : o.findings ≠ [] → o.summary false =
    "Found " ++ counted entries.length "issue" ++ " in " ++ counted o.files.length "file" ++ "."
      ++ " Updated " ++ counted o.changed.length "file" ++ ", " ++ toString o.unresolved.length
      ++ " issue(s) need manual review."
  /-- The report for programs, read back. -/
  value : (o.toJson false).entries? = some entries
  /-- The report for programs, line by line. -/
  lines : memberLines (o.json false).toList = entries.flatMap entryLines
  /-- The findings that are marked as open in the report for programs. -/
  linesOpen : (memberLines (o.json false).toList).count (memberLine "fixed" (.bool false)) =
    o.unresolved.length
  /-- The report for documents has one line for every finding, in order, with its mark. -/
  markdown : o.findings ≠ [] → o.markdown false = String.intercalate "\n"
    (o.documentHead ++ entries.map entryLine ++ o.documentTail ++ [""])
  /-- These are its lines that end in a mark, if no finding and no path has a line feed in it. -/
  marked : o.findings ≠ [] → (∀ f ∈ o.findings, '\n' ∉ f.file.toList ∧ '\n' ∉ f.message.toList) →
    (∀ path ∈ o.changed, '\n' ∉ path.toList) →
      (Text.splitChar '\n' (o.markdown false).toList).filter isMarked =
        entries.map fun e => (entryLine e).toList
  /-- The report for a terminal has the rows of all findings, in order, with their marks. -/
  table : ∀ width ≠ 0, o.findings ≠ [] → (o.terminalPrintout false width).lines =
    o.linesAbove width ++ entries.flatMap (fun e => o.rowPrinted width (entryRow e))
      ++ o.linesBelow width
  /-- In a window of 98 columns, or more, a row shows the finding and its mark, and nothing of it is cut
  off. -/
  rows : ∀ width ≥ 98, ∃ issue, 40 ≤ issue ∧ issue + 58 ≤ width ∧
    ∀ e ∈ entries, o.rowPrinted width (entryRow e) = entryText issue e
  /-- The lines of these rows that end in the mark of an open finding. -/
  rowsOpen : ∀ width ≥ 98, (entries.flatMap fun e => o.rowPrinted width (entryRow e)).countP
    Report.openEnd.isSuffixOf = o.unresolved.length
  /-- These lines are the report, unless a path has a faulty tag. -/
  terminal : ∀ width, (o.terminalPrintout false width).fault = none →
    o.terminal false width = .ok (Report.printed (o.terminalPrintout false width).lines)

theorem entries?_toJson (o : Outcome) :
    (o.toJson false).entries? = some (o.findings.map fun f => (f, o.isFixed f)) := by
  have htext : ∀ s : String, (ofText s).text? = some s := by
    intro s
    have hchars : Text.chars? (Coded.points s) = some s.toList := Text.chars?_map_ofChar s.toList
    rw [ofText, text?, hchars, Option.map_some, String.ofList_toList]
  have hitem : ∀ f, finding? (o.findingJson false f) = some (f, o.isFixed f) := by
    intro f
    have hmembers : (o.findingJson false f).member? "file" = some (ofText f.file) ∧
        (o.findingJson false f).member? "message" = some (ofText f.message) ∧
        (o.findingJson false f).member? "pattern" = some (ofText f.source) ∧
        (o.findingJson false f).member? "fixed" = some (.bool (o.isFixed f)) := ⟨rfl, rfl, rfl, rfl⟩
    obtain ⟨hfile, hmessage, hsource, hfixed⟩ := hmembers
    simp only [finding?, hfile, hmessage, hsource, hfixed, htext, bool?, Option.bind_eq_bind,
      Option.bind_some, Option.pure_def]
  have hitems : ∀ findings : List Finding, (findings.map (o.findingJson false)).mapM finding? =
      some (findings.map fun f => (f, o.isFixed f)) := by
    intro findings
    induction findings with
    | nil => rfl
    | cons f findings ih =>
      rw [List.map_cons, List.mapM_cons, hitem, ih]
      rfl
  exact hitems o.findings

/-- An outcome that leaves findings by their file and their source is reported as it is. -/
theorem reportedAs {o : Outcome} {fixed : String → String → Bool}
    (h : o.unresolved = o.findings.filter fun f => !fixed f.file f.source) :
    o.ReportedAs (o.findings.map fun f => (f, fixed f.file f.source)) := by
  -- Equal findings have the same file and the same source, so a report finds the same mark.
  have hmark : ∀ f ∈ o.findings, o.isFixed f = fixed f.file f.source := by
    intro f hf
    rw [isFixed, h, List.contains_eq_mem]
    simp [hf]
  have hentries : (o.findings.map fun f => (f, fixed f.file f.source)) =
      o.findings.map fun f => (f, o.isFixed f) :=
    List.map_congr_left fun f hf => by rw [hmark f hf]
  have hleft : ((o.findings.map fun f => (f, fixed f.file f.source)).filter (!·.2)).map (·.1) =
      o.unresolved := by
    rw [h, List.filter_map, List.map_map]
    exact List.map_id _
  have hcount : (o.findings.map fun f => (f, fixed f.file f.source)).countP (!·.2) =
      o.unresolved.length := by
    rw [List.countP_eq_length_filter, ← hleft, List.length_map]
  have hlines : memberLines (o.json false).toList =
      (o.findings.map fun f => (f, fixed f.file f.source)).flatMap entryLines := by
    rw [memberLines_json, hentries, List.flatMap_map]
  constructor
  case listed =>
    rw [List.map_map]
    exact List.map_id _
  case left => exact hleft
  case opened => exact hcount
  case summary =>
    intro hne
    rw [Outcome.summary, if_neg (by simpa using hne), List.length_map]
    rfl
  case value => rw [entries?_toJson, hentries]
  case lines => exact hlines
  case linesOpen => rw [hlines, count_entryLines, hcount]
  case markdown =>
    intro hne
    rw [markdown_eq hne, hentries, List.map_map]
    rfl
  case marked =>
    intro hne hfindings hchanged
    rw [filter_isMarked_markdown hne hfindings hchanged, hentries, List.map_map]
    rfl
  case table =>
    intro width hwidth hne
    rw [terminalPrintout_lines hwidth hne, rowsOf_findingColumns, hentries, List.flatMap_map,
      List.flatMap_map]
  case rows =>
    intro width hwidth
    obtain ⟨issue, hleast, hmost, hrow⟩ := o.exists_rowPrinted_eq hwidth
    exact ⟨issue, hleast, hmost, fun e _ => hrow e⟩
  case rowsOpen =>
    intro width hwidth
    obtain ⟨issue, -, -, hrow⟩ := o.exists_rowPrinted_eq hwidth
    simp only [hrow]
    rw [countP_entryText, hcount]
  case terminal =>
    intro width hfault
    rw [Outcome.terminal, hfault]

end Outcome

namespace Project

variable {registry : Registry} {root : Root} {o : Options} {findings : List Finding}
  {w w' : Workspace} {outcome : Outcome}

/-- Repairs leave findings by their file and their source. -/
theorem exists_unresolved_of_repair
    (h : Run.exec (repair root registry o findings) w = (.ok outcome, w')) :
    ∃ fixed : String → String → Bool,
      outcome.unresolved = outcome.findings.filter fun f => !fixed f.file f.source := by
  by_cases hdry : o.dryRun = true
  · rw [repair, if_pos hdry] at h
    cases h
    exact ⟨fun _ _ => false, by simp [Outcome.ofAnalysis]⟩
  · obtain ⟨fixes, updated, w₁, -, -, rfl⟩ := repair_eq_ok (by simpa using hdry) h
    exact ⟨fun file source => isResolved fixes ⟨file, "", source⟩, rfl⟩

/-- The reports of an upgrade agree with its outcome. -/
theorem upgrade_reportedAs (h : Run.exec (upgrade root registry o) w = (.ok outcome, w')) :
    ∃ fixed : String → String → Bool,
      outcome.ReportedAs (outcome.findings.map fun f => (f, fixed f.file f.source)) := by
  obtain ⟨notices, hrun⟩ := exec_upgrade registry root o w
  rw [h] at hrun
  split at hrun
  · cases hrun
  · obtain ⟨fixed, hfixed⟩ := exists_unresolved_of_repair hrun.symm
    exact ⟨fixed, Outcome.reportedAs hfixed⟩

/-- Two detections that are made twice. Safe mode leaves the repair of the second one to a person. -/
def twiceRules : Registry :=
  ["foo", "foo", "bar", "bar"].foldl
    (fun registry source => registry.register (.detection {} source "old" "**/*.rb" none))
    ((({} : Registry).register (.repair {} "foo" (.template "baz") true)).register
      (.repair {} "bar" (.template "baz") false))

/-- What an upgrade with them ends with: the findings of the first one are fixed. -/
def twiceOutcome : Outcome :=
  ⟨[⟨"app/controllers/api/a.rb", "old", "foo"⟩, ⟨"app/controllers/api/a.rb", "old", "foo"⟩,
      ⟨"app/controllers/api/a.rb", "old", "bar"⟩, ⟨"app/controllers/api/a.rb", "old", "bar"⟩],
    ["app/controllers/api/a.rb"],
    [⟨"app/controllers/api/a.rb", "old", "bar"⟩, ⟨"app/controllers/api/a.rb", "old", "bar"⟩]⟩

theorem upgrade_twice :
    (Run.exec (upgrade ⟨[], "."⟩ twiceRules {}) halfSpace).1 = .ok twiceOutcome := by
  decide +kernel

/-- Findings that are made twice are told twice, with the same mark. -/
theorem upgrade_reportedAs_twice : ∃ w',
    Run.exec (upgrade ⟨[], "."⟩ twiceRules {}) halfSpace = (.ok twiceOutcome, w') ∧
    ∃ fixed : String → String → Bool,
      twiceOutcome.ReportedAs (twiceOutcome.findings.map fun f => (f, fixed f.file f.source)) :=
  ⟨_, Prod.ext upgrade_twice rfl, upgrade_reportedAs (Prod.ext upgrade_twice rfl)⟩

open Report in
/-- In a window of 80 columns the file and the start of the message fill a line, and no mark is seen. -/
theorem upgrade_twice_unmarked : ∃ w' text,
    Run.exec (upgrade ⟨[], "."⟩ twiceRules {}) halfSpace = (.ok twiceOutcome, w') ∧
    twiceOutcome.findings.length = 4 ∧ twiceOutcome.unresolved.length = 2 ∧
    twiceOutcome.terminal false 80 = .ok text ∧
    ¬ "open".toList <:+: text.toList ∧ ¬ "fixed".toList <:+: text.toList := by
  have hprintout : twiceOutcome.terminalPrintout false 80 = ⟨twiceOutcome.terminalBody false 80 ++
      Outcome.listHeading 80 ++ twiceOutcome.changed.map pathLine, none⟩ := by
    rw [Outcome.terminalPrintout_eq_iff (by decide), printMessages_eq_iff (by decide)]
    exact fun path hpath => messageLines_of_showable (by decide)
      (by rw [List.mem_singleton.mp hpath]; decide)
  have hparts : ∀ mark ∈ ["open".toList, "fixed".toList], Text.hasPart mark
      ((twiceOutcome.terminalBody false 80 ++ Outcome.listHeading 80 ++
        twiceOutcome.changed.map pathLine).flatMap (· ++ ['\n'])) = false := by
    decide +kernel
  have hunmarked : ∀ mark ∈ ["open".toList, "fixed".toList],
      ¬ mark <:+: (printed (twiceOutcome.terminalPrintout false 80).lines).toList := by
    intro mark hmark
    rw [hprintout, printed, String.toList_ofList, ← Text.hasPart_iff, hparts mark hmark]
    exact Bool.false_ne_true
  refine ⟨_, printed (twiceOutcome.terminalPrintout false 80).lines, Prod.ext upgrade_twice rfl, rfl,
    rfl, ?_, hunmarked _ (by simp), hunmarked _ (by simp)⟩
  rw [Outcome.terminal, hprintout]

end Project

end RailsUpgrade
