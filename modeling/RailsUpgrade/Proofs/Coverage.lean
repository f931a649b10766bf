import RailsUpgrade.Catalogue.Detections
import RailsUpgrade.Proofs.Settled

/-!
# `RailsUpgrade.Proofs.Coverage`: detections that find what their repairs change

A repair runs on the files in which its detection found something, and most repairs have another
pattern than their detection. Whatever a repair changes is found, with one exception: the detection
for symbols among the keys of settings asks for keys of letters and underscores, and the repair also
changes keys with digits in them.

* `ByLine`, `pattern_eq`: detections with one spelling have one pattern;
* `detectionPatterns`: what the detections look for whose repairs have another pattern;
* `Covers`: a pattern is found in every text that a repair changes, for each repair but one;
* `exists_part_of_ne`: where a part of a hash of settings is changed, the hash has that part;
* `PlainKeyed`, `found_settingsSymbolKeys_iff`: what the detection for symbols finds;
* `found_of_apply_ne`: a repair only changes what its detection finds, with this exception.
-/

set_option autoImplicit false

namespace RailsUpgrade

/-! ### Spellings -/

namespace Pattern

/-- Patterns that are read from a spelling, with `^` and `$` at the ends of each line. -/
def ByLine (p : Pattern) : Prop := ∃ source valid, p = fixed .byLine source valid

theorem ByLine.compile {p : Pattern} (h : p.ByLine) : compile .byLine p.source = .ok p := by
  obtain ⟨source, valid, rfl⟩ := h
  have hfixed : Pattern.compile .byLine source = .ok (fixed .byLine source valid) := by
    unfold fixed
    split
    · assumption
    · rename_i e he
      simp [he, Except.isOk, Except.toBool] at valid
  rw [source_of_compile hfixed, hfixed]

/-- The spelling determines such a pattern. -/
theorem ByLine.eq {p q : Pattern} (hp : p.ByLine) (hq : q.ByLine) (h : p.source = q.source) :
    p = q :=
  Except.ok.inj (hp.compile.symm.trans (h ▸ hq.compile))

end Pattern

namespace Catalogue

open Pattern (Expr Match Swap framed noChar found_of_canTake found_of_replaceAll_ne
  exists_swap_of_ne exists_ends_of_found canTake_seq canTake_alt canTake_one canTake_star
  canTake_plus canTake_chars canTake_anchor canTake_group canTake_literal reads_chars reads_literal reads_run
  reads_of_mem_ends Meets meets_of_append_eq)

theorem byLine_detections : ∀ d ∈ detections, d.pattern.ByLine := by
  simp only [detections, deprecations, records, conventions, naming, projectFiles,
    List.forall_mem_append, List.forall_mem_cons]
  and_intros
  all_goals first
    | exact ⟨_, _, rfl⟩
    | exact List.forall_mem_nil _

/-- Detections with one spelling have one pattern. -/
theorem pattern_eq {d d' : Detection} (hd : d ∈ detections) (hd' : d' ∈ detections)
    (h : d.source = d'.source) : d.pattern = d'.pattern :=
  (byLine_detections d hd).eq (byLine_detections d' hd') h

/-! ### What the detections look for -/

-- Each spelling is parsed here once, like those of the repairs.
theorem detectionPatterns :
    updateAttributes.expr = .chars ".update_attributes" (.one (.ofItems [.one '!', .one '('])) ∧
      findOrInitializeBy.expr = .chars ".find_or_initialize_by_"
        (.seq (.group 1 (.plus attributeLetters)) (.anchor (.wordEdge false))) ∧
      findOrCreateBy.expr = .chars ".find_or_create_by_"
        (.seq (.group 1 (.plus attributeLetters)) (.anchor (.wordEdge false))) ∧
      pluckInclude.expr = .literal ".pluck(:id).include?".toList ∧
      dynamicFinder.expr = .chars ".find_by_"
        (.seq (.look 0 false (.chars "sql" (.anchor (.wordEdge false))))
          (.seq (.plus attributeLetters) (.anchor (.wordEdge false)))) ∧
      stringWhere.expr = .chars ".where(" (.seq (.one quotes) (.seq (.group 1 (.plus wordLetters))
        (.seq (.star blanks) (.chars "=" (.seq (.star blanks) (.one quotes)))))) ∧
      uriEscape.expr = .chars "URI." (.alt (.literal "escape".toList) (.literal "unescape".toList)) ∧
      cgiEscape.expr = .chars "CGI.escape("
        (.seq (.look 0 false (.seq (.star noBrackets) (.literal ".to_s)".toList)))
          (.seq (.plus noBrackets) (.one (.single ')')))) ∧
      collectionPresence.expr = .chars ".present?" (.seq (.star blanks) (.anchor .lineEnd)) ∧
      settingsBooleans.expr = hashPart (.chars "=>" (.seq (.star blanks)
        (.seq (.alt (.literal "true".toList) (.literal "false".toList))
          (.anchor (.wordEdge false))))) ∧
      settingsSymbolKeys.expr = hashPart (.chars ":" (.seq (.plus attributeLetters)
        (.seq (.star blanks) (.literal "=>".toList)))) := by
  refine ⟨?_, ?_, ?_, ?_, ?_, ?_, ?_, ?_, ?_, ?_, ?_⟩ <;>
    exact Pattern.expr_fixed String.toList_ofList (by decide +kernel)

/-- A pattern is found in every text that a repair changes. -/
def Covers (p : Pattern) (r : StockRepair) : Prop :=
  ∀ text, r.apply text ≠ text → p.found text = true

/-- A pattern covers the repair that replaces what it finds. -/
theorem covers_always (p : Pattern) (new : String) : Covers p (always p new) :=
  fun _ hne => found_of_replaceAll_ne hne

/-- It is enough to find the places where a repair puts something in. -/
theorem covers_of_swaps {p : Pattern} {r : StockRepair} {e : Expr} {swap : List Char → Swap}
    (hexpr : p.expr = e) (hswaps : ∀ text, r.pattern.expr.Swaps (r.replace text) (swap text))
    (hfound : ∀ text lead taken after new, swap text lead.reverse taken after new →
      e.found (lead ++ (taken ++ after)) = true) : Covers p r := by
  intro text hne
  obtain ⟨lead, taken, after, new, htext, hswap, -⟩ := exists_swap_of_ne (hswaps text) hne
  rw [Pattern.found, hexpr, htext]
  exact hfound text lead taken after new hswap

/-! ### Calls -/

theorem covers_update : Covers updateAttributes updateRepair := by
  obtain ⟨hexpr, -⟩ := detectionPatterns
  refine covers_of_swaps hexpr (fun _ => swaps_update) fun _ lead taken after new ⟨htaken, _⟩ => ?_
  obtain ⟨x, hx, rfl⟩ := exists_of_updates htaken
  exact found_of_canTake (canTake_chars (canTake_one hx))

section

variable {attributes before rest : List Char}

/-- Attributes as a whole word. -/
theorem canTake_attributes {p : Expr} (hne : attributes ≠ [])
    (hletters : attributes.all attributeLetters.mem = true)
    (h : p.CanTake before attributes ('(' :: rest)) :
    (Expr.seq p (.anchor (.wordEdge false))).CanTake before attributes ('(' :: rest) := by
  have hlast : attributes.reverse.head?.any Text.isWord = true := by
    obtain ⟨x, s, hreverse⟩ := List.exists_cons_of_ne_nil (mt List.reverse_eq_nil_iff.mp hne)
    have hx : x ∈ attributes := List.mem_reverse.mp (hreverse ▸ List.mem_cons_self)
    rw [hreverse]
    exact isWord_of_attributeLetters (List.all_eq_true.mp hletters x hx)
  rw [← List.append_nil attributes]
  exact canTake_seq h (canTake_wordEnd (any_head_append hlast _)
    (show Text.isWord '(' = false by decide))

theorem finderCall_append (method : String) (attributes arguments after : List Char) :
    finderCall method attributes arguments ++ after =
      (method.toList ++ attributes) ++ '(' :: (arguments ++ [')'] ++ after) := by
  simp [finderCall]

end

/-- The detections for finders that look up or make a record. -/
theorem covers_finder {p : Pattern} {r : StockRepair} {method new : String}
    {good : List Char → Prop}
    (hexpr : p.expr = .chars method
      (.seq (.group 1 (.plus attributeLetters)) (.anchor (.wordEdge false))))
    (hswaps : ∀ text, r.pattern.expr.Swaps (r.replace text)
      (framed noChar noChar (Finder method new good))) : Covers p r := by
  refine covers_of_swaps hexpr hswaps fun _ lead taken after _ ⟨hfinder, _⟩ => ?_
  obtain ⟨attributes, arguments, hne, hletters, -, -, rfl, -⟩ := hfinder
  rw [finderCall_append]
  exact found_of_canTake (canTake_chars (canTake_attributes hne hletters
    (canTake_group (canTake_plus hletters hne))))

theorem covers_findBy : Covers dynamicFinder findByRepair := by
  obtain ⟨-, -, -, -, hexpr, -⟩ := detectionPatterns
  refine covers_of_swaps hexpr (fun _ => swaps_findBy) fun _ lead taken after _ ⟨hfinder, _⟩ => ?_
  obtain ⟨attributes, arguments, hne, hletters, -, hgood, rfl, -⟩ := hfinder
  rw [finderCall_append]
  exact found_of_canTake (canTake_chars (canTake_dynamic hletters hgood rfl
    (canTake_attributes hne hletters (canTake_plus hletters hne))))

theorem covers_exists : Covers pluckInclude existsRepair := by
  obtain ⟨-, -, -, hexpr, -⟩ := detectionPatterns
  refine covers_of_swaps hexpr (fun _ => swaps_exists) fun _ lead taken after _ ⟨hargued, _⟩ => ?_
  obtain ⟨x, hx, argument, -, -, -, rfl, -⟩ := hargued
  obtain rfl := List.mem_singleton.mp hx
  have htext : ".pluck(:id).include?(".toList ++ (argument ++ [')']) ++ after =
      ".pluck(:id).include?".toList ++ ('(' :: (argument ++ [')'] ++ after)) := by simp
  rw [htext]
  exact found_of_canTake canTake_literal

theorem covers_uriEscape : Covers uriEscape uriEscapeRepair := by
  obtain ⟨-, -, -, -, -, -, hexpr, -⟩ := detectionPatterns
  refine covers_of_swaps hexpr (fun _ => swaps_uriEscape) fun _ lead taken after _ ⟨hargued, _⟩ => ?_
  obtain ⟨x, hx, argument, -, -, -, rfl, -⟩ := hargued
  obtain ⟨method, hmethod, hhead⟩ : ∃ method, (method = "escape".toList ∨ method = "unescape".toList) ∧
      x.1 = "URI.".toList ++ (method ++ "(".toList) := by
    obtain rfl | rfl : x = _ ∨ x = _ := by simpa [addressCalls] using hx
    · exact ⟨_, .inl rfl, by decide⟩
    · exact ⟨_, .inr rfl, by decide⟩
  have htext : x.1 ++ (argument ++ [')']) ++ after =
      ("URI.".toList ++ method) ++ ('(' :: (argument ++ [')'] ++ after)) := by
    rw [hhead]
    simp
  rw [htext]
  refine found_of_canTake (canTake_chars (canTake_alt ?_))
  rcases hmethod with rfl | rfl
  · exact .inl canTake_literal
  · exact .inr canTake_literal

theorem covers_cgiEscape : Covers cgiEscape cgiEscapeRepair := by
  obtain ⟨-, -, -, -, -, -, -, hexpr, -⟩ := detectionPatterns
  refine covers_of_swaps hexpr (fun _ => swaps_cgiEscape) fun _ lead taken after _ ⟨hargued, _⟩ => ?_
  obtain ⟨x, hx, argument, hne, hall, hgood, rfl, -⟩ := hargued
  obtain rfl := List.mem_singleton.mp hx
  exact found_of_canTake (canTake_chars (canTake_untold hall hgood
    (canTake_seq (canTake_plus hall hne) (canTake_one (by simp)))))

/-- A question at the end of a line is found without the name in front of it. -/
theorem covers_presence : Covers collectionPresence presenceRepair := by
  obtain ⟨-, -, -, -, -, -, -, -, hexpr, -⟩ := detectionPatterns
  refine covers_of_swaps hexpr swaps_presence fun text lead taken after _ ⟨hasked, _, hend⟩ => ?_
  obtain ⟨name, gap, -, -, hgap, rfl, -⟩ := hasked
  have htext : lead ++ (name ++ (".present?".toList ++ gap) ++ after) =
      (lead ++ name) ++ ((".present?".toList ++ (gap ++ [])) ++ after) := by simp
  have hblank : gap.all blanks.mem = true := by
    rw [all_blanks_eq, List.all_eq_true]
    exact fun x hx => (Text.isBlank_of_isSpaceOrTab (List.all_eq_true.mp hgap x hx)).1
  rw [htext]
  refine found_of_canTake (canTake_chars (canTake_seq (canTake_star hblank)
    (canTake_anchor fun c _ ha => ?_)))
  rw [lineEnd_iff, ha, hend]

/-- A condition is found up to the quote in front of its value. -/
theorem covers_hashCondition : Covers stringWhere hashConditionRepair := by
  obtain ⟨-, -, -, -, -, -, -, -, hrepair⟩ := callPatterns
  obtain ⟨-, -, -, -, -, hexpr, -⟩ := detectionPatterns
  intro text hne
  obtain ⟨lead, rest, c, rfl, hc⟩ := exists_ends_of_found (found_of_replaceAll_ne hne)
  rw [hrepair] at hc
  obtain ⟨s, htakes, hread⟩ := reads_of_mem_ends _ hc
  obtain ⟨_, rfl, outer, _, _, ⟨_, ⟨⟨x, hx, rfl⟩, rfl⟩, rfl⟩, ⟨column, _, _, ⟨_, hcolumn, rfl⟩,
    ⟨gap, _, _, hgap, hequals, rfl⟩, rfl⟩, rfl⟩ := reads_chars.mp hread
  obtain ⟨_, rfl, gap', _, _, hgap', ⟨quote, _, more, ⟨_, ⟨⟨y, hy, rfl⟩, rfl⟩, rfl⟩, -, rfl⟩, rfl⟩ :=
    reads_chars.mp hequals
  obtain ⟨hlength, hword, rfl⟩ := reads_run.mp hcolumn
  obtain ⟨-, hblank, rfl⟩ := reads_run.mp hgap
  obtain ⟨-, hblank', rfl⟩ := reads_run.mp hgap'
  have hcolumnNe : column ≠ [] := by
    rintro rfl
    simp at hlength
  have htext : rest = (".where(".toList ++ ([x] ++ (column ++ (gap ++ ("=".toList ++
      (gap' ++ [y])))))) ++ (more ++ c.after) := by
    have hafter := htakes.after
    simpa using hafter
  rw [Pattern.found, hexpr, htext]
  exact found_of_canTake (canTake_chars (canTake_seq (canTake_one hx) (canTake_seq
    (canTake_group (canTake_plus hword hcolumnNe)) (canTake_seq (canTake_star hblank)
      (canTake_chars (canTake_seq (canTake_star hblank') (canTake_one hy)))))))

/-! ### Hashes of settings -/

/-- Where a part of a hash is changed, the hash has that part behind its opening brace. -/
theorem exists_part_of_ne {e : Expr} {f : Match → List Char} {p q : Char → Bool}
    {shape : List Char → List Char → Prop} (hswaps : e.Swaps f (framed p q shape))
    (hpart : ∀ taken new, shape taken new → taken ≠ [] ∧ '}' ∉ taken)
    (hlead : ∀ gap gap' : List Char, gap.all Text.isBlank = true → gap'.all Text.isBlank = true →
      ∀ taken new, shape taken new → ∀ tail, tail <:+ hashLead gap gap' → tail ≠ [] →
        ¬ Meets tail taken) {text : List Char}
    (hne : settingsHash.expr.replaceAll (fun m => e.replaceAll f m.text) text ≠ text) :
    ∃ lead gap gap' body taken new after, gap.all Text.isBlank = true ∧
      gap'.all Text.isBlank = true ∧ '}' ∉ body ∧ shape taken new ∧ after.head?.any q = false ∧
      text = lead ++ ((hashLead gap gap' ++ (body ++ taken)) ++ after) := by
  obtain ⟨lead, _, after, _, rfl, ⟨⟨gap, gap', body, hgap, hgap', hbody, rfl, rfl⟩, -⟩, hchanged⟩ :=
    exists_swap_of_ne (swaps_settings (e.replaceAll f)) hne
  obtain ⟨lead', taken, inside, new, htext, ⟨hshape, -, hend⟩, -⟩ :=
    exists_swap_of_ne hswaps hchanged
  obtain ⟨htakenNe, hbrace⟩ := hpart taken new hshape
  -- The part does not begin in front of the brace.
  obtain ⟨body', hbody'⟩ : ∃ body', body ++ ['}'] = body' ++ (taken ++ inside) := by
    rw [hashText_eq] at htext
    rcases List.append_eq_append_iff.mp htext with ⟨body', -, hrest⟩ | ⟨tail, hsplit, hrest⟩
    · exact ⟨body', hrest⟩
    · by_cases htail : tail = []
      · exact ⟨[], by rw [hrest, htail]; rfl⟩
      · exact absurd (meets_of_append_eq hrest.symm)
          (hlead gap gap' hgap hgap' taken new hshape tail ⟨lead', hsplit.symm⟩ htail)
  -- It ends in front of the brace that closes the hash.
  obtain ⟨inside', rfl, rfl⟩ : ∃ inside', inside = inside' ++ ['}'] ∧ body = body' ++ taken ++ inside' := by
    rcases List.eq_nil_or_concat inside with rfl | ⟨inside', x, rfl⟩
    · have hlast := congrArg List.getLast? hbody'
      rw [List.append_nil, List.getLast?_append_of_ne_nil _ htakenNe, List.getLast?_concat] at hlast
      exact absurd (List.mem_of_getLast? hlast.symm) hbrace
    · rw [List.concat_eq_append, ← List.append_assoc, ← List.append_assoc] at hbody'
      obtain ⟨rfl, hx⟩ := List.append_inj' hbody' rfl
      exact ⟨inside', by rw [hx, List.concat_eq_append], rfl⟩
  refine ⟨lead, gap, gap', body', taken, new, inside' ++ ['}'] ++ after, hgap, hgap', ?_, hshape, ?_, ?_⟩
  · exact fun hmem => hbody (by simp [hmem])
  · rwa [List.head?_append_of_ne_nil _ (by simp)]
  · rw [hashText_eq]
    simp

theorem covers_settingsBooleans : Covers settingsBooleans booleanSettingsRepair := by
  obtain ⟨-, -, -, -, -, -, -, -, -, hexpr, -⟩ := detectionPatterns
  intro text hne
  obtain ⟨lead, gap, gap', body, _, _, after, hgap, hgap', hbody, hflag, hend, rfl⟩ :=
    exists_part_of_ne swaps_flag (fun _ _ h => ⟨settling_flag.taken_ne h, h.notMem.1⟩)
      (fun _ _ hgap hgap' _ _ hflag _ => hflag.not_meets hgap hgap') hne
  obtain ⟨space, value, hspace, hvalue, rfl, -⟩ := hflag
  rw [← all_blanks_eq] at hspace
  rw [Pattern.found, hexpr]
  exact found_of_canTake (canTake_hashPart hgap hgap' hbody fun _ => canTake_chars
    (canTake_seq (canTake_star hspace) (canTake_flagWord (p := id) hvalue hend id)))

/-- A hash of settings with a symbol of letters and underscores in front of an arrow. -/
def PlainKeyed (text : List Char) : Prop :=
  ∃ lead gap gap' body key space rest, gap.all Text.isBlank = true ∧ gap'.all Text.isBlank = true ∧
    '}' ∉ body ∧ key ≠ [] ∧ key.all attributeLetters.mem = true ∧ space.all Text.isBlank = true ∧
    text = lead ++ ((hashLead gap gap' ++ (body ++ ':' :: (key ++ (space ++ "=>".toList)))) ++ rest)

theorem found_settingsSymbolKeys_iff (text : List Char) :
    settingsSymbolKeys.found text = true ↔ PlainKeyed text := by
  obtain ⟨-, -, -, -, -, -, -, -, -, -, hexpr⟩ := detectionPatterns
  rw [Pattern.found, hexpr]
  constructor
  · intro hfound
    obtain ⟨lead, rest, c, rfl, hc⟩ := exists_ends_of_found hfound
    obtain ⟨s, htakes, hread⟩ := reads_of_mem_ends _ hc
    obtain ⟨gap, gap', body, _, hgap, hgap', hbody, rfl, hpart⟩ := exists_of_hashPart hread
    obtain ⟨_, rfl, key, _, _, hkey, ⟨space, _, _, hspace, harrow, rfl⟩, rfl⟩ := reads_chars.mp hpart
    obtain ⟨hlength, hletters, rfl⟩ := reads_run.mp hkey
    obtain ⟨-, hblank, rfl⟩ := reads_run.mp hspace
    obtain ⟨rfl, -⟩ := reads_literal.mp harrow
    refine ⟨lead, gap, gap', body, key, space, c.after, hgap, hgap', hbody, ?_, hletters,
      all_blanks hblank, ?_⟩
    · rintro rfl
      simp at hlength
    · rw [show rest = _ from htakes.after]
      rfl
  · rintro ⟨lead, gap, gap', body, key, space, rest, hgap, hgap', hbody, hne, hletters, hspace, rfl⟩
    rw [← all_blanks_eq] at hspace
    exact found_of_canTake (canTake_hashPart hgap hgap' hbody fun _ => canTake_chars
      (canTake_seq (canTake_plus hletters hne) (canTake_seq (canTake_star hspace) canTake_literal)))

/-! ### All repairs -/

/-- The repair of an entry is filed for a detection, which finds whatever it changes unless it is the
one for symbols. -/
def Served (entry : String × StockRepair) : Prop :=
  ∃ d ∈ detections, d.source = entry.1 ∧
    (d.pattern = settingsSymbolKeys ∨ Covers d.pattern entry.2)

theorem served_of_covers (p : Pattern) (r : StockRepair) {group : List Detection}
    (hgroup : group ⊆ detections) (hp : ∃ d ∈ group, d.pattern = p) (hcovers : Covers p r) :
    Served (p.source, r) := by
  obtain ⟨d, hd, rfl⟩ := hp
  exact ⟨d, hgroup hd, rfl, .inr hcovers⟩

theorem subset_detections : deprecations ⊆ detections ∧ records ⊆ detections ∧
    conventions ⊆ detections ∧ naming ⊆ detections := by
  simp only [detections, List.subset_def, List.mem_append]
  refine ⟨?_, ?_, ?_, ?_⟩ <;> intro d hd <;> simp [hd]

theorem exists_settingsSymbolKeys : ∃ d ∈ detections, d.pattern = settingsSymbolKeys := by
  obtain ⟨d, hd, hpattern⟩ : ∃ d ∈ naming, d.pattern = settingsSymbolKeys := by
    simp only [naming, List.exists_mem_cons_iff, true_or, or_true]
  exact ⟨d, subset_detections.2.2.2 hd, hpattern⟩

-- The pattern of every detection is named here: comparing patterns would mean parsing them.
theorem served_of_mem {entry : String × StockRepair} (hmem : entry ∈ repairs) : Served entry := by
  obtain ⟨-, hinitialize, hcreate, -⟩ := detectionPatterns
  obtain ⟨hdeprecations, hrecords, hconventions, hnaming⟩ := subset_detections
  simp only [repairs, List.mem_cons, List.not_mem_nil, or_false] at hmem
  obtain rfl | rfl | rfl | rfl | rfl | rfl | rfl | rfl | rfl | rfl | rfl | rfl | rfl | rfl | rfl |
    rfl | rfl | rfl := hmem
  -- For each entry: where the detection with its source stands, and that it covers the repair.
  · exact served_of_covers updateAttributes _ hdeprecations
      (by simp only [deprecations, List.exists_mem_cons_iff, true_or]) covers_update
  · exact served_of_covers successPredicate _ hdeprecations
      (by simp only [deprecations, List.exists_mem_cons_iff, true_or, or_true]) (covers_always _ _)
  · exact served_of_covers findOrInitializeBy _ hdeprecations
      (by simp only [deprecations, List.exists_mem_cons_iff, true_or, or_true])
      (covers_finder hinitialize fun _ => swaps_findOrInitialize)
  · exact served_of_covers findOrCreateBy _ hdeprecations
      (by simp only [deprecations, List.exists_mem_cons_iff, true_or, or_true])
      (covers_finder hcreate fun _ => swaps_findOrCreate)
  · exact served_of_covers pluckInclude _ hdeprecations
      (by simp only [deprecations, List.exists_mem_cons_iff, true_or, or_true]) covers_exists
  · exact served_of_covers dynamicFinder _ hrecords
      (by simp only [records, List.exists_mem_cons_iff, true_or]) covers_findBy
  · exact served_of_covers scopedCall _ hrecords
      (by simp only [records, List.exists_mem_cons_iff, true_or, or_true]) (covers_always _ _)
  · exact served_of_covers stringWhere _ hrecords
      (by simp only [records, List.exists_mem_cons_iff, true_or, or_true]) covers_hashCondition
  · exact served_of_covers timeNow _ hconventions
      (by simp only [conventions, List.exists_mem_cons_iff, true_or]) (covers_always _ _)
  · exact served_of_covers dateTimeNow _ hconventions
      (by simp only [conventions, List.exists_mem_cons_iff, true_or, or_true]) (covers_always _ _)
  · exact served_of_covers dateToday _ hconventions
      (by simp only [conventions, List.exists_mem_cons_iff, true_or, or_true]) (covers_always _ _)
  · exact served_of_covers uriEscape _ hconventions
      (by simp only [conventions, List.exists_mem_cons_iff, true_or, or_true]) covers_uriEscape
  · exact served_of_covers cgiEscape _ hconventions
      (by simp only [conventions, List.exists_mem_cons_iff, true_or, or_true]) covers_cgiEscape
  · exact served_of_covers collectionPresence _ hconventions
      (by simp only [conventions, List.exists_mem_cons_iff, true_or, or_true]) covers_presence
  · exact served_of_covers moduleApi _ hnaming
      (by simp only [naming, List.exists_mem_cons_iff, true_or, or_true]) (covers_always _ _)
  · exact served_of_covers apiReference _ hnaming
      (by simp only [naming, List.exists_mem_cons_iff, true_or, or_true]) (covers_always _ _)
  · exact served_of_covers settingsBooleans _ hnaming
      (by simp only [naming, List.exists_mem_cons_iff, true_or, or_true]) covers_settingsBooleans
  · obtain ⟨d, hd, hpattern⟩ := exists_settingsSymbolKeys
    exact ⟨d, hd, by rw [Detection.source, hpattern], .inl hpattern⟩

/-- Whatever a repair of the library changes is found by the detections that it is filed for. For
the keys of settings this is so exactly if one of them is plain. -/
theorem found_of_apply_ne {entry : String × StockRepair} (hmem : entry ∈ repairs) {text : List Char}
    (hne : entry.2.apply text ≠ text) :
    (∃ d ∈ detections, d.source = entry.1) ∧ ∀ d ∈ detections, d.source = entry.1 →
      (d.pattern.found text = true ↔ (entry.1 = settingsSymbolKeys.source → PlainKeyed text)) := by
  obtain ⟨d₀, hd₀, hsource₀, hserved⟩ := served_of_mem hmem
  refine ⟨⟨d₀, hd₀, hsource₀⟩, fun d hd hsource => ⟨fun hfound hkeys => ?_, fun hplain => ?_⟩⟩
  · obtain ⟨d', hd', hpattern⟩ := exists_settingsSymbolKeys
    have hsame : d.source = d'.source := by
      rw [hsource, hkeys, Detection.source, hpattern]
    rwa [pattern_eq hd hd' hsame, hpattern, found_settingsSymbolKeys_iff] at hfound
  · rw [pattern_eq hd hd₀ (hsource.trans hsource₀.symm)]
    rcases hserved with hpattern | hcovers
    · rw [hpattern, found_settingsSymbolKeys_iff]
      exact hplain (by rw [← hsource₀, Detection.source, hpattern])
    · exact hcovers text hne

theorem found_of_apply_ne_timeNow :
    (timeNow.source, timeNowRepair) ∈ repairs ∧
      timeNowRepair.apply "Time.now".toList ≠ "Time.now".toList ∧
      (∃ d ∈ detections, d.source = timeNow.source) ∧
      ∀ d ∈ detections, d.source = timeNow.source → (d.pattern.found "Time.now".toList = true ↔
        (timeNow.source = settingsSymbolKeys.source → PlainKeyed "Time.now".toList)) := by
  have hmem : (timeNow.source, timeNowRepair) ∈ repairs := by simp [repairs]
  have hne : timeNowRepair.apply "Time.now".toList ≠ "Time.now".toList := by decide +kernel
  exact ⟨hmem, hne, found_of_apply_ne hmem hne⟩

/-- A key with a digit is made a text, but no detection finds it. -/
theorem not_found_digitKey :
    (settingsSymbolKeys.source, symbolSettingsRepair) ∈ repairs ∧
      symbolSettingsRepair.apply "settings = \x7b:key1 => 1\x7d".toList =
        "settings = \x7b\x22key1\x22 => 1\x7d".toList ∧
      ∀ d ∈ detections, d.source = settingsSymbolKeys.source →
        d.pattern.found "settings = \x7b:key1 => 1\x7d".toList = false := by
  refine ⟨by simp [repairs], by decide +kernel, fun d hd hsource => ?_⟩
  obtain ⟨d', hd', hpattern⟩ := exists_settingsSymbolKeys
  have hsame : d.source = d'.source := by rw [hsource, Detection.source, hpattern]
  rw [pattern_eq hd hd' hsame, hpattern]
  decide +kernel

end Catalogue

end RailsUpgrade
