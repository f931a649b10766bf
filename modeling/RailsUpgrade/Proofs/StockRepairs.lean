import RailsUpgrade.Proofs.Scores

/-!
# `RailsUpgrade.Proofs.StockRepairs`: repairs of the library never undo each other

Every repair of the library that changes a text adds to its score, so no sequence of these repairs
leads back to a text that one of them has changed:

* `wordPatterns`, `callPatterns`, `settingsPatterns`: what the patterns of the repairs look for;
* `advances_timeNow` and so on: what replaces a match of each repair;
* `improves_stockStep`: a repair of the library leaves a text alone or adds to its score;
* `foldl_stockStep_eq_iff`: repairs leave a text as it was exactly if each of them does.
-/

set_option autoImplicit false

namespace RailsUpgrade.Catalogue

open Pattern (Expr CharSet Match reads_chars reads_look reads_literal reads_run reads_optional
  reads_seq_anchor reads_seq_look)

/-! ### What the repairs look for -/

/-- Blanks of all scripts. -/
def blanks : CharSet := .ofItems [.kind .blank false false]

/-- Everything but brackets. -/
def noBrackets : CharSet := .butItems [.one '(', .one ')']

/-- The letters of names of attributes. -/
def attributeLetters : CharSet := .ofItems [.range 97 122, .range 65 90, .one '_']

/-- The characters of words. -/
def wordLetters : CharSet := .ofItems [.kind .word false false]

/-- Both quotes. -/
def quotes : CharSet := .ofItems [.one '"', .one '\'']

/-- A word that stands for itself. -/
def wordExpr (word : String) : Expr :=
  .seq (.anchor (.wordEdge false)) (.chars word (.anchor (.wordEdge false)))

/-- Attributes and, in brackets, arguments. -/
def callExpr : Expr :=
  .seq (.group 1 (.rep (.one attributeLetters) 1 none true))
    (.chars "(" (.seq (.group 2 (.rep (.one noBrackets) 0 none true)) (.one (.single ')'))))

/-- An argument and the bracket that closes it. -/
def argumentExpr (i : Nat) : Expr :=
  .seq (.group i (.rep (.one noBrackets) 1 none true)) (.one (.single ')'))

-- The patterns are spelled as texts in the catalogue. Each group of them is parsed here once.
theorem wordPatterns :
    timeNow.expr = wordExpr "Time.now" ∧ dateTimeNow.expr = wordExpr "DateTime.now" ∧
      dateToday.expr = wordExpr "Date.today" ∧
      successPredicate.expr = .literal ".success?".toList ∧
      scopedCall.expr = .chars ".scoped" (.seq (.anchor (.wordEdge false))
        (.look 0 false (.one (.ofItems [.one '?', .one '!'])))) ∧
      apiReference.expr = .seq (.anchor (.wordEdge false)) (.literal "API::".toList) ∧
      moduleApi.expr = .chars "module" (.seq (.rep (.one blanks) 1 none true)
        (.chars "API" (.anchor (.wordEdge false)))) := by
  refine ⟨?_, ?_, ?_, ?_, ?_, ?_, ?_⟩ <;>
    exact Pattern.expr_fixed String.toList_ofList (by decide +kernel)

theorem callPatterns :
    updateRepair.pattern.expr =
        .chars ".update_attributes" (.group 1 (.one (.ofItems [.one '!', .one '(']))) ∧
      findOrInitializeRepair.pattern.expr = .chars ".find_or_initialize_by_" callExpr ∧
      findOrCreateRepair.pattern.expr = .chars ".find_or_create_by_" callExpr ∧
      findByRepair.pattern.expr = .chars ".find_by_" (.seq
        (.look 0 false (.chars "sql" (.anchor (.wordEdge false)))) callExpr) ∧
      existsRepair.pattern.expr = .chars ".pluck(:id).include?(" (argumentExpr 1) ∧
      cgiEscapeRepair.pattern.expr = .chars "CGI.escape("
        (.seq (.look 0 false (.seq (.rep (.one noBrackets) 0 none true) (.literal ".to_s)".toList)))
          (argumentExpr 1)) ∧
      uriEscapeRepair.pattern.expr = .chars "URI."
        (.seq (.rep (.group 1 (.literal "un".toList)) 0 (some 1) true)
          (.chars "escape(" (argumentExpr 2))) ∧
      presenceRepair.pattern.expr =
        .seq (.group 1 (.rep (.one wordLetters) 1 none true))
          (.chars ".present?" (.seq (.rep (.one (.ofItems [.one ' ', .one '\t'])) 0 none true)
            (.anchor .lineEnd))) ∧
      hashConditionRepair.pattern.expr = .chars ".where(" (.seq (.group 1 (.one quotes))
        (.seq (.group 2 (.rep (.one wordLetters) 1 none true))
          (.seq (.rep (.one blanks) 0 none true) (.chars "=" (.seq (.rep (.one blanks) 0 none true)
            (.seq (.group 3 (.one quotes))
              (.seq (.group 4 (.rep (.one (.butItems [.one '"', .one '\'', .one '\n'])) 0 none true))
                (.seq (.again 3 .exact) (.seq (.again 1 .exact)
                  (.one (.single ')'))))))))))) := by
  dsimp only [updateRepair, findOrInitializeRepair, findOrCreateRepair, findByRepair, existsRepair,
    cgiEscapeRepair, uriEscapeRepair, presenceRepair, hashConditionRepair]
  refine ⟨?_, ?_, ?_, ?_, ?_, ?_, ?_, ?_, ?_⟩ <;>
    exact Pattern.expr_fixed String.toList_ofList (by decide +kernel)

theorem settingsPatterns :
    booleanValue.expr = .seq (.group 1 (.chars "=>" (.rep (.one blanks) 0 none true)))
        (.seq (.group 2 (.alt (.literal "true".toList) (.literal "false".toList)))
          (.anchor (.wordEdge false))) ∧
      symbolKey.expr = .seq (.look 1 false (.one (.ofItems [.kind .word false false, .one ':'])))
        (.chars ":" (.seq (.group 1 (.seq (.one attributeLetters)
            (.rep (.one wordLetters) 0 none true)))
          (.group 2 (.seq (.rep (.one blanks) 0 none true) (.literal "=>".toList))))) := by
  refine ⟨?_, ?_⟩ <;>
    exact Pattern.expr_fixed String.toList_ofList (by decide +kernel)

/-! ### One repair after the other -/

@[simp] theorem mem_blanks (x : Char) : blanks.mem x = Text.isBlank x := by
  simp [blanks, Pattern.CharItem.mem, Pattern.CharKind.mem]

theorem all_blanks {s : List Char} (h : s.all blanks.mem = true) : s.all Text.isBlank = true := by
  rwa [show blanks.mem = Text.isBlank from funext mem_blanks] at h

/-- Whether every match of a repair, in any text, is replaced by something better. -/
def Advances (r : StockRepair) : Prop :=
  ∀ text m, r.pattern.expr.Hit text m → Improves m.text (r.replace text m)

/-- A fixed text gains on a text of a lower score. -/
theorem gains_of_lt {old new : List Char} (h : score old < score new) (hnew : '\r' ∉ new) :
    Gains old new :=
  ⟨fun _ => hnew, h⟩

/-- A repair that always puts in the same text. -/
theorem advances_always {pattern : Pattern} {e : Expr} {new : String} (hexpr : pattern.expr = e)
    (h : ∀ s g, e.Reads [] s g → Gains s new.toList) : Advances (always pattern new) := by
  intro text m hit
  obtain ⟨g, hread, -⟩ := hit.reads hexpr
  exact .inr (h m.text g hread)

/-- A repair of a word. -/
theorem advances_word {pattern : Pattern} (old : String) {new : String}
    (hexpr : pattern.expr = wordExpr old)
    (hscore : score old.toList < score new.toList) (hnew : '\r' ∉ new.toList) :
    Advances (always pattern new) := by
  apply advances_always hexpr
  intro s g hread
  rw [wordExpr, reads_seq_anchor, reads_chars] at hread
  obtain ⟨s', rfl, rfl, rfl⟩ := hread
  rw [List.append_nil]
  exact gains_of_lt hscore hnew

theorem advances_timeNow : Advances timeNowRepair :=
  advances_word "Time.now" wordPatterns.1 (by decide) (by decide)

theorem advances_dateTimeNow : Advances dateTimeNowRepair :=
  advances_word "DateTime.now" wordPatterns.2.1 (by decide) (by decide)

theorem advances_dateToday : Advances dateTodayRepair :=
  advances_word "Date.today" wordPatterns.2.2.1 (by decide) (by decide)

theorem advances_success : Advances successRepair := by
  obtain ⟨-, -, -, hexpr, -⟩ := wordPatterns
  apply advances_always hexpr
  intro s g hread
  rw [(reads_literal.mp hread).1]
  exact gains_of_lt (by decide) (by decide)

theorem advances_scoped : Advances scopedRepair := by
  obtain ⟨-, -, -, -, hexpr, -⟩ := wordPatterns
  apply advances_always hexpr
  intro s g hread
  obtain ⟨s', rfl, hrest⟩ := reads_chars.mp hread
  rw [reads_seq_anchor, reads_look] at hrest
  rw [hrest.1, List.append_nil]
  exact gains_of_lt (by decide) (by decide)

theorem advances_apiReference : Advances apiReferenceRepair := by
  obtain ⟨-, -, -, -, -, hexpr, -⟩ := wordPatterns
  apply advances_always hexpr
  intro s g hread
  rw [reads_seq_anchor, reads_literal] at hread
  rw [hread.1]
  exact gains_of_lt (by decide) (by decide)

theorem advances_moduleApi : Advances moduleApiRepair := by
  obtain ⟨-, -, -, -, -, -, hexpr⟩ := wordPatterns
  apply advances_always hexpr
  intro s g hread
  obtain ⟨_, rfl, gap, _, _, hgap, hrest, rfl⟩ := reads_chars.mp hread
  obtain ⟨-, hall, rfl⟩ := reads_run.mp hgap
  obtain ⟨_, rfl, rfl, rfl⟩ := reads_chars.mp hrest
  have hblank : Keeps gap " ".toList := keeps_blank (all_blanks hall) (by decide)
  have hname : Gains ("API".toList ++ []) "Api".toList := gains_of_lt (by decide) (by decide)
  have hnew : "module Api".toList = "module".toList ++ (" ".toList ++ "Api".toList) := by decide
  rw [hnew]
  exact (Keeps.refl _).append_gains (hblank.append_gains hname)

theorem advances_update : Advances updateRepair := by
  obtain ⟨hexpr, -⟩ := callPatterns
  intro text m hit
  obtain ⟨g, hread, hgroup⟩ := hit.reads hexpr
  obtain ⟨s, hs, g₁, -, rfl⟩ := reads_chars.mp hread
  have h₁ : m.group 1 = s := hgroup 1
  change Improves m.text (".update".toList ++ m.group 1)
  rw [hs, h₁]
  exact .inr ((gains_of_lt (by decide) (by decide)).append (.refl s))

/-- What is read as a call: its attributes and its arguments are the groups. -/
theorem reads_callExpr {s : List Char} {g : Pattern.Groups} (h : callExpr.Reads [] s g) :
    ∃ attributes arguments, s = attributes ++ "(".toList ++ arguments ++ ")".toList ∧
      g.lookup 1 = some attributes ∧ g.lookup 2 = some arguments := by
  obtain ⟨attributes, _, _, ⟨_, hattributes, rfl⟩, hrest, rfl⟩ := h
  obtain ⟨-, -, rfl⟩ := reads_run.mp hattributes
  obtain ⟨_, rfl, arguments, _, _, ⟨_, harguments, rfl⟩, ⟨⟨x, hx, rfl⟩, rfl⟩, rfl⟩ :=
    reads_chars.mp hrest
  obtain ⟨-, -, rfl⟩ := reads_run.mp harguments
  obtain rfl : x = ')' := by simpa using hx
  exact ⟨attributes, arguments, by simp, rfl, rfl⟩

/-- A call gains when its attributes become keywords, whatever its method is. -/
theorem improves_of_callExpr {m : Match} {s : List Char} {g : Pattern.Groups} (method : String)
    (hgroup : ∀ i, m.group i = (g.lookup i).getD []) (hcall : callExpr.Reads [] s g)
    (hmethod : '\r' ∉ method.toList)
    (htext : m.text = ".".toList ++ method.toList ++ "_".toList ++ s) :
    Improves m.text (keywordCall method m) := by
  obtain ⟨attributes, arguments, rfl, h₁, h₂⟩ := reads_callExpr hcall
  apply improves_keywordCall hmethod (hgroup 1) (hgroup 2)
  rw [htext, h₁, h₂]
  simp only [Option.getD_some, List.append_assoc]

theorem advances_findOrInitialize : Advances findOrInitializeRepair := by
  obtain ⟨-, hexpr, -⟩ := callPatterns
  intro text m hit
  obtain ⟨g, hread, hgroup⟩ := hit.reads hexpr
  obtain ⟨s, hs, hcall⟩ := reads_chars.mp hread
  exact improves_of_callExpr "find_or_initialize_by" hgroup hcall (by decide) hs

theorem advances_findOrCreate : Advances findOrCreateRepair := by
  obtain ⟨-, -, hexpr, -⟩ := callPatterns
  intro text m hit
  obtain ⟨g, hread, hgroup⟩ := hit.reads hexpr
  obtain ⟨s, hs, hcall⟩ := reads_chars.mp hread
  exact improves_of_callExpr "find_or_create_by" hgroup hcall (by decide) hs

theorem advances_findBy : Advances findByRepair := by
  obtain ⟨-, -, -, hexpr, -⟩ := callPatterns
  intro text m hit
  obtain ⟨g, hread, hgroup⟩ := hit.reads hexpr
  obtain ⟨s, hs, hrest⟩ := reads_chars.mp hread
  exact improves_of_callExpr "find_by" hgroup (reads_seq_look.mp hrest) (by decide) hs

theorem reads_argumentExpr {i : Nat} {s : List Char} {g g' : Pattern.Groups}
    (h : (argumentExpr i).Reads g s g') :
    ∃ argument, s = argument ++ ")".toList ∧ g' = (i, argument) :: g := by
  obtain ⟨argument, _, _, ⟨_, hargument, rfl⟩, ⟨⟨x, hx, rfl⟩, rfl⟩, rfl⟩ := h
  obtain ⟨-, -, rfl⟩ := reads_run.mp hargument
  obtain rfl : x = ')' := by simpa using hx
  exact ⟨argument, rfl, rfl⟩

theorem advances_exists : Advances existsRepair := by
  obtain ⟨-, -, -, -, hexpr, -⟩ := callPatterns
  intro text m hit
  obtain ⟨g, hread, hgroup⟩ := hit.reads hexpr
  obtain ⟨s, hs, hrest⟩ := reads_chars.mp hread
  obtain ⟨argument, rfl, rfl⟩ := reads_argumentExpr hrest
  have h₁ : m.group 1 = argument := hgroup 1
  change Improves m.text (".exists?(".toList ++ m.group 1 ++ ")".toList)
  rw [hs, h₁, List.append_assoc]
  exact .inr ((gains_of_lt (by decide) (by decide)).append (.refl _))

theorem advances_cgiEscape : Advances cgiEscapeRepair := by
  obtain ⟨-, -, -, -, -, hexpr, -⟩ := callPatterns
  intro text m hit
  obtain ⟨g, hread, hgroup⟩ := hit.reads hexpr
  obtain ⟨s, hs, hrest⟩ := reads_chars.mp hread
  obtain ⟨argument, rfl, rfl⟩ := reads_argumentExpr (reads_seq_look.mp hrest)
  have h₁ : m.group 1 = argument := hgroup 1
  change Improves m.text ("CGI.escape(".toList ++ m.group 1 ++ ".to_s)".toList)
  rw [hs, h₁, List.append_assoc]
  exact .inr ((Keeps.refl _).append_gains
    ((Keeps.refl _).append_gains (gains_of_lt (by decide) (by decide))))

theorem advances_uriEscape : Advances uriEscapeRepair := by
  obtain ⟨-, -, -, -, -, -, hexpr, -⟩ := callPatterns
  intro text m hit
  obtain ⟨g, hread, hgroup⟩ := hit.reads hexpr
  obtain ⟨_, hs, un, g₁, _, hun, hrest, rfl⟩ := reads_chars.mp hread
  obtain ⟨_, rfl, hargument⟩ := reads_chars.mp hrest
  obtain ⟨argument, rfl, rfl⟩ := reads_argumentExpr hargument
  have h₂ : m.group 2 = argument := hgroup 2
  have h₁ : m.group 1 = un := by
    rw [hgroup 1]
    obtain ⟨rfl, rfl⟩ | ⟨_, hliteral, rfl⟩ := reads_optional.mp hun
    · rfl
    · rfl
  -- An argument keeps its score when it is trimmed, and may get the ending that makes it a string.
  have htext : Keeps argument (if toText.reverse.isPrefixOf (Text.trim argument).reverse
      then Text.trim argument else Text.trim argument ++ toText) := by
    split
    · exact keeps_trim argument
    · have hgain : Keeps [] toText := ⟨fun _ => by decide, by decide⟩
      simpa using (keeps_trim argument).append hgain
  have hcall : cgiCall m = "CGI.".toList ++ (un ++ ("escape(".toList ++
      ((if toText.reverse.isPrefixOf (Text.trim argument).reverse
        then Text.trim argument else Text.trim argument ++ toText) ++ ")".toList))) := by
    unfold cgiCall
    rw [h₁, h₂]
    simp only [List.append_assoc]
  change Improves m.text (cgiCall m)
  rw [hcall, hs]
  exact .inr ((gains_of_lt (by decide) (by decide)).append
    ((Keeps.refl _).append ((Keeps.refl _).append (htext.append (.refl _)))))

theorem advances_presence : Advances presenceRepair := by
  obtain ⟨-, -, -, -, -, -, -, hexpr, -⟩ := callPatterns
  intro text m hit
  obtain ⟨g, hread, hgroup⟩ := hit.reads hexpr
  obtain ⟨name, _, _, ⟨_, hname, rfl⟩, hrest, hs⟩ := hread
  obtain ⟨-, -, rfl⟩ := reads_run.mp hname
  obtain ⟨_, rfl, gap, _, _, hgap, ⟨rfl, rfl⟩, rfl⟩ := reads_chars.mp hrest
  obtain ⟨-, hall, rfl⟩ := reads_run.mp hgap
  have h₁ : m.group 1 = name := hgroup 1
  change Improves m.text (presentMembers text m)
  unfold presentMembers
  simp only [h₁]
  split
  -- A plural name is the one case that changes the text, and there a call is put before the other.
  · have hblank : gap.all Text.isBlank = true := by
      rw [List.all_eq_true] at hall ⊢
      intro x hx
      have hx' : Text.isSpaceOrTab x = true := by
        simpa [Pattern.CharItem.mem, Text.isSpaceOrTab] using hall x hx
      exact (Text.isBlank_of_isSpaceOrTab hx').1
    have hgap' : Keeps (gap ++ []) [] := by
      rw [List.append_nil]
      exact keeps_blank hblank (by decide)
    have hcall : ".reject(&:blank?).present?".toList =
        ".reject(&:blank?).present?".toList ++ [] := (List.append_nil _).symm
    rw [hs, hcall]
    exact .inr ((Keeps.refl name).append_gains ((gains_of_lt (by decide) (by decide)).append hgap'))
  · exact .refl _

/-- The quotes that a boolean value gets are a gain. -/
theorem advances_booleanSettings : Advances booleanSettingsRepair := by
  obtain ⟨hexpr, -⟩ := settingsPatterns
  intro text m _
  apply improves_replaceAll
  intro b hit
  obtain ⟨g, hread, hgroup⟩ := hit.reads hexpr
  obtain ⟨arrow, _, _, ⟨_, harrow, rfl⟩, ⟨value, _, _, ⟨_, hvalue, rfl⟩, ⟨rfl, rfl⟩, rfl⟩, hs⟩ :=
    hread
  obtain ⟨_, -, hgap⟩ := reads_chars.mp harrow
  obtain ⟨-, -, rfl⟩ := reads_run.mp hgap
  -- Neither word sets a group.
  obtain rfl : _ = [(1, arrow)] := hvalue.elim (fun h => (reads_literal.mp h).2)
    fun h => (reads_literal.mp h).2
  have h₁ : b.group 1 = arrow := hgroup 1
  have h₂ : b.group 2 = value := hgroup 2
  rw [hs, h₁, h₂, List.append_assoc, List.append_assoc]
  have hquote : Gains [] "\x22".toList := gains_of_lt (by decide) (by decide)
  have hfirst : Gains value ("\x22".toList ++ value) := by
    simpa using hquote.append (Keeps.refl value)
  exact .inr ((Keeps.refl arrow).append_gains
    (by simpa using hfirst.append (t := []) ⟨hquote.plain, Int.le_of_lt hquote.score⟩))

/-- The quotes that a key gets are a gain. -/
theorem advances_symbolSettings : Advances symbolSettingsRepair := by
  obtain ⟨-, hexpr⟩ := settingsPatterns
  intro text m _
  apply improves_replaceAll
  intro k hit
  obtain ⟨g, hread, hgroup⟩ := hit.reads hexpr
  rw [reads_seq_look] at hread
  obtain ⟨_, hs, key, _, arrow, ⟨_, hkey, rfl⟩, ⟨_, harrow, rfl⟩, rfl⟩ := reads_chars.mp hread
  obtain ⟨_, _, _, ⟨-, rfl⟩, hword, -⟩ := hkey
  obtain ⟨-, -, rfl⟩ := reads_run.mp hword
  obtain ⟨_, _, _, hgap, hliteral, -⟩ := harrow
  obtain ⟨-, -, rfl⟩ := reads_run.mp hgap
  obtain ⟨-, rfl⟩ := reads_literal.mp hliteral
  have h₁ : k.group 1 = key := hgroup 1
  have h₂ : k.group 2 = arrow := hgroup 2
  rw [hs, h₁, h₂, List.append_assoc, List.append_assoc]
  have hopen : Gains ":".toList "\x22".toList := gains_of_lt (by decide) (by decide)
  have hclose : Keeps arrow ("\x22".toList ++ arrow) := by
    have hquote : Keeps [] "\x22".toList := ⟨fun _ => by decide, by decide⟩
    simpa using hquote.append (Keeps.refl arrow)
  exact .inr (hopen.append ((Keeps.refl key).append hclose))

theorem reads_quote {s : List Char} {g g' : Pattern.Groups}
    (h : (Expr.one quotes).Reads g s g') : score s = 1 ∧ '\r' ∉ s ∧ g' = g := by
  obtain ⟨⟨x, hx, rfl⟩, rfl⟩ := h
  obtain rfl | rfl : x = '"' ∨ x = '\'' := by simpa [quotes, Pattern.CharItem.mem] using hx
  · exact ⟨by decide, by decide, rfl⟩
  · exact ⟨by decide, by decide, rfl⟩

/-- The text of a group, once more. -/
theorem reads_again {i : Nat} {s t : List Char} {g g' : Pattern.Groups}
    (h : (Expr.again i .exact).Reads g s g') (ht : g.lookup i = some t) : s = t ∧ g' = g := by
  obtain ⟨⟨t', ht', hletters⟩, rfl⟩ := h
  rw [ht] at ht'
  obtain rfl := Option.some.inj ht'
  rw [Pattern.map_key_exact, Pattern.map_key_exact] at hletters
  exact ⟨hletters.symm, rfl⟩

theorem advances_hashCondition : Advances hashConditionRepair := by
  obtain ⟨-, -, -, -, -, -, -, -, hexpr⟩ := callPatterns
  intro text m hit
  obtain ⟨g, hread, hgroup⟩ := hit.reads hexpr
  obtain ⟨_, hs, outer, _, _, ⟨_, houter, rfl⟩, ⟨column, _, _, ⟨_, hcolumn, rfl⟩,
    ⟨gap, _, _, hgap, hequals, rfl⟩, rfl⟩, rfl⟩ := reads_chars.mp hread
  obtain ⟨_, rfl, gap', _, _, hgap', ⟨quote, _, _, ⟨_, hquote, rfl⟩, ⟨value, _, _,
    ⟨_, hvalue, rfl⟩, ⟨quote', _, _, hquote', ⟨outer', _, _, houter', ⟨⟨x, hx, rfl⟩, rfl⟩, rfl⟩,
    rfl⟩, rfl⟩, rfl⟩, rfl⟩ := reads_chars.mp hequals
  obtain ⟨houterScore, houterPlain, rfl⟩ := reads_quote houter
  obtain ⟨-, -, rfl⟩ := reads_run.mp hcolumn
  obtain ⟨-, hall, rfl⟩ := reads_run.mp hgap
  obtain ⟨-, hall', rfl⟩ := reads_run.mp hgap'
  obtain ⟨-, -, rfl⟩ := reads_quote hquote
  obtain ⟨-, -, rfl⟩ := reads_run.mp hvalue
  obtain ⟨rfl, rfl⟩ := reads_again hquote' rfl
  obtain ⟨rfl, rfl⟩ := reads_again houter' rfl
  have h₂ : m.group 2 = column := hgroup 2
  have h₃ : m.group 3 = quote' := hgroup 3
  have h₄ : m.group 4 = value := hgroup 4
  obtain rfl : x = ')' := by simpa using hx
  change Improves m.text (hashCondition m)
  unfold hashCondition
  rw [h₂, h₃, h₄, hs]
  right
  constructor
  · simp only [List.mem_append, not_or]
    rintro ⟨hwhere, -, hcolumn', -, -, -, hquote', hvalue', -, -, -⟩
    exact ⟨⟨⟨⟨⟨⟨hwhere, hcolumn'⟩, by decide⟩, hquote'⟩, hvalue'⟩, hquote'⟩, by decide⟩
  · -- The outer quotes and the sign are lost, and they are worth less than nothing together.
    have hsign : score "=".toList = -3 := by decide
    have hcolon : score ": ".toList = 0 := by decide
    have hclose : score [')'] = score ")".toList := by decide
    simp only [score_append, houterScore, score_of_blank (all_blanks hall),
      score_of_blank (all_blanks hall'), hsign, hcolon, hclose]
    omega

/-! ### All repairs -/

/-- Every repair of the library improves the texts that it is run on, or leaves them alone. -/
theorem advances_of_mem {entry : String × StockRepair} (h : entry ∈ repairs) :
    Advances entry.2 := by
  simp only [repairs, List.mem_cons, List.not_mem_nil, or_false] at h
  obtain rfl | rfl | rfl | rfl | rfl | rfl | rfl | rfl | rfl | rfl | rfl | rfl | rfl | rfl | rfl |
    rfl | rfl | rfl := h
  · exact advances_update
  · exact advances_success
  · exact advances_findOrInitialize
  · exact advances_findOrCreate
  · exact advances_exists
  · exact advances_findBy
  · exact advances_scoped
  · exact advances_hashCondition
  · exact advances_timeNow
  · exact advances_dateTimeNow
  · exact advances_dateToday
  · exact advances_uriEscape
  · exact advances_cgiEscape
  · exact advances_presence
  · exact advances_moduleApi
  · exact advances_apiReference
  · exact advances_booleanSettings
  · exact advances_symbolSettings

/-- What the repair for a source makes of a text. Without a repair it stays. -/
def stockStep (text : List Char) (source : String) : List Char :=
  (repairFor? source).elim text (·.apply text)

/-- One step leaves a text alone or adds to its score. -/
theorem improves_stockStep (text : List Char) (source : String) :
    Improves text (stockStep text source) := by
  unfold stockStep
  cases hrepair : repairFor? source with
  | none => exact .refl text
  | some r =>
    obtain ⟨before, after, hrepairs, -⟩ := List.lookup_eq_some_iff.mp hrepair
    have hmem : (source, r) ∈ repairs := by simp [hrepairs]
    exact improves_replaceAll fun m hit => advances_of_mem hmem text m hit

/-- Steps one after the other never take from the score. -/
theorem keeps_foldl_stockStep (sources : List String) (text : List Char) :
    Keeps text (sources.foldl stockStep text) := by
  induction sources generalizing text with
  | nil => exact .refl text
  | cons source sources ih => exact (improves_stockStep text source).keeps.trans (ih _)

/-- Steps that together leave a text as it was leave it alone one by one: what one of them adds to the
score, no other takes away. -/
theorem foldl_stockStep_eq_iff {sources : List String} {text : List Char} :
    sources.foldl stockStep text = text ↔ ∀ source ∈ sources, stockStep text source = text := by
  induction sources with
  | nil => simp
  | cons source sources ih =>
    rw [List.foldl_cons, List.forall_mem_cons]
    constructor
    · intro h
      obtain hsame | hgain := improves_stockStep text source
      · rw [hsame] at h
        exact ⟨hsame, ih.mp h⟩
      · -- The first step has added to the score, and the text at the end has not more than before.
        have hkeeps := keeps_foldl_stockStep sources (stockStep text source)
        rw [h] at hkeeps
        have hlt := hgain.score
        have hle := hkeeps.score
        omega
    · rintro ⟨hfirst, hrest⟩
      rw [hfirst]
      exact ih.mpr hrest

end RailsUpgrade.Catalogue
