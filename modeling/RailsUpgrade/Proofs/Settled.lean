import RailsUpgrade.Proofs.Collections

/-!
# `RailsUpgrade.Proofs.Settled`: repairs of the library leave nothing for themselves

A repair is run once on every text. If it were run on its own result it would change nothing, with
one exception: what the repair of conditions makes of nested quotes may be a condition again.

* `settling_argued`, `settling_finder`: calls whose method changes, with their argument or with the
  attributes in their name;
* `settling_opensApi`, `settling_flag`, `settling_symbolKey`: texts with a gap in them;
* `ChangesHash`, `hashed_settles`: hashes of settings, which are found again where they were;
* `apply_apply_of_mem`: the second run of a repair changes nothing.
-/

set_option autoImplicit false

namespace RailsUpgrade.Catalogue

open Pattern (Expr Match Pass Meets Settling framed noChar settling_listed meets_of_append_eq
  not_meets_cons not_meets_suffix not_meets_append suffix_append_cases meets_cancel eq_of_meets_cons
  exists_of_meets)

/-! ### Brackets -/

section

variable {argument argument' s t tail : List Char}

theorem find?_flat (h : argument.all noBrackets.mem = true) : argument.find? isBracket = none := by
  rw [List.find?_eq_none]
  intro c hc
  simpa using List.all_eq_true.mp h c hc

/-- Of the brackets, the closing one comes first behind any part of an argument. -/
theorem find?_argument (h : argument.all noBrackets.mem = true) (htail : tail <:+ argument ++ [')'])
    (hne : tail ≠ []) : tail.find? isBracket = some ')' := by
  rcases suffix_append_cases htail with hend | ⟨u, hu, -, rfl⟩
  · rcases List.suffix_cons_iff.mp hend with rfl | hnil
    · rfl
    · exact absurd (List.suffix_nil.mp hnil) hne
  · have hflat : u.all noBrackets.mem = true :=
      List.all_eq_true.mpr fun c hc => List.all_eq_true.mp h c (hu.subset hc)
    rw [List.find?_append, find?_flat hflat]
    rfl

/-- No part of an argument meets a text with an opening bracket first. -/
theorem not_meets_argument (h : argument.all noBrackets.mem = true)
    (htail : tail <:+ argument ++ [')']) (hne : tail ≠ []) (ht : t.find? isBracket = some '(') :
    ¬ Meets tail t := fun hmeets =>
  absurd (hmeets.find?_eq (find?_argument h htail hne) ht) (by decide)

/-- Arguments that meet, each with its bracket, are the same. -/
theorem argument_unique (h : argument.all noBrackets.mem = true)
    (h' : argument'.all noBrackets.mem = true)
    (hmeets : Meets (argument ++ [')']) (argument' ++ [')'])) : argument = argument' := by
  obtain ⟨r, m, heq⟩ := exists_of_meets hmeets
  have heq' : argument ++ ')' :: r = argument' ++ ')' :: m := by simpa using heq
  exact (Gemfile.run_unique h h' (by decide) (by decide) heq').1

theorem find?_append_of_some {c : Char} (h : s.find? isBracket = some c) (t : List Char) :
    (s ++ t).find? isBracket = some c := by
  rw [List.find?_append, h]
  rfl

end

/-! ### Calls with an argument -/

theorem settling_argued {heads : List (List Char × List Char)} {good : List Char → Prop}
    {change : List Char → List Char}
    (hbracket : ∀ x ∈ heads, x.1.find? isBracket = some '(' ∧ x.2.find? isBracket = some '(')
    (hinside : ∀ x ∈ heads, ∀ y ∈ heads, ∀ tail ∈ x.1.tail.tails, tail ≠ [] → ¬ Meets tail y.2)
    (hfresh : ∀ x ∈ heads, ∀ y ∈ heads, ∀ tail ∈ x.2.tails, tail ≠ [] → Meets tail y.1 →
      tail = x.2 ∧ x.2 = y.1)
    (hflat : ∀ argument : List Char, argument.all noBrackets.mem = true →
      (change argument).all noBrackets.mem = true)
    (hdone : (∀ x ∈ heads, ∀ y ∈ heads, x.2 ≠ y.1) ∨ ∀ argument, ¬ good (change argument)) :
    Settling noChar noChar (Argued heads good change) where
  taken_ne := by
    rintro taken new ⟨x, hx, argument, hne, -, -, rfl, -⟩
    simp
  new_ne := by
    rintro taken new ⟨x, hx, argument, hne, -, -, -, rfl⟩
    simp
  lasts _ := by simp
  heads _ := by simp
  inside := by
    rintro taken new taken' new' tail ⟨x, hx, argument, hne, hargument, -, rfl, -⟩
      ⟨y, hy, argument', -, -, -, -, rfl⟩ htail htailNe hmeets
    have hsome : x.1 ≠ [] := fun hnil => by simpa [hnil] using (hbracket x hx).1
    rw [List.tail_append_of_ne_nil hsome] at htail
    rcases suffix_append_cases htail with hin | ⟨u, hu, hune, rfl⟩
    · exact not_meets_argument hargument hin htailNe
        (find?_append_of_some (hbracket y hy).2 _) hmeets
    · exact hinside x hx y hy u ((List.mem_tails _ _).mpr hu) hune hmeets.of_append
  fresh := by
    rintro taken new taken' new' tail ⟨x, hx, argument, hne, hargument, -, -, rfl⟩
      ⟨y, hy, argument', -, hargument', hgood, rfl, -⟩ htail htailNe hmeets
    rcases suffix_append_cases htail with hin | ⟨u, hu, hune, rfl⟩
    · exact absurd hmeets (not_meets_argument (hflat _ hargument) hin htailNe
        (find?_append_of_some (hbracket y hy).1 _))
    · -- The call has been repaired before.
      obtain ⟨rfl, hsame⟩ := hfresh x hx y hy u ((List.mem_tails _ _).mpr hu) hune hmeets.of_append
      rw [hsame] at hmeets
      have hbad := hdone.resolve_left (fun h => h x hx y hy hsame) argument
      rw [argument_unique (hflat _ hargument) hargument' (meets_cancel hmeets)] at hbad
      exact absurd hgood hbad

theorem settling_memberCalls : Settling noChar noChar (Argued memberCalls (fun _ => True) id) :=
  settling_argued (by decide) (by decide) (by decide) (fun _ h => h) (.inl (by decide))

theorem settling_escapeCalls : Settling noChar noChar (Argued escapeCalls Untold (· ++ toText)) :=
  settling_argued (by decide) (by decide) (by decide)
    (fun argument h => by rw [List.all_append, h]; decide)
    (.inr fun argument hgood => hgood (List.suffix_append argument toText))

theorem flat_asText {argument : List Char} (h : argument.all noBrackets.mem = true) :
    (asText argument).all noBrackets.mem = true := by
  have htrim : (Text.trim argument).all noBrackets.mem = true :=
    List.all_eq_true.mpr fun c hc => List.all_eq_true.mp h c (Text.mem_of_mem_trim hc)
  unfold asText
  split
  · exact htrim
  · rw [List.all_append, htrim]
    decide

theorem settling_addressCalls : Settling noChar noChar (Argued addressCalls (fun _ => True) asText) :=
  settling_argued (by decide) (by decide) (by decide) (fun _ => flat_asText)
    (.inl (by decide))

/-! ### Calls with attributes in their name -/

section

variable {old new : String} {good : List Char → Prop} {lead argument t tail : List Char}

/-- Behind the dot of a call no call begins that has another dot in front. -/
theorem not_meets_call (hlead : '.' ∉ lead) (hargument : argument.all noBrackets.mem = true)
    (ht : t.find? isBracket = some '(') (hdot : t.head? = some '.')
    (htail : tail <:+ lead ++ (argument ++ [')'])) (hne : tail ≠ []) : ¬ Meets tail t := by
  rcases suffix_append_cases htail with hin | ⟨u, hu, hune, rfl⟩
  · exact not_meets_argument hargument hin hne ht
  · obtain ⟨t, rfl⟩ : ∃ rest, t = '.' :: rest := by
      cases t with
      | nil => cases hdot
      | cons x rest => exact ⟨rest, by rw [Option.some.inj hdot]⟩
    exact not_meets_append hlead hu hune _

theorem finderCall_eq (old : String) (attributes arguments : List Char) :
    finderCall old attributes arguments =
      (old.toList ++ (attributes ++ ['('])) ++ (arguments ++ [')']) := by
  simp [finderCall]

/-- What a text with one dot in front has behind it. -/
structure Dotted (s : String) : Prop where
  head : s.toList.head? = some '.'
  tail : '.' ∉ s.toList.tail

theorem Dotted.eq {s : String} (h : Dotted s) : s.toList = '.' :: s.toList.tail := by
  have hhead := h.head
  cases hs : s.toList with
  | nil => simp [hs] at hhead
  | cons x rest =>
    rw [hs] at hhead
    rw [Option.some.inj hhead]
    rfl

theorem notMem_of_attributes {s : List Char} (h : s.all attributeLetters.mem = true) {c : Char}
    (hc : Text.isWord c = false) : c ∉ s := by
  intro hmem
  have hword := isWord_of_attributeLetters (List.all_eq_true.mp h c hmem)
  rw [hc] at hword
  cases hword

/-- Calls that meet are the same. -/
theorem finderCall_unique {attributes attributes' arguments arguments' : List Char}
    (hletters : attributes.all attributeLetters.mem = true)
    (hletters' : attributes'.all attributeLetters.mem = true)
    (hflat : arguments.all noBrackets.mem = true) (hflat' : arguments'.all noBrackets.mem = true)
    (h : Meets (finderCall old attributes arguments) (finderCall old attributes' arguments')) :
    attributes = attributes' ∧ arguments = arguments' := by
  obtain ⟨r, m, heq⟩ := exists_of_meets (meets_cancel h)
  have heq' : attributes ++ '(' :: (arguments ++ ([')'] ++ r)) =
      attributes' ++ '(' :: (arguments' ++ ([')'] ++ m)) := by simpa using heq
  obtain ⟨rfl, -, hrest⟩ := Gemfile.run_unique hletters hletters' (by decide) (by decide) heq'
  refine ⟨rfl, argument_unique hflat hflat' ?_⟩
  rw [← List.append_assoc, ← List.append_assoc] at hrest
  exact meets_of_append_eq hrest

/-- A call begins with a dot, and its first bracket opens its arguments. -/
theorem head_finderCall (hold : Dotted old) (hflatOld : old.toList.all noBrackets.mem = true)
    {attributes arguments : List Char} (hletters : attributes.all attributeLetters.mem = true) :
    (finderCall old attributes arguments).find? isBracket = some '(' ∧
      (finderCall old attributes arguments).head? = some '.' := by
  constructor
  · rw [finderCall, List.find?_append, find?_flat hflatOld, List.find?_append,
      find?_flat (flat_of_attributes hletters)]
    rfl
  · rw [finderCall, hold.eq]
    rfl

/-- No call begins inside another one. -/
theorem not_meets_inside (hold : Dotted old) {attributes arguments : List Char}
    (hletters : attributes.all attributeLetters.mem = true)
    (hflat : arguments.all noBrackets.mem = true) (ht : t.find? isBracket = some '(')
    (hdot : t.head? = some '.') (htail : tail <:+ (finderCall old attributes arguments).tail)
    (hne : tail ≠ []) : ¬ Meets tail t := by
  have hdots : '.' ∉ old.toList.tail ++ (attributes ++ ['(']) := by
    rw [List.mem_append, List.mem_append, not_or, not_or]
    exact ⟨hold.tail, notMem_of_attributes hletters (by decide), by decide⟩
  refine not_meets_call hdots hflat ht hdot ?_ hne
  rwa [finderCall_eq, hold.eq] at htail

theorem settling_finder (hold : Dotted old) (hnew : Dotted new)
    (hflatOld : old.toList.all noBrackets.mem = true)
    (hbracket : new.toList.find? isBracket = some '(')
    (hapart : ¬ Meets new.toList old.toList) :
    Settling noChar noChar (Finder old new good) := by
  have hfind : ∀ {attributes arguments : List Char}, attributes.all attributeLetters.mem = true →
      (finderCall old attributes arguments).find? isBracket = some '(' ∧
        (finderCall old attributes arguments).head? = some '.' := head_finderCall hold hflatOld
  -- The text that is put in begins with a dot and has an opening bracket first as well.
  have hresult : ∀ {taken result}, Finder old new good taken result →
      result.find? isBracket = some '(' ∧ result.head? = some '.' := by
    rintro taken result ⟨attributes, arguments, -, hletters, -, -, rfl, rfl⟩
    cases keywords? attributes arguments with
    | none => exact hfind hletters
    | some list =>
      refine ⟨find?_append_of_some hbracket _, ?_⟩
      rw [Option.elim_some, hnew.eq]
      rfl
  refine
    { taken_ne := ?_, new_ne := ?_, lasts := fun _ => by simp, heads := fun _ => by simp,
      inside := ?_, fresh := ?_ }
  · rintro taken result ⟨attributes, arguments, -, hletters, -, -, rfl, -⟩ hnil
    have hfirst : (finderCall old attributes arguments).find? isBracket = some '(' :=
      (hfind hletters).1
    rw [hnil] at hfirst
    cases hfirst
  · intro taken result h hnil
    have hfirst := (hresult h).1
    rw [hnil] at hfirst
    cases hfirst
  · rintro taken result taken' result' tail ⟨attributes, arguments, -, hletters, hflat, -, rfl, -⟩
      hfinder htail hne
    exact not_meets_inside hold hletters hflat (hresult hfinder).1 (hresult hfinder).2 htail hne
  · rintro taken result taken' result' tail ⟨attributes, arguments, -, hletters, hflat, -, rfl, hres⟩
      ⟨attributes', arguments', -, hletters', hflat', -, rfl, hres'⟩ htail hne hmeets
    cases hkeywords : keywords? attributes arguments with
    | some list =>
      -- Keywords were put in. They do not begin like the old method.
      rw [hkeywords, Option.elim_some, hnew.eq] at hres
      subst hres
      rw [List.cons_append] at htail
      rcases List.suffix_cons_iff.mp htail with rfl | htail
      · rw [← List.cons_append, ← hnew.eq] at hmeets
        exact absurd (Meets.of_append hmeets) hapart
      · exact absurd hmeets (not_meets_call hnew.tail
          (flat_of_keywords? (flat_of_attributes hletters) hflat hkeywords) (hfind hletters').1
          (hfind hletters').2 htail hne)
    | none =>
      -- The call was left as it is, and is found again as a whole.
      rw [hkeywords, Option.elim_none] at hres
      subst hres
      have hwhole : tail = finderCall old attributes arguments := by
        have hcons : finderCall old attributes arguments =
            '.' :: (finderCall old attributes arguments).tail := by
          rw [finderCall, hold.eq]
          rfl
        rw [hcons] at htail
        rcases List.suffix_cons_iff.mp htail with htail | htail
        · rw [htail, ← hcons]
        · exact absurd hmeets
            (not_meets_inside hold hletters hflat (hfind hletters').1 (hfind hletters').2 htail hne)
      subst hwhole
      obtain ⟨rfl, rfl⟩ := finderCall_unique hletters hletters' hflat hflat' hmeets
      rw [hkeywords, Option.elim_none] at hres'
      exact ⟨rfl, rfl, hres'⟩

end

/-! ### The module of an interface -/

theorem settling_opensApi : Settling noChar Text.isWord OpensApi := by
  have hm : 'm' ∉ "odule Api".toList := by decide
  have htail : ∀ {gap : List Char}, gap.all Text.isBlank = true →
      'm' ∉ ("module".toList ++ (gap ++ "API".toList)).tail := by
    intro gap hgap
    show 'm' ∉ "odule".toList ++ (gap ++ "API".toList)
    rw [List.mem_append, List.mem_append, not_or, not_or]
    exact ⟨by decide, Migration.Helper.notMem_of_blank hgap (by decide), by decide⟩
  refine
    { taken_ne := ?_, new_ne := ?_, lasts := fun _ => by simp, heads := ?_, inside := ?_,
      fresh := ?_ }
  · rintro taken new ⟨gap, -, -, rfl, -⟩
    simp
  · rintro taken new ⟨gap, -, -, -, rfl⟩
    decide
  · rintro taken new ⟨gap, -, -, rfl, rfl⟩
    rfl
  · rintro taken new taken' new' tail ⟨gap, -, hgap, rfl, -⟩ ⟨-, -, -, -, rfl⟩ hsuffix hne
    exact not_meets_suffix (htail hgap) hsuffix hne
  · rintro taken new taken' new' tail ⟨-, -, -, -, rfl⟩ ⟨gap, hgapNe, hgap, rfl, -⟩ hsuffix hne hmeets
    obtain rfl : tail = "module Api".toList := eq_of_meets_cons hm hsuffix hne hmeets
    obtain ⟨x, gap, rfl⟩ := List.exists_cons_of_ne_nil hgapNe
    have hrest : Meets " Api".toList ((x :: gap) ++ "API".toList) :=
      meets_cancel (s := "module".toList) hmeets
    -- One blank of the gap is the space, and the name does not begin with another one.
    have hname : Meets "Api".toList (gap ++ "API".toList) := by
      rcases hrest with h | h
      · exact .inl (List.cons_prefix_cons.mp h).2
      · exact .inr (List.cons_prefix_cons.mp h).2
    cases gap with
    | nil => exact absurd hname (by decide)
    | cons y gap =>
      have hy : y = 'A' := by
        rcases hname with h | h
        · exact (List.cons_prefix_cons.mp h).1.symm
        · exact (List.cons_prefix_cons.mp h).1
      have hblank : Text.isBlank y = true := List.all_eq_true.mp hgap y (by simp)
      rw [hy] at hblank
      exact absurd hblank (by decide)

/-! ### Values and keys of a hash -/

theorem settling_flag : Settling noChar Text.isWord Flag := by
  have hequals : ∀ (quote : List Char) {gap value : List Char}, gap.all Text.isBlank = true →
      (value = "true".toList ∨ value = "false".toList) → '=' ∉ quote →
      '=' ∉ '>' :: (gap ++ (quote ++ (value ++ quote))) := by
    intro quote gap value hgap hvalue hquote
    have hword : '=' ∉ value := by rcases hvalue with rfl | rfl <;> decide
    simp only [List.mem_cons, List.mem_append, not_or]
    exact ⟨by decide, Migration.Helper.notMem_of_blank hgap (by decide), hquote, hword, hquote⟩
  refine
    { taken_ne := ?_, new_ne := ?_, lasts := fun _ => by simp, heads := ?_, inside := ?_,
      fresh := ?_ }
  · rintro taken new ⟨gap, value, -, -, rfl, -⟩
    simp
  · rintro taken new ⟨gap, value, -, -, -, rfl⟩
    simp
  · rintro taken new ⟨gap, value, -, -, rfl, rfl⟩
    rfl
  -- Every replacement starts with the sign of equality, and a hit holds it at its front only.
  · rintro taken new taken' new' tail ⟨gap, value, hgap, hvalue, rfl, -⟩ ⟨gap', value', -, -, -, rfl⟩
      hsuffix hne
    refine not_meets_suffix (hequals [] hgap hvalue (by simp)) ?_ hne
    simpa using hsuffix
  -- A hit can begin only at the front of a replacement, where a quote now stands before the value.
  · rintro taken new taken' new' tail ⟨gap, value, hgap, hvalue, -, rfl⟩
      ⟨gap', value', hgap', hvalue', rfl, -⟩ hsuffix hne hmeets
    have hwhole : tail = "=>".toList ++ (gap ++ '"' :: (value ++ ['"'])) :=
      eq_of_meets_cons (hequals ['"'] hgap hvalue (by decide)) hsuffix hne hmeets
    subst hwhole
    obtain ⟨r, m, heq⟩ := exists_of_meets (meets_cancel hmeets)
    have heq' : gap ++ '"' :: (value ++ '"' :: r) = gap' ++ (value' ++ m) := by simpa using heq
    have hvalueHead : (value' ++ m).head?.any Text.isBlank = false := by
      rcases hvalue' with rfl | rfl
      · exact show Text.isBlank 't' = false by decide
      · exact show Text.isBlank 'f' = false by decide
    have hquoteHead : ('"' :: (value ++ '"' :: r)).head?.any Text.isBlank = false :=
      show Text.isBlank '"' = false by decide
    obtain ⟨-, hquote⟩ := Text.span_unique hgap hgap' hquoteHead hvalueHead heq'
    rcases hvalue' with rfl | rfl
    · exact absurd (List.cons_eq_cons.mp hquote).1 (by decide)
    · exact absurd (List.cons_eq_cons.mp hquote).1 (by decide)

theorem settling_symbolKey : Settling symbolGuard noChar SymbolKey := by
  have hnot : ∀ {x c : Char} {word gap : List Char}, attributeLetters.mem x = true →
      word.all Text.isWord = true → gap.all Text.isBlank = true → Text.isWord c = false →
      Text.isBlank c = false → c ∉ "=>".toList → c ∉ x :: word ∧ c ∉ gap ++ "=>".toList := by
    intro x c word gap hx hword hgap hcWord hcBlank hc
    have hcx : c ≠ x := by
      rintro rfl
      rw [isWord_of_attributeLetters hx] at hcWord
      cases hcWord
    rw [List.mem_cons, List.mem_append, not_or, not_or]
    exact ⟨⟨hcx, Migration.Helper.notMem_of_word hword hcWord⟩,
      Migration.Helper.notMem_of_blank hgap hcBlank, hc⟩
  refine
    { taken_ne := ?_, new_ne := ?_, lasts := ?_, heads := fun _ => by simp, inside := ?_,
      fresh := ?_ }
  · rintro taken new ⟨x, word, gap, -, -, -, rfl, -⟩
    simp
  · rintro taken new ⟨x, word, gap, -, -, -, -, rfl⟩
    simp
  · rintro taken new ⟨x, word, gap, -, -, -, rfl, rfl⟩
    have hlast : ∀ s : List Char, (s ++ "=>".toList).getLast? = some '>' := by simp
    rw [show '"' :: (x :: word ++ '"' :: (gap ++ "=>".toList)) =
        ('"' :: (x :: word ++ '"' :: gap)) ++ "=>".toList by simp,
      show ':' :: (x :: word ++ (gap ++ "=>".toList)) = (':' :: (x :: word ++ gap)) ++ "=>".toList
        by simp, hlast, hlast]
  -- Every replacement starts with a quote, and no hit holds one.
  · rintro taken new taken' new' tail ⟨x, word, gap, hx, hword, hgap, rfl, -⟩
      ⟨x', word', gap', -, -, -, -, rfl⟩ hsuffix hne
    obtain ⟨hkey, harrow⟩ := hnot (c := '"') hx hword hgap (by decide) (by decide) (by decide)
    refine not_meets_suffix ?_ hsuffix hne
    rw [List.tail_cons, List.mem_append, not_or]
    exact ⟨hkey, harrow⟩
  -- Every hit starts with a colon, and no replacement holds one.
  · rintro taken new taken' new' tail ⟨x, word, gap, hx, hword, hgap, -, rfl⟩
      ⟨x', word', gap', -, -, -, rfl, -⟩ hsuffix hne hmeets
    obtain ⟨hkey, harrow⟩ := hnot (c := ':') hx hword hgap (by decide) (by decide) (by decide)
    refine absurd hmeets (not_meets_suffix ?_ hsuffix hne)
    rw [List.mem_cons, not_or]
    refine ⟨by decide, fun hmem => ?_⟩
    rcases List.mem_append.mp hmem with hmem | hmem
    · exact hkey hmem
    · exact (List.mem_cons.mp hmem).elim (by decide) harrow

/-! ### Hashes of settings -/

/-- A hash in a text, from its first character on. -/
theorem hashText_append (gap gap' body after : List Char) : hashText gap gap' body ++ after =
    's' :: ((hashLead gap gap').tail ++ (body ++ '}' :: after)) := by
  have hlead : hashLead gap gap' = 's' :: (hashLead gap gap').tail := rfl
  rw [hashText_eq, List.append_assoc, List.append_assoc, hlead]
  rfl

section

variable {gap gap' body gap₁ gap₁' body₁ : List Char}

/-- Hashes that meet are the same. -/
theorem hashText_unique {r m : List Char} (hgap : gap.all Text.isBlank = true)
    (hgap' : gap'.all Text.isBlank = true) (hbody : '}' ∉ body) (hgap₁ : gap₁.all Text.isBlank = true)
    (hgap₁' : gap₁'.all Text.isBlank = true) (hbody₁ : '}' ∉ body₁)
    (h : hashText gap gap' body ++ r = hashText gap₁ gap₁' body₁ ++ m) :
    hashText gap gap' body = hashText gap₁ gap₁' body₁ := by
  unfold hashText at h
  simp only [List.append_assoc] at h
  have hsign : gap ++ '=' :: _ = gap₁ ++ '=' :: _ := List.append_cancel_left h
  obtain ⟨rfl, -, hrest⟩ := Gemfile.run_unique hgap hgap₁ (by decide) (by decide) hsign
  have hopen : gap' ++ '\x7b' :: _ = gap₁' ++ '\x7b' :: _ := hrest
  obtain ⟨rfl, -, hrest'⟩ := Gemfile.run_unique hgap' hgap₁' (by decide) (by decide) hopen
  have hclose : body ++ '}' :: r = body₁ ++ '}' :: m := hrest'
  obtain ⟨rfl, -⟩ := Gemfile.run_unique (all_inHash.mpr hbody) (all_inHash.mpr hbody₁) (by decide)
    (by decide) hclose
  rfl

/-- What may stand between the name of a hash and its opening brace. -/
theorem notMem_hashGap {x : Char} (hgap : gap.all Text.isBlank = true)
    (hgap' : gap'.all Text.isBlank = true) (hblank : Text.isBlank x = false)
    (hx : x ∉ "=".toList ++ "\x7b".toList) :
    x ∉ gap ++ ("=".toList ++ (gap' ++ "\x7b".toList)) := by
  rw [List.mem_append, not_or] at hx
  simp only [List.mem_append, not_or]
  exact ⟨Migration.Helper.notMem_of_blank hgap hblank, hx.1,
    Migration.Helper.notMem_of_blank hgap' hblank, hx.2⟩

/-- No other hash begins between the first character of a hash and its opening brace. -/
theorem not_meets_hashText {tail : List Char} (hgap : gap.all Text.isBlank = true)
    (hgap' : gap'.all Text.isBlank = true) (htail : tail <:+ (hashLead gap gap').tail)
    (hne : tail ≠ []) : ¬ Meets tail (hashText gap₁ gap₁' body₁) := by
  have hs := notMem_hashGap (x := 's') hgap hgap' (by decide) (by decide)
  have he := notMem_hashGap (x := 'e') hgap hgap' (by decide) (by decide)
  generalize hbehind : gap ++ ("=".toList ++ (gap' ++ "\x7b".toList)) = behind at hs he
  have hlead : (hashLead gap gap').tail = "etting".toList ++ ('s' :: behind) := by
    rw [← hbehind]
    rfl
  have hhash : hashText gap₁ gap₁' body₁ = 's' :: 'e' :: ("ttings".toList ++ (gap₁ ++ ("=".toList ++
      (gap₁' ++ ("\x7b".toList ++ (body₁ ++ ['}'])))))) := rfl
  have hbehindNe : behind ≠ [] := by
    rw [← hbehind]
    simp
  rw [hhash]
  rw [hlead] at htail
  rcases suffix_append_cases htail with hin | ⟨u, hu, hune, rfl⟩
  · rcases List.suffix_cons_iff.mp hin with rfl | hin
    · -- The last letter of the name is its first one, too, but it ends the name.
      intro hmeets
      exact not_meets_cons he hbehindNe (meets_cancel (s := ['s']) hmeets)
    · exact not_meets_suffix hs hin hne
  · exact not_meets_append (by decide) hu hune _

end

/-- What a change must make of hashes: a hash with the same beginning, and nothing the second time. -/
structure ChangesHash (change : List Char → List Char) : Prop where
  hash : ∀ {gap gap' body : List Char}, gap.all Text.isBlank = true → gap'.all Text.isBlank = true →
    '}' ∉ body → ∃ body', '}' ∉ body' ∧ change (hashText gap gap' body) = hashText gap gap' body'
  again : ∀ s, change (change s) = change s

theorem changesHash_of_swaps {e : Expr} {f : Match → List Char} {p q : Char → Bool}
    {shape : List Char → List Char → Prop} (hswaps : e.Swaps f (framed p q shape))
    (hsettling : Settling p q shape)
    (hbrace : ∀ taken new, shape taken new → '}' ∉ taken ∧ '}' ∉ new)
    (hlead : ∀ gap gap' : List Char, gap.all Text.isBlank = true → gap'.all Text.isBlank = true →
      ∀ taken new, shape taken new → ∀ tail, tail <:+ hashLead gap gap' → tail ≠ [] →
        ¬ Meets tail taken) : ChangesHash (e.replaceAll f) where
  hash := by
    intro gap gap' body hgap hgap' hbody
    have hpass := Pattern.pass_replaceAll hswaps (hashText gap gap' body)
    nth_rewrite 1 [hashText_eq] at hpass
    obtain ⟨more, hresult, hpass⟩ := hpass.skip fun lead tail taken after new hpart hne htext hswap =>
      hlead gap gap' hgap hgap' taken new hswap.1 tail ⟨lead, hpart.symm⟩ hne (meets_of_append_eq htext)
    obtain ⟨body', rest, rfl, hpass, hnot⟩ := hpass.past fun _ _ _ _ hswap => (hbrace _ _ hswap.1).1
    obtain rfl := hpass.eq_nil
    refine ⟨body', hnot (fun _ _ _ _ hswap => (hbrace _ _ hswap.1).2) hbody, ?_⟩
    rw [hresult, hashText_eq]
  again := hsettling.replaceAll_replaceAll hswaps

section

variable {gap gap' taken new tail : List Char}

/-- No boolean value holds a closing brace. -/
theorem Flag.notMem (h : Flag taken new) : '}' ∉ taken ∧ '}' ∉ new := by
  obtain ⟨gap, value, hgap, hvalue, rfl, rfl⟩ := h
  have hword : '}' ∉ value := by rcases hvalue with rfl | rfl <;> decide
  have hblank : '}' ∉ gap := Migration.Helper.notMem_of_blank hgap (by decide)
  simp [hword, hblank]

/-- No boolean value begins in front of the opening brace of a hash. -/
theorem Flag.not_meets (h : Flag taken new) (hgap : gap.all Text.isBlank = true)
    (hgap' : gap'.all Text.isBlank = true) (htail : tail <:+ hashLead gap gap') (hne : tail ≠ []) :
    ¬ Meets tail taken := by
  obtain ⟨gap₁, value, -, -, rfl, -⟩ := h
  have hbehind : ∀ x, Text.isBlank x = false → x ≠ '\x7b' → x ∉ gap' ++ "\x7b".toList := by
    intro x hx hbrace
    rw [List.mem_append, not_or]
    exact ⟨Migration.Helper.notMem_of_blank hgap' hx, by simpa using hbrace⟩
  have hlead : hashLead gap gap' = ("settings".toList ++ gap) ++ ('=' :: (gap' ++ "\x7b".toList)) := by
    unfold hashLead
    simp
  rw [hlead] at htail
  rcases suffix_append_cases htail with hin | ⟨u, hu, hune, rfl⟩
  · rcases List.suffix_cons_iff.mp hin with rfl | hin
    · -- The sign in front of the brace belongs to no arrow.
      intro hmeets
      exact not_meets_cons (hbehind '>' (by decide) (by decide)) (by simp)
        (meets_cancel (s := ['=']) hmeets)
    · exact not_meets_suffix (hbehind '=' (by decide) (by decide)) hin hne
  · refine not_meets_append ?_ hu hune _
    rw [List.mem_append, not_or]
    exact ⟨by decide, Migration.Helper.notMem_of_blank hgap (by decide)⟩

/-- No key holds a closing brace. -/
theorem SymbolKey.notMem (h : SymbolKey taken new) : '}' ∉ taken ∧ '}' ∉ new := by
  obtain ⟨x, word, gap, hx, hword, hgap, rfl, rfl⟩ := h
  have hbrace : Text.isWord '}' = false := by decide
  have hfirst : '}' ≠ x := by
    rintro rfl
    rw [isWord_of_attributeLetters hx] at hbrace
    cases hbrace
  have hrest : '}' ∉ word := Migration.Helper.notMem_of_word hword hbrace
  have hblank : '}' ∉ gap := Migration.Helper.notMem_of_blank hgap (by decide)
  simp [hfirst, hrest, hblank]

/-- No key begins in front of the opening brace of a hash. -/
theorem SymbolKey.not_meets (h : SymbolKey taken new) (hgap : gap.all Text.isBlank = true)
    (hgap' : gap'.all Text.isBlank = true) (htail : tail <:+ hashLead gap gap') (hne : tail ≠ []) :
    ¬ Meets tail taken := by
  obtain ⟨x, word, gap₁, -, -, -, rfl, -⟩ := h
  refine not_meets_suffix ?_ htail hne
  unfold hashLead
  rw [List.mem_append, not_or]
  exact ⟨by decide, notMem_hashGap hgap hgap' (by decide) (by decide)⟩

end

theorem changesHash_flag : ChangesHash (booleanValue.expr.replaceAll
    fun b => b.group 1 ++ "\x22".toList ++ b.group 2 ++ "\x22".toList) :=
  changesHash_of_swaps swaps_flag settling_flag (fun _ _ => Flag.notMem)
    fun _ _ hgap hgap' _ _ hflag _ => hflag.not_meets hgap hgap'

theorem changesHash_symbolKey : ChangesHash (symbolKey.expr.replaceAll
    fun k => "\x22".toList ++ k.group 1 ++ "\x22".toList ++ k.group 2) :=
  changesHash_of_swaps swaps_symbolKey settling_symbolKey (fun _ _ => SymbolKey.notMem)
    fun _ _ hgap hgap' _ _ hkey _ => hkey.not_meets hgap hgap'

/-- Hashes are found again where they were, and nowhere else. -/
theorem hashed_settles {change : List Char → List Char} (h : ChangesHash change) (text : List Char) :
    settingsHash.expr.replaceAll (fun m => change m.text)
        (settingsHash.expr.replaceAll (fun m => change m.text) text) =
      settingsHash.expr.replaceAll (fun m => change m.text) text := by
  have hnew : ∀ {taken new}, Hashed change taken new → ∃ gap gap' body body',
      gap.all Text.isBlank = true ∧ gap'.all Text.isBlank = true ∧ '}' ∉ body ∧ '}' ∉ body' ∧
        taken = hashText gap gap' body ∧ new = hashText gap gap' body' := by
    rintro taken new ⟨gap, gap', body, hgap, hgap', hbody, rfl, rfl⟩
    obtain ⟨body', hbody', hchange⟩ := h.hash hgap hgap' hbody
    exact ⟨gap, gap', body, body', hgap, hgap', hbody, hbody', rfl, hchange⟩
  refine Pass.settles (fun _ _ => True) (fun _ _ _ _ => trivial) ?_ ?_
    (Pattern.pass_replaceAll (swaps_settings change) text) trivial
    (Pattern.pass_replaceAll (swaps_settings change) _)
  · intro before before' rest more x _ hpass hidle taken after new htext hswap
    obtain ⟨gap, gap', body, -, hgap, hgap', hbody, -, rfl, -⟩ := hnew hswap.1
    -- All up to the opening brace was kept, and there was a closing brace.
    rw [hashText_append] at htext
    obtain ⟨rfl, rfl⟩ := List.cons_eq_cons.mp htext
    obtain ⟨rest', rfl, hpass'⟩ := hpass.of_append fun _ _ _ _ hswap' tail htail hne => by
      obtain ⟨gap₁, gap₁', -, body₁, -, -, -, -, -, rfl⟩ := hnew hswap'.1
      exact not_meets_hashText hgap hgap' htail hne
    have hclosed : '}' ∈ rest' := by
      refine hpass'.mem_of_mem (fun _ _ _ _ hswap' _ => ?_) (by simp)
      obtain ⟨_, _, _, _, -, -, -, -, rfl, -⟩ := hnew hswap'.1
      rw [hashText_eq]
      simp
    obtain ⟨body', after', rfl, hbody'⟩ := List.eq_append_cons_of_mem hclosed
    exact hidle (hashText gap gap' body') after' _ (hashText_append _ _ _ _).symm
      ⟨⟨gap, gap', body', hgap, hgap', hbody', rfl, rfl⟩, by simp, by simp⟩
  · intro before before' taken after new more result' _ hswap _ hagain
    obtain ⟨gap, gap', body, body', hgap, hgap', -, hbody', rfl, rfl⟩ := hnew hswap.1
    have hsame : change (hashText gap gap' body') = hashText gap gap' body' := by
      obtain ⟨_, _, _, -, -, -, -, hchange⟩ := hswap.1
      rw [hchange, h.again]
    refine ⟨trivial, ?_⟩
    generalize hresult : hashText gap gap' body' ++ more = result at hagain
    cases hagain with
    | done =>
      rw [hashText_eq] at hresult
      simp at hresult
    | keep idle _ =>
      exact absurd ⟨⟨gap, gap', body', hgap, hgap', hbody', rfl, rfl⟩, by simp, by simp⟩
        (idle _ _ _ hresult.symm)
    | hit _ swapped hmore =>
      obtain ⟨⟨gap₁, gap₁', body₁, hgap₁, hgap₁', hbody₁, rfl, rfl⟩, -⟩ := swapped
      have hwhole := hashText_unique hgap hgap' hbody' hgap₁ hgap₁' hbody₁ hresult
      rw [← hwhole] at hresult hmore ⊢
      obtain rfl := List.append_cancel_left hresult
      exact ⟨_, by rw [hsame], hmore⟩

/-! ### All repairs -/

/-- A repair settles with the swap of its pattern, if it does not look at the whole text. -/
theorem apply_apply {r : StockRepair} {f : Match → List Char} {p q : Char → Bool}
    {shape : List Char → List Char → Prop} (hreplace : ∀ text, r.replace text = f)
    (hswaps : r.pattern.expr.Swaps f (framed p q shape)) (h : Settling p q shape) (text : List Char) :
    r.apply (r.apply text) = r.apply text := by
  have happly : ∀ text, r.apply text = r.pattern.expr.replaceAll f text := by
    intro text
    rw [StockRepair.apply, hreplace]
  rw [happly, happly]
  exact h.replaceAll_replaceAll hswaps text

/-- A repair of the library changes nothing in its own result, except for the repair of conditions. -/
theorem apply_apply_of_mem {entry : String × StockRepair} (hmem : entry ∈ repairs)
    (hsource : entry.1 ≠ stringWhere.source) (text : List Char) :
    entry.2.apply (entry.2.apply text) = entry.2.apply text := by
  -- One case for each repair of the table; the condition written as text is the one left out.
  simp only [repairs, List.mem_cons, List.not_mem_nil, or_false] at hmem
  obtain rfl | rfl | rfl | rfl | rfl | rfl | rfl | rfl | rfl | rfl | rfl | rfl | rfl | rfl | rfl |
    rfl | rfl | rfl := hmem
  · exact apply_apply (fun _ => rfl) swaps_update (settling_listed (by decide)) text
  · exact apply_apply (fun _ => rfl) swaps_success (settling_listed (by decide)) text
  · exact apply_apply (fun _ => rfl) swaps_findOrInitialize
      (settling_finder ⟨by decide, by decide⟩ ⟨by decide, by decide⟩ (by decide) (by decide) (by decide)) text
  · exact apply_apply (fun _ => rfl) swaps_findOrCreate
      (settling_finder ⟨by decide, by decide⟩ ⟨by decide, by decide⟩ (by decide) (by decide) (by decide)) text
  · exact apply_apply (fun _ => rfl) swaps_exists settling_memberCalls text
  · exact apply_apply (fun _ => rfl) swaps_findBy
      (settling_finder ⟨by decide, by decide⟩ ⟨by decide, by decide⟩ (by decide) (by decide) (by decide)) text
  · exact apply_apply (fun _ => rfl) swaps_scoped (settling_listed (by decide)) text
  · simp only [ne_eq, not_true_eq_false] at hsource
  · exact apply_apply (fun _ => rfl) swaps_timeNow (settling_listed (by decide)) text
  · exact apply_apply (fun _ => rfl) swaps_dateTimeNow (settling_listed (by decide)) text
  · exact apply_apply (fun _ => rfl) swaps_dateToday (settling_listed (by decide)) text
  · exact apply_apply (fun _ => rfl) swaps_uriEscape settling_addressCalls text
  · exact apply_apply (fun _ => rfl) swaps_cgiEscape settling_escapeCalls text
  · exact presence_settles text
  · exact apply_apply (fun _ => rfl) swaps_moduleApi settling_opensApi text
  · exact apply_apply (fun _ => rfl) swaps_apiReference (settling_listed (by decide)) text
  · exact hashed_settles changesHash_flag text
  · exact hashed_settles changesHash_symbolKey text

/-- A name that is iterated over and asked for, and what becomes of it. -/
theorem apply_apply_presence :
    presenceRepair.apply "x.each\nx.present? ".toList = "x.each\nx.reject(&:blank?).present?".toList ∧
      presenceRepair.apply (presenceRepair.apply "x.each\nx.present? ".toList) =
        presenceRepair.apply "x.each\nx.present? ".toList :=
  have hmem : (collectionPresence.source, presenceRepair) ∈ repairs := by
    simp only [repairs, List.mem_cons, true_or, or_true]
  ⟨by decide +kernel, apply_apply_of_mem hmem (by decide +kernel) _⟩

end RailsUpgrade.Catalogue
