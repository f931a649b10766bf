import RailsUpgrade.Proofs.Protected
import RailsUpgrade.Proofs.Redirect

/-!
# `RailsUpgrade.Proofs.Jobs`: the names of the jobs that move
-/

set_option autoImplicit false

namespace RailsUpgrade

/-! ### Constants and their segments -/

namespace Text

/-- Joined pieces without the separator are cut apart again. -/
theorem splitPart_append {piece : List Char} (h : ':' ∉ piece) (rest : List Char) :
    splitPart ':' [':'] 0 (piece ++ ':' :: ':' :: rest) = piece :: splitPart ':' [':'] 0 rest := by
  induction piece with
  | nil => simp [splitPart, stripLead?]
  | cons c piece ih =>
    rw [List.mem_cons, not_or] at h
    have hc : (c == ':') = false := by simpa using Ne.symm h.1
    rw [List.cons_append, splitPart, hc, ih h.2]
    rfl

theorem splitPart_of_notMem {piece : List Char} (h : ':' ∉ piece) :
    splitPart ':' [':'] 0 piece = [piece] := by
  induction piece with
  | nil => rfl
  | cons c piece ih =>
    rw [List.mem_cons, not_or] at h
    have hc : (c == ':') = false := by simpa using Ne.symm h.1
    rw [splitPart, hc, ih h.2]
    rfl

theorem splitOn_join {words : List (List Char)} (hne : words ≠ []) (h : ∀ word ∈ words, ':' ∉ word) :
    splitOn [':', ':'] (join [':', ':'] words) = words := by
  show splitPart ':' [':'] 0 (join [':', ':'] words) = words
  induction words with
  | nil => exact absurd rfl hne
  | cons word words ih =>
    have hword := h word (by simp)
    by_cases hlast : words = []
    · subst hlast
      exact splitPart_of_notMem hword
    · have hrest := ih hlast fun w hw => h w (by simp [hw])
      have hcut := splitPart_append hword (join [':', ':'] words)
      rw [hrest] at hcut
      rw [join_cons _ _ hlast, List.append_assoc]
      exact hcut

/-! ### Names in camel case -/

/-- A small letter or a digit of ASCII. -/
def isPlain (c : Char) : Bool := c.isLower || c.isDigit

theorem toNat_lt_of_isPlain {c : Char} (h : isPlain c = true) : c.toNat < 128 := by
  have hlower : c.isLower = (decide (c.val ≥ 'a'.val) && decide (c.val ≤ 'z'.val)) := rfl
  simp only [isPlain, hlower, Char.isDigit, Bool.or_eq_true, Bool.and_eq_true,
    decide_eq_true_eq, UInt32.le_iff_toNat_le] at h
  have hc : c.toNat = c.val.toNat := rfl
  have hz : 'z'.val.toNat = 122 := rfl
  have hnine : '9'.val.toNat = 57 := rfl
  omega

/-- Letters and digits stay word characters in every case. -/
theorem isWord_of_isPlain {c : Char} (h : isPlain c = true) :
    (titled c).all isWord = true ∧ titled c ≠ [] ∧ (lowered c).all isWord = true ∧
      isWord c = true ∧ (c.toNat == 931) = false := by
  have hall : ∀ n < 128, isPlain (Char.ofNat n) = true →
      (titled (Char.ofNat n)).all isWord = true ∧ titled (Char.ofNat n) ≠ [] ∧
      (lowered (Char.ofNat n)).all isWord = true ∧ isWord (Char.ofNat n) = true ∧
      ((Char.ofNat n).toNat == 931) = false := by
    decide
  have hc := hall c.toNat (toNat_lt_of_isPlain h)
  rw [Char.ofNat_toNat] at hc
  exact hc h

theorem all_isWord_lowerAfter {s : List Char} (h : s.all isPlain = true) (before : List Char) :
    (lowerAfter before s).all isWord = true := by
  induction s generalizing before with
  | nil => rfl
  | cons c s ih =>
    rw [List.all_cons, Bool.and_eq_true] at h
    obtain ⟨-, -, hlowered, -, hsigma⟩ := isWord_of_isPlain h.1
    rw [lowerAfter, hsigma, List.all_append, Bool.and_eq_true]
    exact ⟨hlowered, ih h.2 _⟩

theorem all_isWord_capitalize {s : List Char} (h : s.all isPlain = true) :
    (capitalize s).all isWord = true := by
  cases s with
  | nil => rfl
  | cons c s =>
    rw [List.all_cons, Bool.and_eq_true] at h
    rw [capitalize, List.all_append, Bool.and_eq_true]
    exact ⟨(isWord_of_isPlain h.1).1, all_isWord_lowerAfter h.2 _⟩

/-- A character of a name in lower case: a small letter, a digit or an underscore. -/
def isSnakeChar (c : Char) : Bool := isPlain c || c == '_'

theorem all_isPlain_of_mem_splitChar {s : List Char} (h : s.all isSnakeChar = true) :
    ∀ piece ∈ splitChar '_' s, piece.all isPlain = true := by
  induction s with
  | nil => simp [splitChar]
  | cons c s ih =>
    rw [List.all_cons, Bool.and_eq_true] at h
    have hrest := ih h.2
    rw [splitChar]
    split
    · intro piece hpiece
      rcases List.mem_cons.mp hpiece with rfl | hpiece
      · rfl
      · exact hrest piece hpiece
    · rename_i hc
      have hplain : isPlain c = true := by simpa [isSnakeChar, hc] using h.1
      split
      · simp [hplain]
      · rename_i first pieces hpieces
        rw [hpieces] at hrest
        intro piece hpiece
        rcases List.mem_cons.mp hpiece with rfl | hpiece
        · simpa [hplain] using hrest first (by simp)
        · exact hrest piece (by simp [hpiece])

end Text

/-- A name in lower case becomes a word. -/
theorem all_isWord_camelize {name : String} (h : name.toList.all Text.isSnakeChar = true) :
    (camelize name).toList.all Text.isWord = true := by
  rw [camelize, String.toList_ofList, List.all_flatMap, List.all_eq_true]
  exact fun piece hpiece =>
    Text.all_isWord_capitalize (Text.all_isPlain_of_mem_splitChar h piece hpiece)

theorem camelize_ne_nil {name : String} {c : Char} {rest : List Char} (hname : name.toList = c :: rest)
    (hc : Text.isPlain c = true) : (camelize name).toList ≠ [] := by
  have hunderscore : (c == '_') = false := by
    rw [beq_eq_false_iff_ne]
    rintro rfl
    cases hc
  obtain ⟨piece, pieces, hpieces⟩ : ∃ piece pieces,
      Text.splitChar '_' (c :: rest) = (c :: piece) :: pieces := by
    rw [Text.splitChar, hunderscore]
    cases Text.splitChar '_' rest with
    | nil => exact ⟨[], [], rfl⟩
    | cons piece pieces => exact ⟨piece, pieces, rfl⟩
  rw [camelize, String.toList_ofList, hname, hpieces, List.flatMap_cons, Text.capitalize]
  intro hnil
  exact (Text.isWord_of_isPlain hc).2.1
    (List.append_eq_nil_iff.mp (List.append_eq_nil_iff.mp hnil).1).1

/-! ### Names that fit a wildcard -/

namespace Glob

theorem someEnd_iff {p : List Char → Bool} {s : List Char} :
    someEnd p s = true ↔ ∃ lead tail, s = lead ++ tail ∧ p tail = true := by
  induction s with
  | nil =>
    constructor
    · intro h
      exact ⟨[], [], rfl, h⟩
    · rintro ⟨lead, tail, hs, htail⟩
      obtain ⟨-, rfl⟩ := List.append_eq_nil_iff.mp hs.symm
      exact htail
  | cons c s ih =>
    rw [someEnd, Bool.or_eq_true, ih]
    constructor
    · rintro (h | ⟨lead, tail, rfl, htail⟩)
      · exact ⟨[], c :: s, rfl, h⟩
      · exact ⟨c :: lead, tail, rfl, htail⟩
    · rintro ⟨lead, tail, hs, htail⟩
      cases lead with
      | nil => exact .inl (by rwa [show c :: s = tail from hs])
      | cons x lead =>
        obtain ⟨-, rfl⟩ := List.cons_eq_cons.mp hs
        exact .inr ⟨lead, tail, rfl, htail⟩

theorem fits_single {s name : List Char} :
    fits (s.map fun c => .one (.single c)) name = true ↔ name = s := by
  induction s generalizing name with
  | nil => simp [fits]
  | cons c s ih =>
    cases name with
    | nil => simp [fits]
    | cons x name => simp [fits, Pattern.CharSet.mem_single, ih]

/-- What a star and an ending stand for are the names that end so and are not hidden. -/
theorem nameFits_star {ending : List Char} {name : String}
    (hending : wildcards ('*' :: ending) = .many :: ending.map fun c => .one (.single c)) :
    nameFits ('*' :: ending) name = true ↔
      isHiddenName name = false ∧ ∃ lead, name.toList = lead ++ ending := by
  have hmagic : isMagic ('*' :: ending) = true := rfl
  have hdot : ((('*' :: ending).head? == some '.') : Bool) = false := rfl
  rw [nameFits, if_pos hmagic, segmentFits, Bool.and_eq_true, hending, fits, someEnd_iff, hdot]
  simp only [fits_single, Bool.false_or, Bool.not_eq_true']
  refine and_congr_right fun _ => ⟨?_, ?_⟩
  · rintro ⟨lead, tail, hname, rfl⟩
    exact ⟨lead, hname⟩
  · rintro ⟨lead, hname⟩
    exact ⟨lead, ending, hname, rfl⟩

end Glob

/-! ### Jobs in lower case -/

/-- A name in lower case: a small letter first, then small letters, digits and underscores. -/
def isSnake (name : String) : Bool :=
  name.toList.head?.any Char.isLower && name.toList.all Text.isSnakeChar

theorem camelize_of_isSnake {name : String} (h : isSnake name = true) :
    (camelize name).toList ≠ [] ∧ (camelize name).toList.all Text.isWord = true := by
  rw [isSnake, Bool.and_eq_true] at h
  obtain ⟨c, hc, hlower⟩ := (Option.any_eq_true _ _).mp h.1
  obtain ⟨rest, hname⟩ := List.head?_eq_some_iff.mp hc
  exact ⟨camelize_ne_nil hname (by simp [Text.isPlain, hlower]), all_isWord_camelize h.2⟩

/-- What comes before an ending that begins with an underscore is in lower case if all of it is. -/
theorem isSnake_of_append {lead tail : List Char} (h : isSnake (String.ofList (lead ++ '_' :: tail)) = true) :
    isSnake (String.ofList lead) = true := by
  rw [isSnake, String.toList_ofList, Bool.and_eq_true, List.all_append, Bool.and_eq_true] at h
  rw [isSnake, String.toList_ofList, Bool.and_eq_true]
  refine ⟨?_, h.2.1⟩
  cases lead with
  | nil =>
    have hlower : '_'.isLower = true := h.1
    exact absurd hlower (by decide)
  | cons c lead => exact h.1

namespace Project

theorem stem_ofNames {dirs : List String} {name : String} {base : List Char}
    (hnames : Path.AreNames (dirs ++ [name])) (hname : name.toList = base ++ ".rb".toList) :
    stem (Path.ofNames (dirs ++ [name])) = String.ofList base := by
  have hlength : name.length - ".rb".length = base.length := by
    rw [← String.length_toList, hname, List.length_append, String.length_toList]
    omega
  rw [stem, Path.namesOf_ofNames hnames.ne_nil hnames.isName, List.getLast?_concat]
  simp only [Option.getD_some]
  rw [hlength, hname, List.take_left]

/-- A job about stock has two constants that are made of its name. -/
theorem stockRelocation_eq {dirs : List String} {name : String} {job : List Char}
    (hnames : Path.AreNames (dirs ++ [name])) (hname : name.toList = job ++ "_stock_job.rb".toList) :
    stem (Path.ofNames (dirs ++ [name])) = String.ofList (job ++ "_stock_job".toList) ∧
    (stockRelocation (Path.ofNames (dirs ++ [name]))).oldConstant =
      "Inventory::" ++ camelize (String.ofList job) ++ "StockJob" ∧
    (stockRelocation (Path.ofNames (dirs ++ [name]))).newConstant =
      "Sidekiq::Stock::" ++ camelize (String.ofList job) := by
  have hbase : name.toList = (job ++ "_stock_job".toList) ++ ".rb".toList := by
    rw [hname, List.append_assoc]
    rfl
  have hstem := stem_ofNames hnames hbase
  have hjob : (stem (Path.ofNames (dirs ++ [name]))).toList.take
      ((stem (Path.ofNames (dirs ++ [name]))).length - "_stock_job".length) = job := by
    rw [hstem, ← String.length_toList, String.toList_ofList, List.length_append,
      String.length_toList, Nat.add_sub_cancel, List.take_left]
  refine ⟨hstem, ?_, ?_⟩
  · rw [stockRelocation, hjob]
  · rw [stockRelocation, hjob]

end Project

namespace Relocation

theorem colon_notMem_of_isWord {word : List Char} (h : word.all Text.isWord = true) : ':' ∉ word :=
  fun hmem => absurd (List.all_eq_true.mp h ':' hmem) (by decide)

/-- The segments of a constant that is made of words are these words. -/
theorem segments_of_join {constant : String} {words : List (List Char)} (hne : words ≠ [])
    (hwords : ∀ word ∈ words, word ≠ [] ∧ word.all Text.isWord = true)
    (h : constant.toList = Text.join [':', ':'] words) :
    segments constant = words.map String.ofList := by
  have hsep : "::".toList = [':', ':'] := rfl
  rw [segments, h, hsep, Text.splitOn_join hne fun w hw => colon_notMem_of_isWord (hwords w hw).2]

/-- Constants that are made of words lie apart, if the new name is not the word that the old constant
begins with and nothing else brings a reference back. -/
theorem apart_of_words {r : Relocation} (first : List Char) (olds : List (List Char))
    (lead : List Char) (news : List (List Char)) (name : List Char)
    (hold : r.oldConstant.toList = Text.join [':', ':'] (first :: olds))
    (hnew : r.newConstant.toList = Text.join [':', ':'] (lead :: news ++ [name]))
    (hwords : ∀ word ∈ first :: olds ++ (lead :: news ++ [name]),
      word ≠ [] ∧ word.all Text.isWord = true)
    (hfirst : first ∉ lead :: news) (hlead : r.newName = String.ofList name → lead ∉ olds)
    (hsegment : (segments r.oldConstant).head? ≠ some r.newName) :
    r.Apart first olds lead (news ++ [name]) := by
  have hname : r.newName = String.ofList name := by
    rw [newName, lastName, segments_of_join (by simp)
      (fun w hw => hwords w (List.mem_append_right _ hw)) hnew, List.getLast?_map,
      List.getLast?_concat]
    rfl
  have hhead : (segments r.oldConstant).head? = some (String.ofList first) := by
    rw [segments_of_join (by simp) (fun w hw => hwords w (List.mem_append_left _ hw)) hold]
    rfl
  rw [hhead, hname] at hsegment
  refine ⟨hold, hnew, hwords, fun hmem => ?_, hlead hname⟩
  rcases List.mem_append.mp (show first ∈ lead :: news ++ [name] from hmem) with hmem | hmem
  · exact hfirst hmem
  · exact hsegment (by rw [List.mem_singleton.mp hmem])

end Relocation

namespace Project

variable {root : Root} {t : Tree} {r : Relocation} {o : Options}

/-- What the constants of jobs begin with before they move. -/
def oldLeads : List (List Char) :=
  ["Inventory::".toList, "SidekiqJobs::".toList, "CheckJob".toList]

/-- What the constants of jobs begin with once they have moved. -/
def newLead : List Char := "Sidekiq::".toList

/-- The constants of a move that is asked for begin in one of few ways. -/
theorem Asked.constants (h : Asked o r) :
    (∃ lead ∈ oldLeads, lead <+: r.oldConstant.toList) ∧ newLead <+: r.newConstant.toList := by
  have hstock : newLead <+: "Sidekiq::Stock::".toList := by decide
  have horder : newLead <+: "Sidekiq::Orders::".toList := by decide
  have horder' : "SidekiqJobs::".toList <+: "SidekiqJobs::Orders::".toList := by decide
  cases h with
  | stock names _ _ _ =>
    refine ⟨⟨"Inventory::".toList, by simp [oldLeads], ?_⟩, ?_⟩
    · rw [stockRelocation, String.toList_append, String.toList_append, List.append_assoc]
      exact List.prefix_append _ _
    · rw [stockRelocation, String.toList_append]
      exact hstock.trans (List.prefix_append _ _)
  | order kind names _ _ _ _ =>
    refine ⟨⟨"SidekiqJobs::".toList, by simp [oldLeads], ?_⟩, ?_⟩
    · simp only [orderRelocation, String.toList_append, List.append_assoc]
      exact horder'.trans (List.prefix_append _ _)
    · simp only [orderRelocation, String.toList_append, List.append_assoc]
      exact horder.trans (List.prefix_append _ _)
  | pos _ => exact ⟨⟨"CheckJob".toList, by simp [oldLeads], by decide⟩, by decide⟩

/-- Names that end as those of Ruby files are covered, unless one of them is hidden. -/
theorem covers_rubyFiles {names : List String} {name : String} (dirs : List String)
    (hnames : names = dirs ++ [name]) (hdirs : Glob.isOpen dirs = true)
    (hname : Glob.nameFits "*.rb".toList name = true) : Glob.covers rubyFiles names = true := by
  subst hnames
  have hexpand : Braces.expand rubyFiles = [rubyFiles] := by decide
  have hlead : Glob.hasBadLead (Text.splitChar '/' rubyFiles.toList) = false := by decide
  have hsegments : Glob.segmentsOf rubyFiles = [Glob.deep, "*.rb".toList] := by decide
  have hends : Glob.endsWithName rubyFiles = true := by decide
  have hstands : Glob.stands [Glob.deep, "*.rb".toList] (dirs ++ [name]) = true :=
    Glob.stands_cons.mpr (.inr (.inl ⟨rfl, by simp, dirs, [name], rfl, hdirs,
      Glob.stands_cons.mpr (.inr (.inr ⟨by decide, name, [], rfl, hname, rfl⟩))⟩))
  rw [Glob.covers, hexpand, List.all_cons, hlead, List.any_cons, Glob.alternativeCovers_eq, hsegments,
    hstands, hends]
  rfl

/-- The file of a job is a Ruby file. -/
theorem Asked.covers_source (h : Asked o r) {source target : List String}
    (hnamed : r.Named source target) : Glob.covers rubyFiles source = true := by
  cases h with
  | stock names _ hnames hcovers =>
    obtain ⟨job, hjob⟩ := exists_named_stockRelocation hnames
    obtain ⟨rfl, -⟩ := hjob.unique hnamed
    -- The name of a job about stock ends as that of a Ruby file does.
    obtain ⟨name, rfl, hfits⟩ := covers_stockJobs hcovers
    obtain ⟨hopen, lead, hname⟩ := (Glob.nameFits_star (by decide)).mp hfits
    have hname' : name.toList = lead ++ "_stock_job.rb".toList := hname
    have hending : "_stock_job.rb".toList = "_stock_job".toList ++ ['.', 'r', 'b'] := by decide
    have hends : ∃ lead, name.toList = lead ++ ['.', 'r', 'b'] :=
      ⟨lead ++ "_stock_job".toList, by rw [hname', hending, List.append_assoc]⟩
    have hruby : Glob.nameFits ['*', '.', 'r', 'b'] name = true :=
      (Glob.nameFits_star (by decide)).mpr ⟨hopen, hends⟩
    exact covers_rubyFiles ["app", "jobs", "inventory"] rfl (by decide) hruby
  | order kind names _ hkind hnames hcovers =>
    obtain ⟨job, hjob⟩ := exists_named_orderRelocation hkind hnames
    obtain ⟨rfl, -⟩ := hjob.unique hnamed
    obtain ⟨name, rfl, hfits⟩ := covers_orderJobs hkind hcovers
    have hkinds : ∀ kind ∈ orderKinds,
        Glob.isOpen ["app", "jobs", "sidekiq_jobs", "orders", kind] = true := by
      decide
    exact covers_rubyFiles _ rfl (hkinds kind hkind) hfits
  | pos _ =>
    have hpos : posRelocation.Named ["app", "jobs", "check_job.rb"]
        ["app", "jobs", "sidekiq", "pos_status", "check.rb"] :=
      ⟨by decide, by decide, by decide, by decide, by decide, by decide⟩
    obtain ⟨rfl, -⟩ := hpos.unique hnamed
    exact covers_rubyFiles ["app", "jobs"] rfl (by decide) (by decide)

/-- Everything is asked for. -/
def allJobs : Options := { updateJobNamespaces := true }

theorem asked_of_planned (ht : t.WellFormed) (hr : r ∈ planned t root) : Asked allJobs r := by
  rw [planned, List.mem_append, List.mem_append] at hr
  obtain (hstock | horder) | hpos := hr
  · exact asked_of_mem_stockPlan rfl ht hstock
  · exact asked_of_mem_orderPlan rfl ht horder
  · exact asked_of_mem_posPlan rfl hpos

/-- The references to a planned job in lower case settle, if its new name is neither the word that the
old constant begins with nor the one that all new constants begin with. -/
theorem exists_apart_of_planned (ht : t.WellFormed) (hr : r ∈ planned t root)
    (hsnake : isSnake (stem r.source) = true)
    (hsegment : (Relocation.segments r.oldConstant).head? ≠ some r.newName)
    (hnew : r.newName ≠ "Sidekiq") : ∃ first olds lead news, r.Apart first olds lead news := by
  cases asked_of_planned ht hr with
  -- The class of a job about stock has two words, and so has its place.
  | stock names hwanted hnames hcovers =>
    obtain ⟨name, rfl, hfits⟩ := covers_stockJobs hcovers
    obtain ⟨-, job, hname⟩ := (Glob.nameFits_star (by decide)).mp hfits
    obtain ⟨hstem, hold, hconstant⟩ := stockRelocation_eq hnames hname
    rw [show (stockRelocation (Path.ofNames _)).source = Path.ofNames _ from rfl, hstem] at hsnake
    obtain ⟨hne, hall⟩ := camelize_of_isSnake (isSnake_of_append hsnake)
    generalize camelize (String.ofList job) = constant at hold hconstant hne hall
    refine ⟨_, _, _, _, Relocation.apart_of_words "Inventory".toList
      [constant.toList ++ "StockJob".toList] "Sidekiq".toList ["Stock".toList] constant.toList
      ?_ ?_ ?_ (by decide) ?_ hsegment⟩
    · rw [hold]
      simp [Text.join]
    · rw [hconstant]
      simp [Text.join]
    · have hjob : ("StockJob".toList).all Text.isWord = true := by decide
      simp only [List.cons_append, List.nil_append, List.forall_mem_cons, List.not_mem_nil,
        false_implies, implies_true, and_true]
      refine ⟨by decide, ⟨by simp, by rw [List.all_append, hall, hjob]; rfl⟩, by decide, by decide,
        hne, hall⟩
    · rintro -
      rw [List.mem_singleton]
      intro hsame
      have hlast := congrArg List.getLast? hsame
      rw [List.getLast?_append] at hlast
      have hletters : some 'q' = some 'b' := hlast
      exact absurd hletters (by decide)
  -- That of a job about orders has one more, for the kind of the job.
  | order kind names hwanted hkind hnames hcovers =>
    have hsnake' : isSnake (stem (Path.ofNames names)) = true := hsnake
    obtain ⟨hne, hall⟩ := camelize_of_isSnake hsnake'
    have hkinds : ∀ kind ∈ orderKinds, (camelize kind).toList ≠ [] ∧
        (camelize kind).toList.all Text.isWord = true ∧
        "SidekiqJobs".toList ∉ ["Sidekiq".toList, "Orders".toList, (camelize kind).toList] ∧
        "Sidekiq".toList ∉ ["Orders".toList, (camelize kind).toList] := by
      decide
    obtain ⟨hkne, hkall, hkfirst, hklead⟩ := hkinds kind hkind
    refine ⟨_, _, _, _, Relocation.apart_of_words "SidekiqJobs".toList
      ["Orders".toList, (camelize kind).toList, (camelize (stem (Path.ofNames names))).toList]
      "Sidekiq".toList ["Orders".toList, (camelize kind).toList]
      (camelize (stem (Path.ofNames names))).toList ?_ ?_ ?_ hkfirst ?_ hsegment⟩
    · simp [orderRelocation, Text.join]
    · simp [orderRelocation, Text.join]
    · simp only [List.cons_append, List.nil_append, List.forall_mem_cons, List.not_mem_nil,
        false_implies, implies_true, and_true]
      exact ⟨by decide, by decide, ⟨hkne, hkall⟩, ⟨hne, hall⟩, by decide, by decide, ⟨hkne, hkall⟩,
        hne, hall⟩
    · intro hnewName hmem
      rcases List.mem_append.mp (show _ ∈ ["Orders".toList, (camelize kind).toList] ++
        [(camelize (stem (Path.ofNames names))).toList] from hmem) with hmem | hmem
      · exact hklead hmem
      · rw [List.mem_singleton] at hmem
        exact hnew (by rw [hnewName, ← hmem]; rfl)
  | pos hwanted =>
    refine ⟨_, _, _, _, Relocation.apart_of_words "CheckJob".toList [] "Sidekiq".toList
      ["PosStatus".toList] "Check".toList (by decide) (by decide) ?_ (by decide) (by simp) hsegment⟩
    decide

end Project

end RailsUpgrade
