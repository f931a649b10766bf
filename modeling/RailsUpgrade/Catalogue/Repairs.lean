import RailsUpgrade.Catalogue.Sources

/-!
# `RailsUpgrade.Catalogue.Repairs`: what the library can fix

A repair is filed under the spelling of the detection pattern that it serves. Its own pattern may
ask for more than the detection does, such as a complete call with its arguments; what it does not
cover is left for a person.

Detections whose spelling holds a marker of `reviewMarkers` concern decisions that only a person
can take. No repair is filed for them.
-/

set_option autoImplicit false

namespace RailsUpgrade.Catalogue

open Pattern (Match Expr CharSet)

/-! ## Texts that depend on the match -/

/-- Turns a call such as `.find_by_a_and_b(x, y)` into `.find_by(a: x, b: y)`, where group 1 has the
attributes and group 2 the arguments. A call whose arguments do not fit its attributes stays. -/
def keywordCall (method : String) (m : Match) : List Char :=
  let attributes := Text.splitOn "_and_".toList (m.group 1)
  let arguments := Text.trim (m.group 2)
  let values := if arguments.isEmpty then [] else (Text.splitChar ',' arguments).map Text.trim
  if values.length != attributes.length then m.text
  else
    let pairs := List.zipWith (fun a v => a ++ ": ".toList ++ v) attributes values
    ".".toList ++ method.toList ++ "(".toList ++ Text.join ", ".toList pairs ++ ")".toList

/-- Turns `.where("name = 'Bob'")` into `.where(name: 'Bob')`. Group 2 is the column, group 3 the
quote and group 4 the value. -/
def hashCondition (m : Match) : List Char :=
  ".where(".toList ++ m.group 2 ++ ": ".toList ++ m.group 3 ++ m.group 4 ++ m.group 3 ++ ")".toList

/-- The ending that makes an argument a string. -/
def toText : List Char := ".to_s".toList

/-- Escapes with `CGI` what was escaped with `URI`, as a string. -/
def cgiCall (m : Match) : List Char :=
  let argument := Text.trim (m.group 2)
  let argument := if toText.reverse.isPrefixOf argument.reverse then argument else argument ++ toText
  "CGI.".toList ++ m.group 1 ++ "escape(".toList ++ argument ++ ")".toList

/-- The uses that show that a name stands for a collection: it is appended to, iterated or
indexed. -/
def collectionUse (name : List Char) : Expr :=
  let edge := Expr.anchor (.wordEdge false)
  let word := Expr.literal name
  let call (method : String) : Expr := .concat [edge, word, .literal method.toList, edge]
  .choice
    (.concat [edge, word, .rep (.one (.ofItems [.kind .blank false false])) 0 none true,
      .literal "<<".toList])
    [call ".each", call ".map", .concat [edge, word, .literal "[".toList]]

/-- Ignores blank members when the presence of a collection is asked for. A name that is not used
like a collection in the text stays. -/
def presentMembers (text : List Char) (m : Match) : List Char :=
  let name := m.group 1
  if (collectionUse name).found text then name ++ ".reject(&:blank?).present?".toList else m.text

/-- A boolean value of a hash. -/
def booleanValue : Pattern := .fixed {} r"(=>\s*)(true|false)\b"

/-- Puts the boolean values of a hash in quotes. -/
def quoteBooleans (m : Match) : List Char :=
  booleanValue.expr.replaceAll
    (fun b => b.group 1 ++ "\x22".toList ++ b.group 2 ++ "\x22".toList) m.text

/-- A symbol that is a key of a hash. -/
def symbolKey : Pattern := .fixed {} r"(?<![\w:]):([a-zA-Z_]\w*)(\s*=>)"

/-- Turns the symbols among the keys of a hash into strings. -/
def stringKeys (m : Match) : List Char :=
  symbolKey.expr.replaceAll
    (fun k => "\x22".toList ++ k.group 1 ++ "\x22".toList ++ k.group 2) m.text

/-! ## The repairs -/

/-- A repair that puts the same text in place of every match. -/
def always (pattern : Pattern) (text : String) : StockRepair := ⟨pattern, fun _ _ => text.toList⟩

/-- A hash of settings, as a literal. -/
def settingsHash : Pattern := .fixed .byLine "settings\\s*=\\s*\\\x7b[^\x7d]*\\\x7d"

def updateRepair : StockRepair :=
  ⟨.fixed .byLine r"\.update_attributes([!(])", fun _ m => ".update".toList ++ m.group 1⟩

def successRepair : StockRepair := always successPredicate ".successful?"

def findOrInitializeRepair : StockRepair :=
  ⟨.fixed .byLine r"\.find_or_initialize_by_([a-zA-Z_]+)\(([^()]*)\)",
    fun _ => keywordCall "find_or_initialize_by"⟩

def findOrCreateRepair : StockRepair :=
  ⟨.fixed .byLine r"\.find_or_create_by_([a-zA-Z_]+)\(([^()]*)\)",
    fun _ => keywordCall "find_or_create_by"⟩

def existsRepair : StockRepair :=
  ⟨.fixed .byLine r"\.pluck\(:id\)\.include\?\(([^()]+)\)",
    fun _ m => ".exists?(".toList ++ m.group 1 ++ ")".toList⟩

def findByRepair : StockRepair :=
  ⟨.fixed .byLine r"\.find_by_(?!sql\b)([a-zA-Z_]+)\(([^()]*)\)", fun _ => keywordCall "find_by"⟩

def scopedRepair : StockRepair := always scopedCall ".all"

def hashConditionRepair : StockRepair :=
  ⟨.fixed .byLine
    r#"\.where\((?P<outer>["'])(?P<column>\w+)\s*=\s*(?P<quote>["'])(?P<value>[^"'\n]*)(?P=quote)(?P=outer)\)"#,
    fun _ => hashCondition⟩

def timeNowRepair : StockRepair := always timeNow "Time.current"

def dateTimeNowRepair : StockRepair := always dateTimeNow "Time.current"

def dateTodayRepair : StockRepair := always dateToday "Time.current.to_date"

def uriEscapeRepair : StockRepair :=
  ⟨.fixed .byLine r"URI\.(un)?escape\(([^()]+)\)", fun _ => cgiCall⟩

def cgiEscapeRepair : StockRepair :=
  ⟨.fixed .byLine r"CGI\.escape\((?![^()]*\.to_s\))([^()]+)\)",
    fun _ m => "CGI.escape(".toList ++ m.group 1 ++ ".to_s)".toList⟩

def presenceRepair : StockRepair :=
  ⟨.fixed .byLine r"(\w+)\.present\?[ \t]*$", presentMembers⟩

def moduleApiRepair : StockRepair := always moduleApi "module Api"

def apiReferenceRepair : StockRepair := always apiReference "Api::"

def booleanSettingsRepair : StockRepair := ⟨settingsHash, fun _ => quoteBooleans⟩

def symbolSettingsRepair : StockRepair := ⟨settingsHash, fun _ => stringKeys⟩

/-- All repairs, under the spelling of the detection pattern that each of them serves. -/
def repairs : List (String × StockRepair) :=
  [(updateAttributes.source, updateRepair),
   (successPredicate.source, successRepair),
   (findOrInitializeBy.source, findOrInitializeRepair),
   (findOrCreateBy.source, findOrCreateRepair),
   (pluckInclude.source, existsRepair),
   (dynamicFinder.source, findByRepair),
   (scopedCall.source, scopedRepair),
   (stringWhere.source, hashConditionRepair),
   (timeNow.source, timeNowRepair),
   (dateTimeNow.source, dateTimeNowRepair),
   (dateToday.source, dateTodayRepair),
   (uriEscape.source, uriEscapeRepair),
   (cgiEscape.source, cgiEscapeRepair),
   (collectionPresence.source, presenceRepair),
   (moduleApi.source, moduleApiRepair),
   (apiReference.source, apiReferenceRepair),
   (settingsBooleans.source, booleanSettingsRepair),
   (settingsSymbolKeys.source, symbolSettingsRepair)]

/-- The repairs with the spellings written out, which are then known without reading the patterns. -/
theorem repairs_eq : repairs =
    [(r"\.update_attributes[!(]", updateRepair),
     (r"\.success\?", successRepair),
     (r"\.find_or_initialize_by_([a-zA-Z_]+)\b", findOrInitializeRepair),
     (r"\.find_or_create_by_([a-zA-Z_]+)\b", findOrCreateRepair),
     (r"\.pluck\(:id\)\.include\?", existsRepair),
     (r"\.find_by_(?!sql\b)[a-zA-Z_]+\b", findByRepair),
     (r"\.scoped\b(?![?!])", scopedRepair),
     (r#"\.where\(["'](\w+)\s*=\s*["']"#, hashConditionRepair),
     (r"\bTime\.now\b", timeNowRepair),
     (r"\bDateTime\.now\b", dateTimeNowRepair),
     (r"\bDate\.today\b", dateTodayRepair),
     (r"URI\.escape|URI\.unescape", uriEscapeRepair),
     (r"CGI\.escape\((?![^()]*\.to_s\))[^()]+\)", cgiEscapeRepair),
     (r"\.present\?\s*$", presenceRepair),
     (r"module\s+API\b", moduleApiRepair),
     (r"\bAPI::", apiReferenceRepair),
     ("settings\\s*=\\s*\\\x7b[^\x7d]*=>\\s*(?:true|false)\\b", booleanSettingsRepair),
     ("settings\\s*=\\s*\\\x7b[^\x7d]*:[a-zA-Z_]+\\s*=>", symbolSettingsRepair)] := by
  simp only [repairs, updateAttributes, successPredicate, findOrInitializeBy, findOrCreateBy,
    pluckInclude, dynamicFinder, scopedCall, stringWhere, timeNow, dateTimeNow, dateToday, uriEscape,
    cgiEscape, collectionPresence, moduleApi, apiReference, settingsBooleans, settingsSymbolKeys,
    Pattern.source_fixed]

/-- The repair that is filed under a spelling. -/
def repairFor? (source : String) : Option StockRepair := repairs.lookup source

/-! ## Decisions for a person -/

/-- Parts of spellings whose fix a person has to decide on. -/
def reviewMarkers : List String :=
  ["default_scope", "update_all", r"config\.hosts", r"config\.load_defaults"]

/-- Whether what a pattern finds is left to a person. -/
def needsReview (source : String) : Bool :=
  reviewMarkers.any fun marker => Text.hasPart marker.toList source.toList

end RailsUpgrade.Catalogue
