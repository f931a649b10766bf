import RailsUpgrade.Rule.Basic

/-!
# `RailsUpgrade.Catalogue.Sources`: the patterns of the catalogue

Each pattern is named for what it finds. The spelling of a pattern is the key under which a
repair for it is filed, so two detections with one pattern share their repair.
-/

set_option autoImplicit false

namespace RailsUpgrade.Catalogue

/-! ## Methods, constants and helpers that are going away -/

def updateAttributes : Pattern := .fixed .byLine r"\.update_attributes[!(]"
def successPredicate : Pattern := .fixed .byLine r"\.success\?"
def findOrInitializeBy : Pattern := .fixed .byLine r"\.find_or_initialize_by_([a-zA-Z_]+)\b"
def findOrCreateBy : Pattern := .fixed .byLine r"\.find_or_create_by_([a-zA-Z_]+)\b"
def pageParam : Pattern := .fixed .byLine r"\.page\(params\[:page\]\)"
def pluckInclude : Pattern := .fixed .byLine r"\.pluck\(:id\)\.include\?"
def mimeConstants : Pattern := .fixed .byLine r"Mime::SET|Mime::Type"
def paramsParser : Pattern := .fixed .byLine r"ActionDispatch::ParamsParser"
def testCaseBehavior : Pattern := .fixed .byLine r"ActionView::TestCase::Behavior"
def httpAuthentication : Pattern :=
  .fixed .byLine r"ActionController::HttpAuthentication::(Basic|Digest|Token)"
def jsonParse : Pattern := .fixed .byLine r"JSON\.parse\([^,]+\)"
def backArgument : Pattern :=
  .fixed .byLine r"\b(url_for|link_to|redirect_to|form_for|form_tag)\b.*:back\b"
def formHelpers : Pattern := .fixed .byLine r"\bform_tag\b|\bform_for\b"
def scriptHelpers : Pattern := .fixed .byLine r"\bbutton_to_function\b|\blink_to_function\b"

/-! ## Records, attachments and jobs -/

def dynamicFinder : Pattern := .fixed .byLine r"\.find_by_(?!sql\b)[a-zA-Z_]+\b"
def scopedCall : Pattern := .fixed .byLine r"\.scoped\b(?![?!])"
def defaultScopeWhere : Pattern := .fixed .byLine "default_scope\\s+[^\x7b]*\\bwhere\\b"
def updateAllTimestamps : Pattern :=
  .fixed .byLine r"\.update_all\([^)]*created_at|\.update_all\([^)]*updated_at"
def stringWhere : Pattern := .fixed .byLine r#"\.where\(["'](\w+)\s*=\s*["']"#
def attachments : Pattern := .fixed .byLine r"has_one_attached|has_many_attached"
def blobAnalyzable : Pattern := .fixed .byLine r"include\s+ActiveStorage::Blob::Analyzable"
def deserializationError : Pattern :=
  .fixed .byLine r"rescue_from\s+ActiveJob::DeserializationError"
def performLater : Pattern := .fixed .byLine r"\.perform_later\b(?!.*wait)"

/-! ## Time zones, escaping and collections -/

def timeNow : Pattern := .fixed .byLine r"\bTime\.now\b"
def dateTimeNow : Pattern := .fixed .byLine r"\bDateTime\.now\b"
def dateToday : Pattern := .fixed .byLine r"\bDate\.today\b"
def uriEscape : Pattern := .fixed .byLine r"URI\.escape|URI\.unescape"
def cgiEscape : Pattern := .fixed .byLine r"CGI\.escape\((?![^()]*\.to_s\))[^()]+\)"
def collectionPresence : Pattern := .fixed .byLine r"\.present\?\s*$"
def mergeKeywords : Pattern := .fixed .byLine r"\.merge\([^)]+\)\)(?!\s*\*\*)"
def mailerArguments : Pattern := .fixed .byLine "def\\s+\\w+\\(([^)]\x7b40,\x7d)\\)"

/-! ## Module names, job namespaces and client settings -/

def moduleApi : Pattern := .fixed .byLine r"module\s+API\b"
def apiReference : Pattern := .fixed .byLine r"\bAPI::"
def nestedJobClass : Pattern := .fixed .byLine r"class\s+\w+::\w+Job\s+<\s+ApplicationJob"
def inventoryStockJob : Pattern :=
  .fixed .byLine r"(?s)module\s+Inventory\s+.*class\s+\w+StockJob"
def checkJob : Pattern := .fixed .byLine r"class\s+CheckJob\s+<\s+ApplicationJob"
def settingsBooleans : Pattern :=
  .fixed .byLine "settings\\s*=\\s*\\\x7b[^\x7d]*=>\\s*(?:true|false)\\b"
def settingsSymbolKeys : Pattern :=
  .fixed .byLine "settings\\s*=\\s*\\\x7b[^\x7d]*:[a-zA-Z_]+\\s*=>"
def settingsQuery : Pattern := .fixed .byLine r#"where\(["']settings\s*->>\s*['"][^)]*\)"#

/-! ## Gemfile and configuration files -/

def protectedAttributesGem : Pattern := .fixed .byLine r#"gem\s+['"]protected_attributes['"]"#
def deprecatedFindersGem : Pattern :=
  .fixed .byLine r#"gem\s+['"]activerecord\-deprecated_finders['"]"#
def controllerTestingGem : Pattern :=
  .fixed .byLine r#"gem\s+['"]rails\-controller\-testing['"]"#
def coffeeGem : Pattern := .fixed .byLine r#"gem\s+['"]coffee\-rails['"]"#
def sassGem : Pattern := .fixed .byLine r#"gem\s+['"]sass\-rails['"]"#
def uglifierGem : Pattern := .fixed .byLine r#"gem\s+['"]uglifier['"]"#
def rubyDirectiveMissing : Pattern := .fixed .byLine r#"\A(?![\s\S]*^\s*ruby\s+['"]\d)"#
def loadDefaultsMissing : Pattern := .fixed .byLine r"\A(?![\s\S]*config\.load_defaults)"
def hostsMissing : Pattern := .fixed .byLine r"\A(?![\s\S]*config\.hosts)"
def uglifierCompressor : Pattern :=
  .fixed .byLine r"config\.assets\.js_compressor = :uglifier"

end RailsUpgrade.Catalogue
