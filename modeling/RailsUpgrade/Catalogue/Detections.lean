import RailsUpgrade.Catalogue.Sources

/-!
# `RailsUpgrade.Catalogue.Detections`: what the library looks for

The detections stand in a fixed order, and findings come in that order. Those with a constraint
only run for targets that the constraint admits.
-/

set_option autoImplicit false

namespace RailsUpgrade.Catalogue

/-- All Ruby files. -/
def rubyFiles : String := "**/*.rb"

/-- Ruby files and templates of views. -/
def viewFiles : String := "**/*.\x7brb,erb,haml,slim\x7d"

/-- Mailers. -/
def mailerFiles : String := "app/mailers/**/*.rb"

/-- Jobs. -/
def jobFiles : String := "app/jobs/**/*.rb"

/-- Places where the name of a module decides whether it is loaded. -/
def apiFiles : String := "app/\x7bcontrollers,models\x7d/**/*.rb"

/-- The list of gems. -/
def gemfile : String := "Gemfile"

/-- For targets from 6.0.0 on. -/
def from6 : Option Constraint := some (.text ">= 6.0.0")

/-- For targets from 7.0.0 on. -/
def from7 : Option Constraint := some (.text ">= 7.0.0")

/-- Methods, constants and helpers that are going away. -/
def deprecations : List Detection :=
  [⟨updateAttributes,
    "Deprecated method 'update_attributes' - use 'update' instead",
    rubyFiles, none⟩,
   ⟨successPredicate,
    "Deprecated method 'success?' - use 'successful?' instead",
    rubyFiles, none⟩,
   ⟨findOrInitializeBy,
    "Deprecated finder method 'find_or_initialize_by_*' - use " ++
      "'find_or_initialize_by(attribute: value)' instead",
    rubyFiles, none⟩,
   ⟨findOrCreateBy,
    "Deprecated finder method 'find_or_create_by_*' - use 'find_or_create_by(attribute: " ++
      "value)' instead",
    rubyFiles, none⟩,
   ⟨pageParam,
    "Potential pagination issue - ensure proper escaping with 'params.fetch(:page, 1)' " ++
      "for safety",
    rubyFiles, from6⟩,
   ⟨pluckInclude,
    "Inefficient query pattern - consider using 'exists?' instead of " ++
      "'pluck(:id).include?'",
    rubyFiles, from7⟩,
   ⟨mimeConstants,
    "Deprecated constant 'Mime::SET/Mime::Type' - use 'Mime::LOOKUP' or 'Mime.fetch' " ++
      "instead",
    rubyFiles, none⟩,
   ⟨paramsParser,
    "Deprecated constant 'ActionDispatch::ParamsParser' - this middleware was removed",
    rubyFiles, none⟩,
   ⟨testCaseBehavior,
    "Deprecated constant 'ActionView::TestCase::Behavior' - use 'ActionView::TestCase' " ++
      "directly",
    rubyFiles, from6⟩,
   ⟨httpAuthentication,
    "HTTP Authentication module usage may need updates",
    rubyFiles, none⟩,
   ⟨jsonParse,
    "Consider using 'JSON.parse(json, symbolize_names: true)' for safer parsing",
    rubyFiles, none⟩,
   ⟨backArgument,
    "Deprecated ':back' argument - use 'redirect_back' or 'link_back' instead",
    viewFiles, none⟩,
   ⟨formHelpers,
    "Deprecated form helpers - consider using 'form_with' instead",
    viewFiles, none⟩,
   ⟨scriptHelpers,
    "Deprecated JavaScript helpers - use unobtrusive JavaScript instead",
    viewFiles, from6⟩]

/-- Records, attachments and jobs. -/
def records : List Detection :=
  [⟨dynamicFinder,
    "Dynamic finders (find_by_*) are deprecated - use 'find_by(column: value)' instead",
    rubyFiles, none⟩,
   ⟨scopedCall,
    "Deprecated 'scoped' method - use 'all' instead",
    rubyFiles, none⟩,
   ⟨defaultScopeWhere,
    "default_scope with where conditions can cause issues - consider refactoring",
    rubyFiles, none⟩,
   ⟨updateAllTimestamps,
    "update_all bypasses callbacks and validations - ensure this is intended",
    rubyFiles, from6⟩,
   ⟨stringWhere,
    "String conditions in where() are deprecated - use hash conditions instead",
    rubyFiles, from7⟩,
   ⟨attachments,
    "ActiveStorage attachment - ensure dependent: :purge_later is set for proper cleanup",
    rubyFiles, none⟩,
   ⟨blobAnalyzable,
    "ActiveStorage::Blob::Analyzable is internal to ActiveStorage - remove the explicit " ++
      "include",
    rubyFiles, from6⟩,
   ⟨deserializationError,
    "Consider handling ActiveJob::DeserializationError for better error handling",
    rubyFiles, none⟩,
   ⟨performLater,
    "Consider using wait options with perform_later for better job scheduling",
    rubyFiles, from6⟩]

/-- Time zones, escaping and collections. -/
def conventions : List Detection :=
  [⟨timeNow,
    "Use Time.current instead of Time.now for proper timezone handling",
    rubyFiles, none⟩,
   ⟨dateTimeNow,
    "Use Time.current instead of DateTime.now for proper timezone handling",
    rubyFiles, none⟩,
   ⟨dateToday,
    "Consider using Time.current.to_date instead of Date.today for timezone consistency",
    rubyFiles, none⟩,
   ⟨uriEscape,
    "Deprecated URI.escape/unescape - use CGI.escape/unescape instead",
    rubyFiles, none⟩,
   ⟨cgiEscape,
    "Ensure CGI.escape includes .to_s to handle non-string inputs safely",
    rubyFiles, none⟩,
   ⟨collectionPresence,
    "Collection presence check might need .reject(&:blank?).present? for meaningful " ++
      "content validation",
    rubyFiles, none⟩,
   ⟨mergeKeywords,
    "Consider using double splat operator (**) when merging hashes for keyword arguments",
    rubyFiles, none⟩,
   ⟨mailerArguments,
    "Consider using params hash pattern for mailer methods with multiple parameters",
    mailerFiles, none⟩]

/-- Module names, job namespaces and client settings. -/
def naming : List Detection :=
  [⟨moduleApi,
    "Module named 'API' might cause Rails autoloading issues - consider 'Api' instead",
    rubyFiles, none⟩,
   ⟨nestedJobClass,
    "Consider using Sidekiq namespace pattern (Sidekiq::*::*) for job classes",
    jobFiles, none⟩,
   ⟨inventoryStockJob,
    "Consider transitioning from Inventory::*StockJob to Sidekiq::Stock::* namespace",
    jobFiles, none⟩,
   ⟨checkJob,
    "Consider using Sidekiq::PosStatus::Check namespace instead of CheckJob",
    jobFiles, none⟩,
   ⟨settingsBooleans,
    "Boolean values in client configuration settings should be stored as strings: " ++
      "\"true\" or \"false\"",
    rubyFiles, none⟩,
   ⟨settingsSymbolKeys,
    "Use string keys (not symbols) in client configuration settings",
    rubyFiles, none⟩,
   ⟨settingsQuery,
    "Consider using PostgreSQL cast for boolean settings: (settings ->> 'key')::boolean",
    rubyFiles, none⟩,
   ⟨moduleApi,
    "Module named 'API' should be renamed to 'Api' for Rails autoloading",
    apiFiles, none⟩,
   ⟨apiReference,
    "Reference to 'API::' module should be updated to 'Api::' for Rails autoloading",
    rubyFiles, none⟩]

/-- The Gemfile and configuration files. Whole-file updates fix these on request. -/
def projectFiles : List Detection :=
  [⟨protectedAttributesGem,
    "The protected_attributes gem is not compatible with Rails 5+",
    gemfile, none⟩,
   ⟨deprecatedFindersGem,
    "The activerecord-deprecated_finders gem is not compatible with Rails 5+",
    gemfile, none⟩,
   ⟨controllerTestingGem,
    "Ensure rails-controller-testing is properly configured for Rails 5+",
    gemfile, none⟩,
   ⟨coffeeGem,
    "The coffee-rails gem is deprecated in Rails 6+",
    gemfile, none⟩,
   ⟨sassGem,
    "Consider using cssbundling-rails in Rails 7+",
    gemfile, none⟩,
   ⟨uglifierGem,
    "Consider using jsbundling-rails in Rails 7+",
    gemfile, none⟩,
   ⟨rubyDirectiveMissing,
    "Rails 6+ requires Ruby 2.5.0 or newer (2.7.0 for Rails 7) - specify ruby version " ++
      "in Gemfile",
    gemfile, from6⟩,
   ⟨loadDefaultsMissing,
    "Missing config.load_defaults - add this to set new framework defaults",
    "config/application.rb", none⟩,
   ⟨hostsMissing,
    "Missing config.hosts configuration - Rails 6+ uses DNS rebinding protection",
    "config/environments/development.rb", from6⟩,
   ⟨uglifierCompressor,
    "Uglifier is not recommended in Rails 7+ - consider using jsbundling-rails",
    "config/environments/production.rb", from7⟩]

/-- All detections, in the order in which they run. -/
def detections : List Detection :=
  deprecations ++ records ++ conventions ++ naming ++ projectFiles

end RailsUpgrade.Catalogue
