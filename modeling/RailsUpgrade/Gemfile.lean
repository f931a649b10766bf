import RailsUpgrade.Pattern.Spelling
import RailsUpgrade.Version

/-!
# `RailsUpgrade.Gemfile`: the list of gems for a release

`Gemfile.update` brings the text of a Gemfile up to the release line of a target: it pins Rails,
replaces or comments out gems that the release does not support, pins gems that the version of
Ruby asks for, and adds what is missing. A line that is commented out is never edited, since
edits only apply to lines that begin with a gem.
-/

set_option autoImplicit false

namespace RailsUpgrade.Gemfile

open Pattern (Expr CharSet)

/-- A release line: the least target that belongs to it, the pin of Rails, and the version of Ruby
that it asks for. -/
structure ReleaseLine where
  since : String
  railsPin : String
  ruby : String
  deriving DecidableEq, Repr

/-- The release lines, newest first. -/
def releaseLines : List ReleaseLine :=
  [⟨"7.0.0", "~> 7.0.0", "3.0.0"⟩, ⟨"6.0.0", "~> 6.1.0", "2.7.0"⟩, ⟨"5.0.0", "~> 5.2.0", "2.5.0"⟩]

/-- The release line of a target. -/
def releaseLine? (target : String) : Option ReleaseLine :=
  releaseLines.find? fun line => Version.atLeast (some target) line.since

/-- A line that a gem is replaced by, for the targets that a constraint admits. -/
structure Edit where
  gem : String
  replacement : String
  constraint : String
  deriving DecidableEq, Repr

/-- A whole line that asks for a gem. Group 1 is its margin. -/
def gemLine (gem : String) : Expr :=
  let quote := Expr.one (.ofItems [.one '\x27', .one '\x22'])
  .concat
    [.anchor .lineStart,
     .group 1 (.rep (.one (.ofItems [.one ' ', .one '\t'])) 0 none true),
     .literal "gem".toList,
     .rep (.one (.ofItems [.kind .blank false false])) 1 none true,
     quote, .literal gem.toList, quote,
     .rep (.one (.butItems [.one '\n'])) 0 none true,
     .anchor .lineEnd]

/-- Replaces the lines of a gem, if the target asks for it. Their margins stay. -/
def Edit.apply (e : Edit) (target : String) (text : List Char) : List Char :=
  if (Constraint.text e.constraint).admits (some target) then
    (gemLine e.gem).replaceAll (fun m => m.group 1 ++ e.replacement.toList) text
  else text

/-- Gems that a release does not support. -/
def incompatible : List Edit :=
  [⟨"sass-rails", "gem 'cssbundling-rails'", ">= 7.0.0"⟩,
   ⟨"uglifier", "gem 'jsbundling-rails'", ">= 7.0.0"⟩,
   ⟨"coffee-rails", "# gem 'coffee-rails' # Removed in Rails 7", ">= 7.0.0"⟩,
   ⟨"jquery-rails", "# gem 'jquery-rails' # Consider using importmap-rails in Rails 7", ">= 7.0.0"⟩,
   ⟨"coffee-rails", "# gem 'coffee-rails' # Consider using webpacker in Rails 6", ">= 6.0.0"⟩,
   ⟨"grape_on_rails_routes", "# gem 'grape_on_rails_routes' # Incompatible with Rails 5.x",
    ">= 5.0.0"⟩,
   ⟨"protected_attributes", "# gem 'protected_attributes' # Removed in Rails 5", ">= 5.0.0"⟩,
   ⟨"activerecord-deprecated_finders",
    "# gem 'activerecord-deprecated_finders' # Removed in Rails 5", ">= 5.0.0"⟩,
   ⟨"rspec-rails", "gem 'rspec-rails', '~> 4.0' # Updated for Rails 5.x compatibility", "< 6.0.0"⟩]

/-- The pin that a release line of Ruby asks for. -/
def rubyPin? (rubyLine : String) : Option Edit :=
  match rubyLine with
  | "2.6" => some ⟨"nokogiri",
      "gem 'nokogiri', '~> 1.13.10' # Pinned for Ruby 2.6.x compatibility", ">= 5.0.0"⟩
  | "2.5" => some ⟨"nokogiri",
      "gem 'nokogiri', '~> 1.12.5' # Pinned for Ruby 2.5.x compatibility", ">= 5.0.0"⟩
  | _ => none

/-- The pin of Rails. -/
def railsGem : Pattern := .fixed {} r#"gem\s+['"]rails['"],\s+['"][^'"\n]*['"]"#

/-- A line that says which Ruby to use. -/
def rubyDirective : Pattern := .fixed .byLine r"^[ \t]*ruby\b"

/-- A line that says which Ruby to use, in any form of a requirement. Group 1 is the release
line. -/
def rubyVersion : Pattern :=
  .fixed .byLine r#"^[ \t]*ruby\b[ \t(]*['"][~><=! \t]*(\d+\.\d+)"#

/-- What is added for releases that speed up their start. -/
def bootsnapLines : List Char :=
  "\n# Added by upshift for Rails 5.2.0\ngem 'bootsnap', '>= 1.1.0', require: false\n".toList

/-- Adds the gem that speeds up the start, if nothing mentions it. -/
def addBootsnap (text : List Char) : List Char :=
  if Text.hasPart "bootsnap".toList text then text
  else (if text.getLast? == some '\n' then text else text ++ ['\n']) ++ bootsnapLines

/-- The release line of Ruby: the first one that the text asks for, else that of the release. -/
def rubyLineOf (line : ReleaseLine) (text : List Char) : String :=
  match rubyVersion.expr.search text with
  | some m => String.ofList (m.group 1)
  | none => ((Version.parse? line.ruby).map Version.line).getD ""

/-- Brings the text of a Gemfile up to a release line. -/
def updateTo (line : ReleaseLine) (target : String) (text : List Char) : List Char :=
  let text := railsGem.expr.replaceAll
    (fun _ => "gem 'rails', '".toList ++ line.railsPin.toList ++ "'".toList) text
  let text := incompatible.foldl (fun text e => e.apply target text) text
  let hasDirective := rubyDirective.found text
  let text := match rubyPin? (rubyLineOf line text) with
    | some pin => pin.apply target text
    | none => text
  let text := if line.since == "5.0.0" then addBootsnap text else text
  if hasDirective then text else "ruby '".toList ++ line.ruby.toList ++ "'\n".toList ++ text

/-- The text of a Gemfile for a target. Targets before the first release line change nothing. -/
def updated (target : String) (text : List Char) : List Char :=
  match releaseLine? target with
  | none => text
  | some line => updateTo line target text

/-- Brings the text of a Gemfile up to a target. A target with too long a number is an error. -/
def update (target : String) (text : List Char) : Except Text.Overlong (List Char) :=
  match Version.overlong? target with
  | some number => .error number
  | none => .ok (updated target text)

end RailsUpgrade.Gemfile
