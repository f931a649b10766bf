import RailsUpgrade.Pattern.Spelling
import RailsUpgrade.Version

/-!
# `RailsUpgrade.FrameworkConfig`: configuration files of the framework

Four edits of configuration files, each for the targets from a version on: the framework defaults
in `config/application.rb`, the faster start in `config/boot.rb`, the allowed hosts of the
development environment, and the compressor of the production environment.
-/

set_option autoImplicit false

namespace RailsUpgrade.FrameworkConfig

/-- The line that sets up the bundle. Group 1 is the whole line. -/
def bundlerSetup : Pattern := .fixed .byLine "^(.*require ['\\\x22]bundler/setup['\\\x22].*)$"

/-- Adds the faster start after the line that sets up the bundle. -/
def addBootsnap (text : List Char) : List Char :=
  if Text.hasPart "bootsnap/setup".toList text then text
  else bundlerSetup.expr.replaceFirst
    (fun m => m.group 1 ++
      "\nrequire 'bootsnap/setup' # Speed up boot time by caching expensive operations.".toList)
    text

/-- A setting of the framework defaults. -/
def loadDefaults : Pattern := .fixed {} r"config\.load_defaults\s+[\d.]+"

/-- The line that opens the application class. Group 1 is its margin. -/
def applicationClass : Pattern :=
  .fixed .byLine r"^([ \t]*)class Application < Rails::Application[ \t]*\n"

/-- Sets the framework defaults to the release line of the target. -/
def setLoadDefaults (target : Version) (text : List Char) : List Char :=
  let setting := "config.load_defaults ".toList ++ target.line.toList
  if Text.hasPart "config.load_defaults".toList text then
    loadDefaults.expr.replaceAll (fun _ => setting) text
  else applicationClass.expr.replaceFirst
    (fun m => m.text ++ m.group 1 ++ "  ".toList ++ setting ++ "\n".toList) text

/-- A line with a setting of the mailer. -/
def mailerSetting : Pattern := .fixed .byLine r"^[ \t]*config\.action_mailer.*\n"

/-- The line that opens the block of an environment. -/
def configureBlock : Pattern := .fixed .byLine r"^[ \t]*Rails\.application\.configure do[ \t]*\n"

/-- The lines that allow all hosts. -/
def hostsLines : List Char :=
  "  # Allow all hosts in development\n  config.hosts.clear\n".toList

/-- Allows all hosts, after the first setting of the mailer or at the start of the block. -/
def allowHosts (text : List Char) : List Char :=
  if Text.hasPart "config.hosts".toList text then text
  else match mailerSetting.expr.search text with
    | some m => m.left ++ m.text ++ '\n' :: hostsLines ++ m.right
    | none => match configureBlock.expr.search text with
      | some m => m.left ++ m.text ++ hostsLines ++ m.right
      | none => text

/-- The line that chooses the old compressor. Group 1 is its margin. -/
def uglifier : Pattern := .fixed .byLine r"^([ \t]*)config\.assets\.js_compressor = :uglifier"

/-- Comments out the old compressor. -/
def dropUglifier (text : List Char) : List Char :=
  uglifier.expr.replaceAll
    (fun m => m.group 1 ++ "# config.assets.js_compressor = :terser".toList) text

/-- An edit of one configuration file, for targets from `since` on. -/
structure Edit where
  path : String
  since : String
  apply : Version → List Char → List Char

/-- The edits, in the order in which they run. -/
def edits : List Edit :=
  [⟨"config/application.rb", "0.0.0", setLoadDefaults⟩,
   ⟨"config/boot.rb", "5.2.0", fun _ => addBootsnap⟩,
   ⟨"config/environments/development.rb", "6.0.0", fun _ => allowHosts⟩,
   ⟨"config/environments/production.rb", "7.0.0", fun _ => dropUglifier⟩]

end RailsUpgrade.FrameworkConfig
