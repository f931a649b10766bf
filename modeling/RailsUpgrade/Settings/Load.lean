import RailsUpgrade.Workspace
import RailsUpgrade.Yaml.Document

/-!
# `RailsUpgrade.Settings.Load`: settings from files

Settings come from a file that is named, or from the first of a few names that there is in the
directory of the application. Without a file they are the defaults.
-/

set_option autoImplicit false

namespace RailsUpgrade.Settings

/-- The names under which settings are looked for, in order. -/
def fileNames : List String := [".upshift.yaml", ".upshift.yml", "upshift.yaml", "upshift.yml"]

/-- A path below a root, as messages show it. -/
def shownPath (root : Root) (path : String) : String :=
  let p := Path.Lexical.parse path
  let r := Path.Lexical.parse root.shown
  if p.slashes == 0 then (Path.Lexical.mk r.slashes (r.names ++ p.names)).text else p.text

/-- Reads settings from a file. -/
def ofFile (t : Tree) (root : Root) (path : String) : Except Failure Settings :=
  match t.read root path with
  | .error .missing | .error .blocked => .error (.noSettingsFile (shownPath root path))
  | .error .isDir => .error (.settingsFileIsDir (shownPath root path))
  | .error .undecodable => .error .settingsFileUndecodable
  | .ok text => match Yaml.read text with
    | .error fault => .error (.settingsFileMalformed fault)
    | .ok v => match ofDocument v with
      | .ok s => .ok s
      | .error (.shape fault) => .error (.settingsShape fault)
      | .error (.fields errors) => .error (.settingsFields errors)

/-- The settings of an application: those of the first file that there is. -/
def find (t : Tree) (root : Root) : Except Failure Settings :=
  match fileNames.find? (t.existsAt root) with
  | none => .ok {}
  | some name => ofFile t root name

end RailsUpgrade.Settings
