import RailsUpgrade.Pattern.Template
import RailsUpgrade.Settings.Basic
import RailsUpgrade.Tree.Access
import RailsUpgrade.Yaml.Fault

/-!
# `RailsUpgrade.Failure`: what ends a run

A run that cannot go on ends with a `Failure`. What it has written until then stays.
-/

set_option autoImplicit false

namespace RailsUpgrade

/-- Why a run ended. -/
inductive Failure where
  /-- The template of a repair is faulty. -/
  | template (error : Pattern.TemplateError)
  /-- A number of a version is too long. -/
  | overlong (number : Text.Overlong)
  | cannotWrite (path : String) (fault : WriteFault)
  | noSettingsFile (path : String)
  | settingsFileIsDir (path : String)
  | settingsFileUndecodable
  | settingsFileMalformed (fault : Yaml.Fault)
  | settingsShape (fault : Settings.ShapeFault)
  | settingsFields (errors : List FieldError)
  deriving DecidableEq, Repr

/-- What ended a run. Of faulty fields only their number is told. -/
def Failure.message : Failure → String
  | .template error => error.message
  | .overlong number => number.message
  | .cannotWrite path fault => "Cannot write " ++ path ++ ": " ++ fault.reason
  | .noSettingsFile path => "Config file not found: " ++ path
  | .settingsFileIsDir path => "[Errno 21] Is a directory: " ++ Text.quoted path
  | .settingsFileUndecodable => "The config file is not UTF-8 text"
  | .settingsFileMalformed fault => fault.message
  | .settingsShape fault => fault.message
  | .settingsFields errors =>
    toString errors.length ++ " validation error" ++ (if errors.length == 1 then "" else "s")
      ++ " for Settings"

end RailsUpgrade
