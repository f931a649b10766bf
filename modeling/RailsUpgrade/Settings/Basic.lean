import RailsUpgrade.Settings.Options
import RailsUpgrade.Settings.Value
import RailsUpgrade.Version

/-!
# `RailsUpgrade.Settings.Basic`: settings from values, and how they are merged

`Settings.ofEntries` checks the entries of a settings file, field by field in the order in which
settings list them, and then the entries that are no fields. It collects everything that is wrong.

`Settings.ofValue` takes a whole document: a version that was written as a number is taken as text,
and `format` stands for `output_format`. `Settings.overlay` puts the command line on top.
-/

set_option autoImplicit false

namespace RailsUpgrade

/-- Why the value of a field is not accepted. -/
inductive FieldFault where
  | notABool
  | unclearBool
  | notAText
  /-- Bytes that are no text, or a text with half a character. -/
  | notUnicode
  | invalidVersion (text : String)
  | overlongVersion (number : Text.Overlong)
  | unknownFormat (name : String)
  | unknownField
  deriving DecidableEq, Repr

/-- A field with a value that is not accepted. -/
structure FieldError where
  field : String
  fault : FieldFault
  /-- The value as a message shows it. -/
  given : String
  deriving DecidableEq, Repr

/-- The message about a text that is no version. -/
def invalidVersionMessage (text : String) : String := "Invalid version: " ++ Text.quoted text

/-- The message about a format that does not exist. -/
def unknownFormatMessage (name : String) : String := "Unknown format: " ++ name

/-- What is wrong with a field. -/
def FieldFault.message : FieldFault → String
  | .notABool => "Input should be a valid boolean"
  | .unclearBool => "Input should be a valid boolean, unable to interpret input"
  | .notAText => "Input should be a valid string"
  | .notUnicode => "Input should be a valid string, unable to parse raw data as a unicode string"
  | .invalidVersion text => "Value error, " ++ invalidVersionMessage text
  | .overlongVersion number => "Value error, " ++ number.message
  | .unknownFormat name => "Value error, " ++ unknownFormatMessage name
  | .unknownField => "Extra inputs are not permitted"

/-- The kind of a fault, for programs. -/
def FieldFault.kind : FieldFault → String
  | .notABool => "bool_type"
  | .unclearBool => "bool_parsing"
  | .notAText => "string_type"
  | .notUnicode => "string_unicode"
  | .invalidVersion _ | .overlongVersion _ | .unknownFormat _ => "value_error"
  | .unknownField => "extra_forbidden"

/-- The longest start of a text that takes up at most `size` bytes. -/
def startWithin (size : Nat) : List Char → List Char
  | [] => []
  | c :: rest => if c.utf8Size ≤ size then c :: startWithin (size - c.utf8Size) rest else []

/-- A text of more than 50 bytes with its middle left out. -/
def shortened (s : String) : String :=
  if s.utf8ByteSize ≤ 50 then s
  else String.ofList (startWithin 25 s.toList ++ "...".toList
    ++ (startWithin 24 s.toList.reverse).reverse)

/-- The lines about a field: its name, what is wrong with it, and the value that was given. -/
def FieldError.detail (e : FieldError) : String :=
  "\n" ++ e.field ++ "\n  " ++ e.fault.message ++ " [type=" ++ e.fault.kind ++ ", input_value="
    ++ shortened e.given ++ "]"

/-- Whether an integer fits in 64 bits with a sign. -/
def isWord (n : Int) : Bool := -9223372036854775808 ≤ n && n ≤ 9223372036854775807

/-- Reads a truth value from a word for one, case not counting. -/
def boolOfWord (s : String) : Except FieldFault Bool :=
  let word := String.ofList (s.toList.map Char.toLower)
  if ["0", "off", "f", "false", "n", "no"].contains word then .ok false
  else if ["1", "on", "t", "true", "y", "yes"].contains word then .ok true
  else .error .unclearBool

/-- Reads a truth value: a boolean, zero or one, or a word for one. Other whole numbers are unclear
as long as they fit in 64 bits. -/
def boolOf : Value → Except FieldFault Bool
  | .bool b => .ok b
  | .int n =>
    if n == 0 then .ok false
    else if n == 1 then .ok true
    else .error (if isWord n then .unclearBool else .notABool)
  | .float x =>
    if x.isZero then .ok false
    else if x.isOne then .ok true
    else .error (if x.isWord then .unclearBool else .notABool)
  | .text s => boolOfWord s
  | .bytes b => match String.fromUTF8? ⟨b.toArray⟩ with
    | some s => boolOfWord s
    | none => .error .unclearBool
  | .halved _ => .error .notUnicode
  | _ => .error .notABool

/-- Reads a text, which may be given as bytes. -/
def textOf : Value → Except FieldFault String
  | .text s => .ok s
  | .bytes b => match String.fromUTF8? ⟨b.toArray⟩ with
    | some s => .ok s
    | none => .error .notUnicode
  | .halved _ => .error .notUnicode
  | _ => .error .notAText

/-- Reads a version. It is kept as it is written. -/
def versionOf (s : String) : Except FieldFault String :=
  match Version.parse s with
  | .ok _ => .ok s
  | .error .notDotted => .error (.invalidVersion s)
  | .error (.overlong number) => .error (.overlongVersion number)

/-- Reads the target: nothing, or a text that is a version. -/
def targetOf : Value → Except FieldFault (Option String)
  | .null => .ok none
  | v => (textOf v).bind fun s => (versionOf s).map some

/-- Reads the format of the report. -/
def formatOf (v : Value) : Except FieldFault ReportFormat :=
  (textOf v).bind fun s => match ReportFormat.ofName? s with
    | some f => .ok f
    | none => .error (.unknownFormat s)

namespace Settings

/-- The names of all fields. -/
def fieldNames : List String := "target_version" :: Switch.all.map Switch.name ++ ["output_format"]

/-- Reads one field on top of settings, or notes what is wrong with it. -/
def readField {α : Type} (entries : List (String × Value)) (name : String)
    (read : Value → Except FieldFault α) (store : α → Settings → Settings)
    (state : Settings × List FieldError) : Settings × List FieldError :=
  match entries.lookup name with
  | none => state
  | some v => match read v with
    | .ok a => (store a state.1, state.2)
    | .error fault => (state.1, state.2 ++ [⟨name, fault, v.inner⟩])

/-- Checks the entries of a settings file. -/
def ofEntries (entries : List (String × Value)) : Except (List FieldError) Settings :=
  let start : Settings × List FieldError := ({}, [])
  let state := readField entries "target_version" targetOf
    (fun t s => { s with options := { s.options with target := t } }) start
  let state := Switch.all.foldl (fun state switch =>
    readField entries switch.name boolOf
      (fun b s => { s with options := switch.set b s.options }) state) state
  let state := readField entries "output_format" formatOf (fun f s => { s with format := f }) state
  let extra := entries.filterMap fun e =>
    if fieldNames.contains e.1 then none else some ⟨e.1, .unknownField, e.2.inner⟩
  match state.2 ++ extra with
  | [] => .ok state.1
  | errors => .error errors

/-- Why a document cannot hold settings. -/
inductive ShapeFault where
  /-- A text in which a version would have to be looked up. -/
  | lookUpInText
  | lookUpInList
  | lookUpInSet
  | lookUpInBytes
  /-- A text from which the format would have to be taken out. -/
  | takeFromText
  | takeFromList
  | takeFromSet
  /-- Nothing can be looked up in a value of this kind. -/
  | notSearchable (kind : String)
  | notAMapping (kind : String)
  | keysNotText
  /-- A number in the version has too many digits to be shown. -/
  | overlongVersion
  deriving DecidableEq, Repr

/-- What is wrong with a document. -/
def ShapeFault.message : ShapeFault → String
  | .lookUpInText => "string indices must be integers, not 'str'"
  | .lookUpInList => "list indices must be integers or slices, not str"
  | .lookUpInSet => "'set' object is not subscriptable"
  | .lookUpInBytes => "a bytes-like object is required, not 'str'"
  | .takeFromText => "'str' object has no attribute 'pop'"
  | .takeFromList => "'str' object cannot be interpreted as an integer"
  | .takeFromSet => "set.pop() takes no arguments (1 given)"
  | .notSearchable kind => "argument of type '" ++ kind ++ "' is not iterable"
  | .notAMapping kind =>
    "upshift.config.settings.Settings() argument after ** must be a mapping, not " ++ kind
  | .keysNotText => "keywords must be strings"
  | .overlongVersion => Text.tooManyShown

/-- Why a document does not hold settings. -/
inductive DocumentFault where
  | shape (fault : ShapeFault)
  | fields (errors : List FieldError)
  deriving DecidableEq, Repr

/-- Takes a version as text. -/
def textVersion (entries : List (Value × Value)) : List (Value × Value) :=
  match Value.get? "target_version" entries with
  | none | some .null | some (.halved _) => entries
  | some v => Value.put (.text "target_version") (.text v.shown) entries

/-- Puts `format` in the place of `output_format`. -/
def renameFormat (entries : List (Value × Value)) : List (Value × Value) :=
  match Value.get? "format" entries with
  | none => entries
  | some v =>
    Value.put (.text "output_format") v (entries.filter fun e => !e.1.isText "format")

/-- Entries whose keys are all texts. -/
def textKeys? (entries : List (Value × Value)) : Option (List (String × Value)) :=
  entries.mapM fun
    | (.text k, v) | (.halved k, v) => some (k, v)
    | _ => none

/-- Settings from the entries of a document. -/
def ofMap (entries : List (Value × Value)) : Except DocumentFault Settings :=
  if ((Value.get? "target_version" entries).map Value.isUnshown).getD false then
    .error (.shape .overlongVersion)
  else match textKeys? (renameFormat (textVersion entries)) with
    | none => .error (.shape .keysNotText)
    | some entries => match ofEntries entries with
      | .ok s => .ok s
      | .error errors => .error (.fields errors)

/-- Settings from a document. A text, a list or a set is searched for the words before anything
else. -/
def ofValue : Value → Except DocumentFault Settings
  | .map entries => ofMap entries
  | .text s | .halved s =>
    if Text.hasPart "target_version".toList s.toList then .error (.shape .lookUpInText)
    else if Text.hasPart "format".toList s.toList then .error (.shape .takeFromText)
    else .error (.shape (.notAMapping "str"))
  | .list items =>
    if items.any (·.isText "target_version") then .error (.shape .lookUpInList)
    else if items.any (·.isText "format") then .error (.shape .takeFromList)
    else .error (.shape (.notAMapping "list"))
  | .set items =>
    if items.any (·.isText "target_version") then .error (.shape .lookUpInSet)
    else if items.any (·.isText "format") then .error (.shape .takeFromSet)
    else .error (.shape (.notAMapping "set"))
  | .bytes _ => .error (.shape .lookUpInBytes)
  | v => .error (.shape (.notSearchable v.kindName))

/-- Settings from the document of a file. One that says nothing leaves the defaults. -/
def ofDocument (v : Value) : Except DocumentFault Settings :=
  if v.isVoid then .ok {} else ofValue v

/-- What a command line adds to settings. -/
structure Overlay where
  /-- Switches that are turned on. -/
  enabled : List Switch := []
  /-- Also run repairs that are not safe. -/
  allRepairs : Bool := false
  target : Option String := none
  format : Option String := none
  deriving Repr

/-- Puts a command line on top of settings. An empty target or format counts as not given. -/
def overlay (s : Settings) (o : Overlay) : Except (List FieldError) Settings :=
  let options := o.enabled.foldl (fun options switch => switch.set true options) s.options
  let options := if o.allRepairs then { options with safeMode := false } else options
  let (options, errors) := match o.target.filter (!·.isEmpty) with
    | none => (options, [])
    | some t => match targetOf (.text t) with
      | .ok target => ({ options with target }, [])
      | .error fault => (options, [FieldError.mk "target_version" fault (Text.quoted t)])
  let (format, errors) := match o.format.filter (!·.isEmpty) with
    | none => (s.format, errors)
    | some f => match formatOf (.text f) with
      | .ok format => (format, errors)
      | .error fault => (s.format, errors ++ [FieldError.mk "output_format" fault (Text.quoted f)])
  if errors.isEmpty then .ok ⟨options, format⟩ else .error errors

end Settings

end RailsUpgrade
