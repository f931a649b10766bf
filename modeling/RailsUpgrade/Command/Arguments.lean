import RailsUpgrade.Settings.Basic

/-!
# `RailsUpgrade.Command.Arguments`: the command line

Options may stand anywhere among the arguments. Long options start with two hyphens and take a value
after an equals sign or as the next argument. Short options have one letter and may be joined behind
one hyphen; a value may follow the letter directly. After a double hyphen everything is an
argument.
-/

set_option autoImplicit false

namespace RailsUpgrade.Command

/-- An option that is on or off. -/
inductive Flag where
  | analyze
  | allRepairs
  | debug
  | version
  | help
  | switch (s : Switch)
  deriving DecidableEq, Repr

/-- An option with a value. -/
inductive Setting where
  | target
  | config
  | format
  deriving DecidableEq, Repr

/-- An option. -/
inductive Opt where
  | flag (f : Flag)
  | setting (s : Setting)
  deriving DecidableEq, Repr

/-- The options with a long name that the command declares. The two that the parser of the command line
adds by itself, to install and to show the completion of a shell (`--install-completion` and
`--show-completion`), are left out: they write into the shell of the user and not into an application,
and are refused here like any unknown option. -/
def longOptions : List (String × Opt) :=
  [("--analyze", .flag .analyze), ("--dry-run", .flag (.switch .dryRun)),
   ("--unsafe", .flag .allRepairs), ("--verbose", .flag (.switch .verbose)),
   ("--target", .setting .target), ("--update-gems", .flag (.switch .updateGems)),
   ("--update-configs", .flag (.switch .updateConfigs)),
   ("--update-migrations", .flag (.switch .updateMigrations)),
   ("--update-job-namespaces", .flag (.switch .updateJobNamespaces)),
   ("--update-api-module", .flag (.switch .updateApiModule)),
   ("--update-stock-jobs", .flag (.switch .updateStockJobs)),
   ("--update-order-jobs", .flag (.switch .updateOrderJobs)),
   ("--update-pos-status-jobs", .flag (.switch .updatePosStatusJobs)),
   ("--config", .setting .config), ("--format", .setting .format), ("--debug", .flag .debug),
   ("--version", .flag .version), ("--help", .flag .help)]

/-- The options with a letter. -/
def shortOptions : List (Char × Opt) :=
  [('a', .flag .analyze), ('d', .flag (.switch .dryRun)), ('V', .flag (.switch .verbose)),
   ('t', .setting .target), ('g', .flag (.switch .updateGems)),
   ('c', .flag (.switch .updateConfigs)), ('j', .flag (.switch .updateJobNamespaces)),
   ('v', .flag .version)]

/-- What a command line asks for. -/
structure Arguments where
  paths : List String := []
  analyze : Bool := false
  debug : Bool := false
  overlay : Settings.Overlay := {}
  config : Option String := none
  /-- The first of the options that are answered before anything else. -/
  early : Option Flag := none
  deriving Repr

/-- Why a command line cannot be understood. -/
inductive UsageError where
  | unknownOption
  | needsValue
  | takesNoValue
  | tooManyPaths
  deriving DecidableEq, Repr

namespace Arguments

/-- Turns a flag on. -/
def turnOn (a : Arguments) : Flag → Arguments
  | .analyze => { a with analyze := true }
  | .allRepairs => { a with overlay := { a.overlay with allRepairs := true } }
  | .debug => { a with debug := true }
  | .version => { a with early := a.early.or (some .version) }
  | .help => { a with early := a.early.or (some .help) }
  | .switch s => { a with overlay := { a.overlay with enabled := a.overlay.enabled ++ [s] } }

/-- Sets an option. -/
def assign (a : Arguments) (value : String) : Setting → Arguments
  | .target => { a with overlay := { a.overlay with target := some value } }
  | .format => { a with overlay := { a.overlay with format := some value } }
  | .config => { a with config := some value }

/-- An option, given a value that is attached and the next argument. The second result tells whether
the next argument was used. -/
def option (a : Arguments) (o : Opt) (attached next : Option String) :
    Except UsageError (Arguments × Bool) :=
  match o, attached, next with
  | .flag f, none, _ => .ok (a.turnOn f, false)
  | .flag _, some _, _ => .error .takesNoValue
  | .setting s, some value, _ => .ok (a.assign value s, false)
  | .setting s, none, some value => .ok (a.assign value s, true)
  | .setting _, none, none => .error .needsValue

/-- Letters behind one hyphen. -/
def letters (a : Arguments) (next : Option String) :
    List Char → Except UsageError (Arguments × Bool)
  | [] => .ok (a, false)
  | c :: rest => match shortOptions.lookup c with
    | none => .error .unknownOption
    | some (.flag f) => (a.turnOn f).letters next rest
    | some o =>
      a.option o (if rest.isEmpty then none else some (String.ofList rest)) next

/-- An argument that starts with a hyphen. -/
def hyphenated (a : Arguments) (arg : List Char) (next : Option String) :
    Except UsageError (Arguments × Bool) :=
  let name := arg.takeWhile (· != '=')
  let value := if arg.contains '=' then some (String.ofList (arg.drop (name.length + 1))) else none
  match longOptions.lookup (String.ofList name) with
  | some o => a.option o value next
  | none => match arg with
    | '-' :: '-' :: _ => .error .unknownOption
    | _ => a.letters next (arg.drop 1)

/-- Reads arguments one after the other. `used` tells whether the first of them is the value of the
option before it. -/
def read (a : Arguments) (used : Bool) : List String → Except UsageError Arguments
  | [] => .ok a
  | arg :: rest =>
    if used then a.read false rest
    else if arg == "--" then .ok { a with paths := a.paths ++ rest }
    else match arg.toList with
      | '-' :: c :: more => match a.hyphenated ('-' :: c :: more) rest.head? with
        | .error e => .error e
        | .ok (a, used) => a.read used rest
      | _ => Arguments.read { a with paths := a.paths ++ [arg] } false rest

/-- Reads a command line. There is at most one path, unless an option is answered early. -/
def parse (args : List String) : Except UsageError Arguments :=
  match read {} false args with
  | .error e => .error e
  | .ok a => if a.early.isNone && a.paths.length > 1 then .error .tooManyPaths else .ok a

/-- The path of the application. -/
def path (a : Arguments) : String := a.paths.head?.getD "."

end Arguments

end RailsUpgrade.Command
