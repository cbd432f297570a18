/-! The arguments of the command line. -/
namespace TableLexer.CommandLine

/-- How much detail a message for the log goes into. -/
inductive Level where
  | error
  | warn
  | info
  | debug
  | trace
deriving DecidableEq, Repr

namespace Level

def all : List Level := [error, warn, info, debug, trace]

def name : Level → String
  | error => "error"
  | warn => "warn"
  | info => "info"
  | debug => "debug"
  | trace => "trace"

def rank : Level → Nat
  | error => 1
  | warn => 2
  | info => 3
  | debug => 4
  | trace => 5

def ofName? (name : String) : Option Level := all.find? (·.name == name)

end Level

/-- The forms in which a table can be given out. -/
inductive Format where
  | json
  | source
deriving DecidableEq, Repr

def Format.ofName? : String → Option Format
  | "json" => some .json
  | "rust" => some .source
  | _ => none

inductive Activity where
  | lex
  | compile
deriving DecidableEq, Repr

def Activity.ofName? : String → Option Activity
  | "lex" => some .lex
  | "compile" => some .compile
  | _ => none

/-- Options that have a value. -/
inductive Setting where
  | logFile
  | logLevel
  | ignore
  | emit
  | output
deriving DecidableEq, Repr

/-- Options without a value. -/
inductive Switch where
  | recover
  | strict
  | noCompress
  | minimize
deriving DecidableEq, Repr

/-- What has been asked for. -/
structure Arguments where
  logFile : Option String := none
  logLevel : Level := .info
  activity : Option Activity := none
  files : List String := []
  ignore : Option String := none
  format : Format := .json
  output : Option String := none
  recover : Bool := false
  strict : Bool := false
  noCompress : Bool := false
  minimize : Bool := false
deriving DecidableEq, Repr

/-- The ways in which arguments can be wrong. -/
inductive UsageError where
  | unexpected (argument : String)
  | missingValue (option : String)
  | badValue (option value : String)
  | missingFile
  | missingActivity
deriving DecidableEq, Repr

def UsageError.message : UsageError → String
  | unexpected argument => s!"Found argument '{argument}' which was not expected"
  | missingValue option => s!"The argument '{option}' requires a value but none was supplied"
  | badValue option value => s!"'{value}' isn't a valid value for '{option}'"
  | missingFile => "A required file was not provided"
  | missingActivity => "A subcommand is required: lex or compile"

/-- The name of an option: a word or a letter. -/
inductive OptionName where
  | long (name : String)
  | short (letter : Char)
deriving DecidableEq, Repr

namespace Setting

def ofName? (activity : Option Activity) (name : OptionName) : Option Setting :=
  match name, activity with
  | .long "logfile", _ => some logFile
  | .long "loglevel", _ => some logLevel
  | .long "ignore", some .lex => some ignore
  | .long "emit", some .compile => some emit
  | .long "output", some .compile => some output
  | .short 'o', some .compile => some output
  | _, _ => none

/-- Sets an option to a value. -/
def set? (s : Setting) (a : Arguments) (value : String) : Option Arguments :=
  match s with
  | logFile => some { a with logFile := some value }
  | logLevel => (Level.ofName? value).map fun level => { a with logLevel := level }
  | ignore => some { a with ignore := some value }
  | emit => (Format.ofName? value).map fun format => { a with format }
  | output => some { a with output := some value }

end Setting

namespace Switch

def ofName? (activity : Option Activity) (name : OptionName) : Option Switch :=
  match name, activity with
  | .long "recover", some .lex => some recover
  | .long "strict", some _ => some strict
  | .long "no-compress", some _ => some noCompress
  | .long "minimize", some _ => some minimize
  | _, _ => none

def set (s : Switch) (a : Arguments) : Arguments :=
  match s with
  | recover => { a with recover := true }
  | strict => { a with strict := true }
  | noCompress => { a with noCompress := true }
  | minimize => { a with minimize := true }

end Switch

namespace Arguments

/-- The number of files that an activity needs: a description and, to scan, an input. -/
def fileCount : Activity → Nat
  | .lex => 2
  | .compile => 1

/-- Takes an argument that is no option: the activity, or a file. -/
def addPlain (a : Arguments) (argument : String) : Except UsageError Arguments :=
  match a.activity with
  | none =>
    match Activity.ofName? argument with
    | some activity => .ok { a with activity := some activity }
    | none => .error (.unexpected argument)
  | some activity =>
    if a.files.length < fileCount activity then .ok { a with files := a.files ++ [argument] }
    else .error (.unexpected argument)

def addValue (a : Arguments) (s : Setting) (option value : String) : Except UsageError Arguments :=
  match s.set? a value with
  | some a => .ok a
  | none => .error (.badValue option value)

def isOption (argument : String) : Bool := argument.startsWith "-" && argument != "-"

/-- The name of an option, and the value that is part of the same argument. A word stands behind two
or more dashes, and a letter behind one. -/
def split (argument : String) : OptionName × Option String :=
  let value? (attached : List Char) : Option String :=
    if attached.isEmpty then none else some (String.ofList (attached.dropWhile (· = '=')))
  match argument.toList with
  | '-' :: c :: rest =>
    if c = '-' then
      let text := rest.dropWhile (· = '-')
      (.long (String.ofList (text.takeWhile (· ≠ '='))), value? (text.dropWhile (· ≠ '=')))
    else (.short c, value? rest)
  | text => (.long (String.ofList text), none)

/-- What the next argument can be. -/
inductive Expected where
  | anything
  | value (s : Setting) (option : String)
  | plain
deriving DecidableEq, Repr

/-- Takes one argument. After a double dash none is an option. A value is nothing to a switch. -/
def add (a : Arguments) (expected : Expected) (argument : String) :
    Except UsageError (Arguments × Expected) := do
  match expected with
  | .plain => return (← a.addPlain argument, .plain)
  | .value s option =>
    if isOption argument then throw (.missingValue option)
    return (← a.addValue s option argument, .anything)
  | .anything =>
    if argument = "--" then return (a, .plain)
    if !isOption argument then return (← a.addPlain argument, .anything)
    let (name, attached) := split argument
    match Switch.ofName? a.activity name, Setting.ofName? a.activity name, attached with
    | some s, _, _ => return (s.set a, .anything)
    | none, some s, none => return (a, .value s argument)
    | none, some s, some value => return (← a.addValue s argument value, .anything)
    | none, none, _ => throw (.unexpected argument)

/-- A task for the library. -/
inductive Task where
  | lex (description input : String)
  | compile (description : String)
deriving DecidableEq, Repr

/-- The task that has been asked for. -/
def task (a : Arguments) : Except UsageError Task :=
  match a.activity, a.files with
  | some .lex, [description, input] => .ok (.lex description input)
  | some .compile, [description] => .ok (.compile description)
  | some _, _ => .error .missingFile
  | none, _ => .error .missingActivity

/-- Reads arguments. -/
def read (arguments : List String) : Except UsageError (Arguments × Task) := do
  let (a, expected) ← arguments.foldlM (fun (a, expected) argument => add a expected argument)
    (({}, .anything) : Arguments × Expected)
  match expected with
  | .value _ option => throw (.missingValue option)
  | _ => return (a, ← a.task)

end Arguments

end TableLexer.CommandLine
