import Std.Time
import TableLexer.CommandLine.Path
import TableLexer.CommandLine.Run

/-! The command line on a real machine. -/
namespace TableLexer.CommandLine

/-- What a session on a real machine knows: when it began, and whether the console shows styles. -/
structure Terminal where
  start : Nat
  styles : Bool

abbrev OnTerminal := ReaderT Terminal IO

namespace OnTerminal

def fileError : IO.Error → FileError
  | .noFileOrDirectory .. => .notFound
  | .inappropriateType _ 21 _ => .isDirectory
  | .inappropriateType _ 20 _ => .notDirectory
  | .alreadyExists .. => .alreadyExists
  | .invalidArgument _ 36 _ => .nameTooLong
  | .resourceExhausted _ 28 _ => .noSpace
  | .permissionDenied _ code details => .other s!"{details} (os error {code})"
  | e => .other (toString e)

/-- The result of an access to a file. -/
def access {α : Type} (action : IO α) : IO (Except FileError α) := do
  try return .ok (← action)
  catch e => return .error (fileError e)

/-- Whether a path names a file, readable or not. -/
def isFile (path : String) : IO Bool := do
  try
    discard ((← IO.FS.Handle.mk path .read).read 1)
    return true
  catch
    | .permissionDenied .. => return true
    | _ => return false

/-- Whether an environment variable is set to something other than zero. -/
def flag? (name : String) : IO (Option Bool) := return (← IO.getEnv name).map (· != "0")

/-- Whether styles are shown: the environment can force or forbid them, and else a terminal shows
them. -/
def usesStyles : IO Bool := do
  if (← flag? "CLICOLOR_FORCE") == some true then return true
  if (← flag? "NO_COLOR").isSome then return false
  return (← flag? "CLICOLOR").getD true && (← (← IO.getStdout).isTty)

def moment (t : Std.Time.DateTime) : Moment where
  year := t.year.toNat
  month := t.month.toNat
  day := t.day.toNat
  hour := t.hour.toNat
  minute := t.minute.toNat
  second := t.second.toInt.toNat
  nanosecond := t.nanosecond.toInt.toNat
  offset := t.offset.second.val / 60

/-- The current moment. It is one of universal time if the zone of local time is not known. -/
def now : IO Moment := do
  try return moment (← Std.Time.DateTime.now)
  catch _ => return moment (.ofTimestamp (← Std.Time.Timestamp.now) .UTC)

/-- Makes a directory in one that is there, unless it is there itself. -/
def makeDirectory (path : String) : IO Unit := do
  try IO.FS.createDir path
  catch
    | .noFileOrDirectory name code details => throw (.noFileOrDirectory name code details)
    | e => try IO.FS.createDirAll path catch _ => throw e

/-- Makes a directory, given the names that lead to it with the last one first. If the directory
that it is in is not there, that one is made before. -/
def makeDirectories (root : String) : List String → IO Unit
  | [] => return
  | name :: around => do
    let path := root ++ "/".intercalate (name :: around).reverse
    try makeDirectory path
    catch
      | .noFileOrDirectory .. =>
        makeDirectories root around
        makeDirectory path
      | e => throw e

instance : Host OnTerminal where
  isFile path := isFile path
  readText path := do
    match ← access (IO.FS.readBinFile path) with
    | .error e => return .error e
    | .ok content =>
      match String.fromUTF8? content with
      | some text => return .ok text
      | none => return .error .invalidText
  writeText path text := access (IO.FS.writeFile path text)
  openLog path := access do
    makeDirectories (Path.root path) (Path.directoryNames path).reverse
    discard (IO.FS.Handle.mk path .append)
  appendText path text := do (← IO.FS.Handle.mk path .append).putStr text
  putLine text := IO.println text
  showsStyles := return (← read).styles
  environment? name := IO.getEnv name
  now := now
  elapsed := return (← IO.monoMsNow) - (← read).start

end OnTerminal

end TableLexer.CommandLine

open TableLexer.CommandLine in
def main (arguments : List String) : IO UInt32 := do
  match Arguments.read arguments with
  | .error e =>
    IO.eprintln s!"error: {e.message}"
    return 1
  | .ok (arguments, task) =>
    let terminal : Terminal := { start := ← IO.monoMsNow, styles := ← OnTerminal.usesStyles }
    return UInt32.ofNat (← ReaderT.run (run arguments task : OnTerminal Nat) terminal)
