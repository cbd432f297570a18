import TableLexer.CommandLine.Console
import TableLexer.CommandLine.LogPath
import TableLexer.Lexicon
import TableLexer.Regex.Reader

/-! The tasks of the command line: to scan a file, and to compile a description to a table. -/
namespace TableLexer.CommandLine

open Session

variable {m : Type → Type} [Monad m] [Host m]

/-- The picture at the start of every log. -/
def banner : String := "
                            _
 _ __ ___  _   _ _ __   ___| |__
| '_ ` _ \\| | | | '_ \\ / __| '_ \\
| | | | | | |_| | | | | (__| | | |
|_| |_| |_|\\__,_|_| |_|\\___|_| |_|
"

def readFile (path : String) : Session m String := do
  unless ← host (Host.isFile path) do giveUp s!"Could not find file {path}"
  orGiveUp (← host (Host.readText path)) fun e => s!"Could not read file {path}: {e.message}"

namespace Arguments

/-- The options of a description, changed as the arguments ask. -/
def adjust (a : Arguments) (o : Options) : Options where
  config := if a.strict then { o.config with ambiguity := .strict } else o.config
  compress := o.compress && !a.noCompress
  minimize := o.minimize || a.minimize

end Arguments

/-- Compiles the description in a file. -/
def loadLexicon (a : Arguments) (path : String) : Session m Lexicon := do
  let (description, journal) := (Description.read (← readFile path)).outcome
  logAll (Entry.ofJournal false journal)
  let d ← orGiveUp description fun e => s!"Error loading description {path}: {e.message}"
  let (lexicon, journal) := (Lexicon.compile { d with options := a.adjust d.options }).outcome
  logAll (Entry.ofJournal true journal)
  let l ← orGiveUp lexicon fun e => s!"Error loading description {path}: {e.message}"
  log ⟨.debug, s!"Loaded description {path} with {l.terminals.size - 1} terminals"⟩
  return l

/-- Ignores all terminals whose names match. -/
def ignoreMatching (s : Scanner Lexicon) (filter : String) : Session m (Scanner Lexicon) := do
  let some regex := Regex.whole? filter
    | giveUp s!"Failed to build terminal name regex: {filter}"
  let ids := s.table.terminals.entries.filterMap fun (id, name) =>
    if id ≠ eof ∧ regex.matchesIn name then some id else none
  if ids.isEmpty then reportError s!"No terminals match '{filter}'"
  ids.foldlM (fun s id => orGiveUp (s.ignore id) fun e => s!"Failed to ignore terminal {id}: {e.message}") s

/-- The numbers of tokens and of failures to scan one. -/
structure Tally where
  tokens : Nat := 0
  failures : Nat := 0

/-- Tells about an event, and counts it. -/
def tell (a : Arguments) (input : String) (terminals : Registry) (tally : Tally)
    (event : Scanner.Event) : Session m Tally := do
  logAll (Entry.ofEvent? terminals event).toList
  match event with
  | .token t =>
    showToken s!"{t.describe terminals} @{t.location.shown}"
    return if t.isEof then tally else { tally with tokens := tally.tokens + 1 }
  | .failure e =>
    lexFailed s!"{input}: {e.message}"
    unless a.recover do giveUp s!"Failed to lex {input}"
    return { tally with failures := tally.failures + 1 }
  | .passed _ | .skipped .. => return tally

/-- Scans a file with the lexer that a description compiles to. -/
def lex (a : Arguments) (description input : String) : Session m Unit := do
  let lexicon ← loadLexicon a description
  let text ← readFile input
  let scanner ← orGiveUp (lexicon.scanner text) fun e => s!"Failed to start scanner: {e.message}"
  let scanner ← match a.ignore with
    | some filter => ignoreMatching scanner filter
    | none => pure scanner
  lexing input
  let tally ← scanner.recover.1.foldlM (tell a input lexicon.terminals) {}
  let elapsed ← host Host.elapsed
  let summary := s!"{input} ({tally.tokens} tokens in {elapsed}ms)"
  if tally.failures = 0 then lexed summary
  else
    reportError s!"{tally.failures} lexical errors in {input}"
    lexFailed summary

/-- Gives out the table that a description compiles to. -/
def compile (a : Arguments) (description : String) : Session m Unit := do
  let lexicon ← loadLexicon a description
  let artifact := match a.format with
    | .json => lexicon.json
    | .source => lexicon.rustSource
  match a.output with
  | none => putLine artifact
  | some path =>
    orGiveUp (← host (Host.writeText path artifact)) fun e => s!"Failed to write {path}: {e.message}"
    inform ("Wrote " ++ (← paint .brightWhite path))
  let columns := match lexicon.compressed with
    | some t => t.columns
    | none => lexicon.table.columns
  let size := s!"{lexicon.table.states} states, {columns} columns, {lexicon.terminals.size - 1} terminals"
  let elapsed ← host Host.elapsed
  inform s!"Compiled {description}: {size} in {elapsed}ms"

def perform (a : Arguments) : Arguments.Task → Session m Unit
  | .lex description input => lex a description input
  | .compile description => compile a description

/-- Opens the log that the arguments ask for, and returns the path of its file. -/
def openLog (a : Arguments) : Session m (Option String) := do
  match a.logFile with
  | some path =>
    let file ← host (LogPath.expand path)
    orGiveUp (← host (Host.openLog file)) fun e => s!"Failed to configure logging to {path}: {e.message}"
    return some file
  | none => return none

/-- Carries out a task, and returns the exit code: zero, or one if the task is given up. -/
def run (a : Arguments) (task : Arguments.Task) : m Nat := do
  let styles ← Host.showsStyles
  match ← (openLog a).run { styles } with
  | .error .halt => return 1
  | .ok file =>
    let session : Session m Unit := do
      log ⟨.info, banner⟩
      perform a task
    match ← session.run { log := file, level := a.logLevel, styles } with
    | .error .halt => return 1
    | .ok () => return 0

end TableLexer.CommandLine
