import TableLexer.CharClass
import TableLexer.CommandLine.Arguments
import TableLexer.CommandLine.TimeFormat

/-! What the log says about work that keeps a journal, and about scanning. -/
namespace TableLexer.CommandLine

/-- A message for the log. -/
structure Entry where
  level : Level
  message : String
deriving DecidableEq, Repr

namespace Entry

/-- The line of the log for an entry that is made now. -/
def line (e : Entry) (now : Moment) : String :=
  s!"{now.stamp} {e.level.name.toUpper} - {e.message}\n"

/-- What is said about a notice other than that of a character class. -/
def ofNotice? : Notice → Option Entry
  | .classText _ => none
  | .parsed definitions terminals ignored =>
    some ⟨.debug, s!"Parsed description with {definitions} macros, {terminals} terminals, {ignored} ignored"⟩
  | .terminal name id states =>
    some ⟨.debug, s!"Added terminal {name} ({id}), automaton has {states} states"⟩
  | .determinized before after =>
    some ⟨.debug, s!"Determinized {before} NFA states into {after} DFA states"⟩
  | .minimized before after => some ⟨.debug, s!"Minimized {before} DFA states into {after} states"⟩
  | .compiled states => some ⟨.debug, s!"Compiled {states} states into a {states}x256 table"⟩
  | .compressed before after states =>
    some ⟨.debug, s!"Compressed {before} columns into {after} ({states} states)"⟩

def ofToken (t : Token) (terminals : Registry) : Entry :=
  ⟨.trace, s!"Scanned {t.describe terminals} at {t.location.shown}"⟩

def ofFailure (e : LexicalError) : Entry := ⟨.trace, e.message⟩

/-- What is said about the reading of a character class. -/
def ofClass (text : String) : List Entry :=
  let (tokens, failure) := CharClass.examined text
  tokens.map (ofToken · CharClass.table.table.terminals) ++ failure.toList.map ofFailure

/-- What is said about a journal. The lexer of character classes is built when the first one of
them is read. -/
def ofJournal (hasClassLexer : Bool) : List Notice → List Entry
  | [] => []
  | .classText text :: rest =>
    let built := if hasClassLexer then [] else CharClass.build.outcome.2.filterMap ofNotice?
    built ++ ofClass text ++ ofJournal true rest
  | notice :: rest => (ofNotice? notice).toList ++ ofJournal hasClassLexer rest

/-- What is said about an event of a scanner. The end of input is passed over. -/
def ofEvent? (terminals : Registry) : Scanner.Event → Option Entry
  | .passed t => some ⟨.trace, s!"Ignored {t.describe terminals}"⟩
  | .token t => if t.isEof then none else some (ofToken t terminals)
  | .failure e => some (ofFailure e)
  | .skipped c location => some ⟨.trace, s!"Skipped {Text.quotedChar c} at {location.shown}"⟩

end Entry

end TableLexer.CommandLine
