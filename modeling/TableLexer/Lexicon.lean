import TableLexer.Automaton.Minimal
import TableLexer.Description.Reader
import TableLexer.Table.Json
import TableLexer.Table.RustSource

/-! Lexicons: descriptions that have been compiled to tables. -/
namespace TableLexer

inductive BuildError where
  | description (e : DescriptionError)
  | construction (e : ConstructionError)
deriving DecidableEq, Repr

def BuildError.message : BuildError → String
  | description e => s!"Failed to load description: {e.message}"
  | construction e => s!"Failed to compile description: {e.message}"

/-- A compiled description. Its scanners run on the compressed table if there is one. -/
structure Lexicon where
  table : Table
  compressed : Option CompressedTable
  ignored : List TerminalId
deriving DecidableEq, Repr

namespace Lexicon

/-- Merges the states that no word can tell apart, if the options ask for it. -/
def reduce (options : Options) (dfa : Automaton) : Journaled BuildError Automaton :=
  if options.minimize then do
    let smallest ← Journaled.ofExcept .construction dfa.minimize
    Journaled.note (.minimized dfa.size smallest.size)
    return smallest
  else return dfa

/-- Compresses a table, if the options ask for it. -/
def squeeze (options : Options) (table : Table) : Journaled BuildError (Option CompressedTable) :=
  if options.compress then do
    let compressed := table.compress
    Journaled.note (.compressed table.columns compressed.columns table.states)
    return some compressed
  else return none

/-- Compiles a description. -/
def compile (d : Description) : Journaled BuildError Lexicon := do
  let nfa ← d.declare.withFailure (.description ∘ .construction)
  let dfa ← Journaled.ofExcept .construction nfa.determinize
  Journaled.note (.determinized nfa.size dfa.size)
  let dfa ← reduce d.options dfa
  let table ← Journaled.ofExcept .construction dfa.compile
  Journaled.note (.compiled dfa.size)
  let ignored ← Journaled.ofExcept .description (d.ignoredIds table.terminals)
  let compressed ← squeeze d.options table
  return { table, compressed, ignored }

/-- The lexicon of a description. -/
def ofDescription (d : Description) : Except BuildError Lexicon := (compile d).result

/-- The lexicon of the description in a YAML text. -/
def build (text : String) : Except BuildError Lexicon := do
  ofDescription (← (Description.parse text).mapError .description)

/-- The JSON text of the table that scanners run on. -/
def json (l : Lexicon) : String :=
  match l.compressed with
  | some t => t.json
  | none => l.table.json

/-- The source text of the table that scanners run on. -/
def rustSource (l : Lexicon) : String :=
  match l.compressed with
  | some t => t.rustSource
  | none => l.table.rustSource

def terminals (l : Lexicon) : Registry := l.table.terminals

/-- What a scanner is told by a lexicon comes from the compressed table if there is one. -/
instance : TransitionTable Lexicon where
  initial l :=
    match l.compressed with
    | some t => TransitionTable.initial t
    | none => TransitionTable.initial l.table
  next l id s :=
    match l.compressed with
    | some t => TransitionTable.next t id s
    | none => TransitionTable.next l.table id s
  accepts l id :=
    match l.compressed with
    | some t => TransitionTable.accepts t id
    | none => TransitionTable.accepts l.table id
  expected l id :=
    match l.compressed with
    | some t => TransitionTable.expected t id
    | none => TransitionTable.expected l.table id
  terminals l :=
    match l.compressed with
    | some t => TransitionTable.terminals t
    | none => TransitionTable.terminals l.table

/-- A scanner for a text. -/
def scanner (l : Lexicon) (text : String) : Except ScanError (Scanner Lexicon) :=
  Scanner.start l text l.ignored

/-- The tokens of a text. -/
def scan (l : Lexicon) (text : String) : Except ScanError (List Token) := do
  (← l.scanner text).scanAll.1.mapError .lexical

end Lexicon

end TableLexer
