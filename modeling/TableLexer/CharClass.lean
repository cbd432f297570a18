import TableLexer.Automaton.Declaration
import TableLexer.Automaton.Subset
import TableLexer.Description.Error
import TableLexer.Journal
import TableLexer.Scanner.Transcript
import TableLexer.Table.Compiled
import TableLexer.Table.Compressed

/-! Character classes such as `a-z_0-9\n`. A class is read with a lexer of its own, whose terminals
are ranges, escapes and characters. -/
namespace TableLexer

namespace CharClass

/-- A backslash and any character. -/
def escape : Builder Fragment := do
  let backslash ← Builder.literal (.ofChar '\\')
  let escaped ← Builder.any
  Builder.append backslash escaped

/-- Any character but a backslash. -/
def plain : Builder Fragment := Builder.noneOf [.single (.ofChar '\\')]

/-- An item of a class: an escape or a plain character. -/
def item : Builder Fragment := do
  let escape ← escape
  let plain ← plain
  Builder.alternate [escape, plain]

/-- Two items with a dash between them. -/
def range : Builder Fragment := do
  let first ← Builder.instantiate "item"
  let dash ← Builder.literal (.ofChar '-')
  let last ← Builder.instantiate "item"
  Builder.sequence [first, dash, last]

/-- Defines a name. -/
def define (name : String) (build : Builder Fragment) (a : Automaton) : Except ConstructionError Automaton :=
  match (Builder.addDefinition name build).apply a with
  | (.ok (), a) => .ok a
  | (.error e, _) => .error e

/-- Declares a terminal. -/
def declare (name : String) (build : Builder Fragment) (a : Automaton) :
    Journaled ConstructionError Automaton := do
  match (Builder.addTerminal name build).apply a with
  | (.ok id, a) => Journaled.note (.terminal name id a.size); return a
  | (.error e, _) => throw e

/-- The lexer of character classes. -/
def build : Journaled ConstructionError CompressedTable := do
  let a ← Journaled.ofExcept id (define "item" item {})
  let a ← declare "RANGE" range a
  let a ← declare "ESCAPE" escape a
  let a ← declare "CHAR" plain a
  let dfa ← Journaled.ofExcept id a.determinize
  Journaled.note (.determinized a.size dfa.size)
  let dense ← Journaled.ofExcept id dfa.compile
  Journaled.note (.compiled dfa.size)
  let table := dense.compress
  Journaled.note (.compressed dense.columns table.columns table.states)
  return table

/-- The table of the lexer of character classes. -/
def table : CompressedTable := build.result.toOption.getD default

/-- The character that stands behind a backslash, as the character that both denote. -/
def unescape : Char → Char
  | 'n' => '\n'
  | 't' => '\t'
  | 'r' => '\r'
  | '0' => '\x00'
  | c => c

/-- Reads the symbol of an item. -/
def readItem : List Char → Option Symbol × List Char
  | '\\' :: c :: rest => (Symbol.ofChar? (unescape c), rest)
  | '\\' :: [] => (none, [])
  | c :: rest => (Symbol.ofChar? c, rest)
  | [] => (none, [])

/-- The range that a token of a class denotes. -/
def rangeOf (text : String) (t : Token) : Except FormatError SymbolRange := do
  let lexeme := t.lexeme.toList
  let symbol (item : Option Symbol) : Except FormatError Symbol :=
    match item with
    | some s => .ok s
    | none => .error (.truncatedClass text)
  match t.kind with
  | 1 =>
    let (first, rest) := readItem lexeme
    let r : SymbolRange := ⟨← symbol first, ← symbol (readItem (rest.drop 1)).1⟩
    if r.isEmpty then throw (.emptyRange t.lexeme text)
    return r
  | 2 | 3 => return .single (← symbol (readItem lexeme).1)
  | kind => throw (.unexpectedClassToken kind text)

/-- The tokens of a class up to its end or the first failure. -/
def tokens (text : String) : List Token × Option LexicalError :=
  let (tokens, failure, _) := (Scanner.ofText table text).readAll
  (tokens.filter (!·.isEof), failure)

/-- The ranges of a character class, in the order in which they are written. -/
def parse (text : String) : Except DescriptionError (List SymbolRange) := do
  let (tokens, failure) := tokens text
  let ranges ← (tokens.mapM (rangeOf text)).mapError .format
  match failure with
  | some e => throw (.charClass e)
  | none => return ranges

/-- The tokens that are looked at before a class is found to be right or wrong, and the failure to
scan another one. -/
def examined (text : String) : List Token × Option LexicalError :=
  let (tokens, failure) := tokens text
  let isRight (t : Token) : Bool := (rangeOf text t).toBool
  match tokens.dropWhile isRight with
  | [] => (tokens, failure)
  | wrong :: _ => (tokens.takeWhile isRight ++ [wrong], none)

end CharClass

end TableLexer
