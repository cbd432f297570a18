import TableLexer.Registry
import TableLexer.SymbolRange
import TableLexer.Text.Quoted

/-! What a scanner produces: tokens with their places in the text, and errors. -/
namespace TableLexer

/-- A place in a text. Lines and columns count from one. -/
structure Location where
  line : Nat := 1
  column : Nat := 1
deriving DecidableEq, Repr, Inhabited

namespace Location

/-- The place that follows a character. -/
def after (l : Location) (c : Char) : Location :=
  if c = '\n' then ⟨l.line + 1, 1⟩ else ⟨l.line, l.column + 1⟩

/-- The place that follows a text. -/
def afterAll (l : Location) (text : List Char) : Location := text.foldl after l

def shown (l : Location) : String := s!"{l.line}:{l.column}"

end Location

structure Token where
  kind : TerminalId
  lexeme : String
  location : Location
deriving DecidableEq, Repr, Inhabited

namespace Token

/-- The token of the end of input. -/
def ofEof (location : Location) : Token := ⟨eof, "", location⟩

def isEof (t : Token) : Bool := t.kind == eof

/-- A text on one line, with its line ends and tabs escaped. -/
def onOneLine (text : String) : String :=
  String.ofList (text.toList.flatMap fun
    | '\n' => ['\\', 'n']
    | '\t' => ['\\', 't']
    | '\r' => ['\\', 'r']
    | c => [c])

/-- The name of a token's kind and its lexeme, such as `NAME <- 'lexeme'`. -/
def describe (t : Token) (terminals : Registry) : String :=
  let kind := (terminals.name? t.kind).getD s!"#{t.kind}"
  s!"{kind} <- '{onOneLine t.lexeme}'"

end Token

/-- The scanner can go no further, and no terminal accepts a beginning of what it has read.
`found` is the character it stopped at, if the text has not ended. -/
structure LexicalError where
  found : Option Char
  location : Location
  expected : List Symbol
deriving DecidableEq, Repr

def LexicalError.message (e : LexicalError) : String :=
  let found := match e.found with
    | none => "unexpected end of input"
    | some c =>
      match Symbol.ofChar? c with
      | some s => s!"unexpected '{s.escaped}'"
      | none => s!"unexpected {Text.quotedChar c} outside the lexer alphabet"
  let expected :=
    if e.expected.isEmpty then "" else s!", expected one of {SymbolRange.describe e.expected}"
  s!"No accepting tokens after ({e.location.line},{e.location.column}): {found}{expected}"

/-- The ways in which a request to a scanner can fail. -/
inductive ScanError where
  | lexical (e : LexicalError)
  | eofIgnored
  | unknownId (id : TerminalId)
  | unknownName (name : String)
deriving DecidableEq, Repr

def ScanError.message : ScanError → String
  | lexical e => e.message
  | eofIgnored => "The end of input cannot be ignored"
  | unknownId id => s!"No terminal has id {id}"
  | unknownName name => unknownTerminalMessage name

end TableLexer
