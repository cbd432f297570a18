import TableLexer.Text.Hexadecimal

/-! The characters of YAML, and places in a YAML text. -/
namespace TableLexer.Yaml

/-- The mark of the end of a text. A text ends where this character stands in it. -/
def endMark : Char := '\x00'

def isBreak (c : Char) : Bool := c == '\n' || c == '\r'

def isBlank (c : Char) : Bool := c == ' ' || c == '\t'

def isBreakOrEnd (c : Char) : Bool := isBreak c || c == endMark

def isBlankOrEnd (c : Char) : Bool := isBlank c || isBreakOrEnd c

/-- Whether a character delimits the parts of flow collections. -/
def isFlow (c : Char) : Bool := c == ',' || c == '[' || c == ']' || c == '{' || c == '}'

/-- Whether a character may stand in the name of an anchor, a directive or a tag handle. -/
def isWord (c : Char) : Bool := c.isAlphanum || c == '_' || c == '-'

/-- A place in a text, and the text that follows. Indices, lines and columns count from zero. -/
structure Cursor where
  rest : List Char
  index : Nat := 0
  line : Nat := 0
  column : Nat := 0

namespace Cursor

def ofText (text : String) : Cursor := { rest := text.toList.takeWhile (· != endMark) }

/-- The character that is `n` characters ahead. -/
def peek (c : Cursor) (n : Nat) : Char := c.rest.getD n endMark

def head (c : Cursor) : Char := c.rest.headD endMark

/-- Passes one character. Only a line feed starts a new line. -/
def skip (c : Cursor) : Cursor :=
  match c.rest with
  | [] => c
  | '\n' :: rest => ⟨rest, c.index + 1, c.line + 1, 0⟩
  | _ :: rest => ⟨rest, c.index + 1, c.line, c.column + 1⟩

/-- Passes `n` characters. -/
def skipMany (c : Cursor) : (n : Nat) → Cursor
  | 0 => c
  | n + 1 => c.skip.skipMany n

/-- Passes the characters for which `p` holds, and returns them. -/
def takeWhile (c : Cursor) (p : Char → Bool) : List Char × Cursor :=
  let taken := c.rest.takeWhile p
  (taken, c.skipMany taken.length)

def skipWhile (c : Cursor) (p : Char → Bool) : Cursor := (c.takeWhile p).2

/-- Passes a line break, if there is one. A carriage return and a line feed make one break. -/
def skipBreak (c : Cursor) : Cursor :=
  if c.head == '\r' && c.peek 1 == '\n' then c.skipMany 2
  else if isBreak c.head then c.skip
  else c

/-- Passes what is left of the line from a comment sign on. -/
def skipComment (c : Cursor) : Cursor :=
  if c.head == '#' then c.skipWhile (!isBreakOrEnd ·) else c

/-- Whether three equal marks stand alone at the beginning of a line. -/
def atMark (c : Cursor) (mark : Char) : Bool :=
  c.column == 0 && c.head == mark && c.peek 1 == mark && c.peek 2 == mark && isBlankOrEnd (c.peek 3)

/-- Whether a document ends or starts here. -/
def atDocumentMark (c : Cursor) : Bool := c.atMark '-' || c.atMark '.'

end Cursor

end TableLexer.Yaml
