/-! Control sequences for terminals: colours, and the removal of all sequences from a text. -/
namespace TableLexer.Text

inductive Style where
  | brightRed
  | brightGreen
  | brightBlue
  | brightWhite
  | onBrightRed
deriving DecidableEq, Repr

def Style.code : Style → Nat
  | brightRed => 91
  | brightGreen => 92
  | brightBlue => 94
  | brightWhite => 97
  | onBrightRed => 101

/-- The control sequence that ends all styles. -/
def styleEnd : String := "\x1b[0m"

/-- A text in a style, if styles are in use. Where the text ends all styles, the style starts
again. -/
def Style.paint (s : Style) (inUse : Bool) (text : String) : String :=
  let start := s!"\x1b[{s.code}m"
  if inUse then start ++ text.replace styleEnd (styleEnd ++ start) ++ styleEnd else text

/-- What a terminal is reading: text, what follows an escape character, a control sequence, an
operating system command, what a device control string starts with (its parameters, and the
characters between them and the string proper), or a string that it does not show. -/
inductive Reading where
  | text
  | escape
  | intermediate
  | control
  | command
  | device
  | deviceParameters
  | deviceIntermediate
  | hidden
deriving DecidableEq, Repr

namespace Reading

/-- What is read after a character, unless the character is printed. Characters of two or more
bytes mean nothing within a sequence, except that a byte 9C ends a hidden string. -/
def after (r : Reading) (c : Char) : Reading :=
  let n := c.toNat
  if c = '\x1b' then escape
  else if c = '\x18' || c = '\x1a' then text
  else
    match r with
    | text => text
    | escape =>
      if c = '[' then control
      else if c = ']' then command
      else if c = 'P' then device
      else if c = 'X' || c = '^' || c = '_' then hidden
      else if 0x20 ≤ n && n < 0x30 then intermediate
      else if 0x30 ≤ n && n < 0x7f then text
      else escape
    | intermediate => if 0x30 ≤ n && n < 0x7f then text else intermediate
    | control => if 0x40 ≤ n && n < 0x7f then text else control
    | command => if c = '\x07' then text else command
    | device =>
      if 0x20 ≤ n && n < 0x30 then deviceIntermediate
      else if 0x30 ≤ n && n < 0x40 then deviceParameters
      else if 0x40 ≤ n && n < 0x7f then hidden
      else device
    | deviceParameters =>
      if 0x20 ≤ n && n < 0x30 then deviceIntermediate
      else if 0x3c ≤ n && n < 0x7f then hidden
      else deviceParameters
    | deviceIntermediate => if 0x30 ≤ n && n < 0x7f then hidden else deviceIntermediate
    | hidden => if (String.utf8EncodeChar c).contains 0x9c then text else hidden

/-- Whether a character is kept: text is, and so is a line feed where control characters count. -/
def keeps (r : Reading) (c : Char) : Bool :=
  match r with
  | text => c.toNat ≥ 0x20 || c = '\n'
  | escape | intermediate | control => c = '\n'
  | command | device | deviceParameters | deviceIntermediate | hidden => false

end Reading

/-- Removes control sequences and all control characters but line feeds, given what is read. -/
def plainAfter (r : Reading) : List Char → List Char
  | [] => []
  | c :: rest =>
    let kept := plainAfter (r.after c) rest
    if r.keeps c then c :: kept else kept

/-- A text without control sequences. -/
def plain (text : String) : String := String.ofList (plainAfter .text text.toList)

end TableLexer.Text
