import TableLexer.Text.Unprintable

/-! Quoted text: characters and strings written so that every character can be told apart. -/
namespace TableLexer.Text

/-- The text of a character between the given quotes. -/
def escapeWithin (quote : Char) (c : Char) : List Char :=
  match c with
  | '\x00' => ['\\', '0']
  | '\t' => ['\\', 't']
  | '\n' => ['\\', 'n']
  | '\r' => ['\\', 'r']
  | '\\' => ['\\', '\\']
  | c =>
    if c = quote then ['\\', c]
    else if isUnprintable c then ['\\', 'u', '{'] ++ Nat.toDigits 16 c.toNat ++ ['}']
    else [c]

def quotedChar (c : Char) : String := String.ofList ('\'' :: escapeWithin '\'' c ++ ['\''])

def quoted (text : String) : String :=
  String.ofList ('"' :: text.toList.flatMap (escapeWithin '"') ++ ['"'])

end TableLexer.Text
