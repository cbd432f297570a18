/-! The lexer alphabet: the 256 characters below U+0100, each named by its code point. -/
namespace TableLexer

abbrev Symbol := Fin 256

namespace Symbol

/-- The symbol of a character, if the character belongs to the alphabet. -/
def ofChar? (c : Char) : Option Symbol :=
  if h : c.toNat < 256 then some ⟨c.toNat, h⟩ else none

/-- The symbol of a character that is known to belong to the alphabet. -/
def ofChar (c : Char) : Symbol := Fin.ofNat 256 c.toNat

/-- The symbol with a number, if there is one. -/
def ofNat? (n : Nat) : Option Symbol := if h : n < 256 then some ⟨n, h⟩ else none

def toChar (s : Symbol) : Char := Char.ofNat s.val

/-- Every symbol, in ascending order. -/
@[irreducible] def all : List Symbol := List.finRange 256

/-- The word that a text spells, if all of its characters belong to the alphabet. -/
def word? (text : List Char) : Option (List Symbol) := text.mapM ofChar?

/-- One line of printable ASCII for a symbol: control characters, quotes and backslashes are
escaped, and what has no escape of its own is written with two hexadecimal digits. -/
def escaped (s : Symbol) : String :=
  match s.toChar with
  | '\n' => "\\n"
  | '\t' => "\\t"
  | '\r' => "\\r"
  | '\x00' => "\\0"
  | '\\' => "\\\\"
  | '\'' => "\\'"
  | c =>
    if 0x20 ≤ s.val ∧ s.val ≤ 0x7e then c.toString
    else String.ofList ['\\', 'x', Nat.digitChar (s.val / 16), Nat.digitChar (s.val % 16)]

end Symbol

end TableLexer
