import TableLexer.Regex.Basic
import TableLexer.Text.Hexadecimal

/-! The glyphs that regular expressions are written with. -/
namespace TableLexer.Regex

/-- A character of the source text; a backslash quotes the one that follows. A coded character is
quoted by its code point. -/
inductive Glyph where
  | plain (c : Char)
  | quoted (c : Char)
  | coded (c : Char)
deriving DecidableEq, Repr

/-- The character whose code point has the given number of digits, or is in braces. Returns also the
number of characters that it takes. -/
def codedAtStart? (length : Nat) : List Char → Option (Char × Nat)
  | '\x7b' :: rest => do
    let digits := rest.takeWhile (· ≠ '\x7d')
    if digits.isEmpty || digits.length = rest.length then none
    return (← Text.codedChar? digits, digits.length + 2)
  | text => do
    if text.length < length then none
    return (← Text.codedChar? (text.take length), length)

/-- The glyphs of a text, unless a backslash quotes nothing. -/
def glyphs? (text : List Char) : Option (List Glyph) :=
  match text with
  | [] => some []
  | ['\\'] => none
  | '\\' :: c :: rest =>
    match Text.codeLength? c with
    | some length => do
      let (coded, n) ← codedAtStart? length rest
      return .coded coded :: (← glyphs? (rest.drop n))
    | none => (glyphs? rest).map (.quoted c :: ·)
  | c :: rest => (glyphs? rest).map (.plain c :: ·)
termination_by text.length

namespace Glyph

/-- The character that a glyph stands for by itself. Letters, digits and angles do not stand for
themselves if they are quoted, nor do characters beyond ASCII. -/
def literal? : Glyph → Option Char
  | plain c | coded c => some c
  | quoted 'a' => some '\x07'
  | quoted 'f' => some '\x0c'
  | quoted 'n' => some '\n'
  | quoted 'r' => some '\r'
  | quoted 't' => some '\t'
  | quoted 'v' => some '\x0b'
  | quoted c => if c.isAlphanum || c == '<' || c == '>' || c.toNat ≥ 128 then none else some c

/-- The set of characters that a glyph stands for. -/
def set? : Glyph → Option CharSet
  | quoted 'd' => some .digit
  | quoted 'D' => some (.compl .digit)
  | quoted 's' => some .blank
  | quoted 'S' => some (.compl .blank)
  | quoted 'w' => some .word
  | quoted 'W' => some (.compl .word)
  | g => g.literal?.map .single

/-- What a glyph looks for. -/
def look? : Glyph → Option Look
  | quoted 'A' => some .textStart
  | quoted 'z' => some .textEnd
  | quoted 'b' => some .wordEdge
  | quoted 'B' => some .noWordEdge
  | quoted '<' => some .wordStart
  | quoted '>' => some .wordEnd
  | _ => none

end Glyph

/-- The character that a glyph is, if nothing quotes it. -/
def Glyph.plain? : Glyph → Option Char
  | plain c => some c
  | _ => none

/-- A part of an expression, and the number of levels on which further parts are nested in it. -/
structure Nested (α : Type) where
  value : α
  height : Nat := 0

/-- The greatest height of some parts. -/
def Nested.greatestHeight {α : Type} (parts : List (Nested α)) : Nat :=
  parts.foldl (fun height part => max height part.height) 0

end TableLexer.Regex
