import TableLexer.Automaton.Declaration

/-! Patterns: regular expressions over the lexer alphabet. -/
namespace TableLexer

inductive Pattern where
  | literal (text : String)
  | sequence (parts : List Pattern)
  | alternation (parts : List Pattern)
  | oneOf (ranges : List SymbolRange)
  | noneOf (ranges : List SymbolRange)
  | star (p : Pattern)
  | plus (p : Pattern)
  | optional (p : Pattern)
  | defined (name : String)
  | repeated (p : Pattern) (min : Nat) (max : Option Nat)
deriving Repr, Inhabited

namespace Pattern

mutual

/-- Builds a fragment for a pattern. -/
def build : Pattern → Builder Fragment
  | literal text => Builder.string text
  | sequence parts => do Builder.sequence (← buildAll parts)
  | alternation parts => do Builder.alternate (← buildAll parts)
  | oneOf ranges => Builder.oneOf ranges
  | noneOf ranges => Builder.noneOf ranges
  | star p => do Builder.star (← build p)
  | plus p => do Builder.plus (← build p)
  | optional p => do Builder.optional (← build p)
  | defined name => Builder.instantiate name
  | repeated p min max => do Builder.repeated (← build p) min max

/-- Builds a fragment for each of some patterns, in order. -/
def buildAll : List Pattern → Builder (List Fragment)
  | [] => pure []
  | p :: rest => do
    let first ← build p
    return first :: (← buildAll rest)

end

end Pattern

end TableLexer
