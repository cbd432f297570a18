import TableLexer.Automaton.State
import TableLexer.Text.Quoted

/-! The reasons why an automaton cannot be built. -/
namespace TableLexer

inductive ConstructionError where
  | frozen
  | notDeterministic
  | ambiguous (first second : String)
  | undefined (name : String)
  | invalidRepetition (min max : Nat)
  | emptyAlternation
  | outsideAlphabet (c : Char)
  | stateLimit (limit : Nat)
  | foreignFragment (fragment : Fragment)
  | reservedName (name : String)
deriving DecidableEq, Repr

def ConstructionError.message : ConstructionError → String
  | .frozen => "Cannot modify a deterministic automaton"
  | .notDeterministic => "Only deterministic automata can be compiled"
  | .ambiguous first second => s!"Ambiguous acceptance between terminals '{first}' and '{second}'"
  | .undefined name => s!"Unknown macro '{name}'"
  | .invalidRepetition min max => s!"Invalid repetition range \x7b{min},{max}\x7d"
  | .emptyAlternation => "Alternation requires at least one fragment"
  | .outsideAlphabet c => s!"Character {Text.quotedChar c} is outside the lexer alphabet"
  | .stateLimit limit => s!"Automaton exceeded the limit of {limit} states"
  | .foreignFragment f => s!"Fragment ({f.entry},{f.exit}) does not belong to this automaton"
  | .reservedName name => s!"Terminal name '{name}' is reserved for the end of input"

end TableLexer
