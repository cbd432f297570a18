import TableLexer.Automaton.Basic
import TableLexer.Reachable
import TableLexer.StateSet

/-! Running an automaton: all states it can be in are followed at once. -/
namespace TableLexer

namespace Automaton

def epsilonOf (a : Automaton) (id : StateId) : List StateId :=
  ((a.state? id).map (·.epsilon)).getD []

/-- The states that can be reached from a set by epsilon edges. -/
def epsilonClosure (a : Automaton) (set : StateSet) : StateSet :=
  StateSet.ofList set.capacity (reachable a.epsilonOf a.size set.toList)

def transition? (a : Automaton) (id : StateId) (s : Symbol) : Option StateId :=
  (a.state? id).bind (·.transition s)

/-- The states that an automaton starts in. -/
def start (a : Automaton) : StateSet := a.epsilonClosure (.ofList a.size [a.initial])

/-- The states that can be reached from a set on one symbol. -/
def step (a : Automaton) (set : StateSet) (s : Symbol) : StateSet :=
  a.epsilonClosure (.ofList a.size (set.toList.filterMap (a.transition? · s)))

/-- The states that an automaton can be in after a word. -/
def after (a : Automaton) (word : List Symbol) : StateSet := word.foldl a.step a.start

/-- The terminals that some state of a set accepts. -/
def terminalsOf (a : Automaton) (set : StateSet) : List TerminalId :=
  set.toList.filterMap fun id => (a.state? id).bind (·.terminal)

/-- The terminal that accepts a word: of several, the one declared first. -/
def accepts (a : Automaton) (word : List Symbol) : Option TerminalId :=
  (a.terminalsOf (a.after word)).min?

/-- The terminal that accepts a text. No terminal accepts characters outside the alphabet. -/
def matches? (a : Automaton) (text : String) : Option TerminalId :=
  (Symbol.word? text.toList).bind a.accepts

end Automaton

end TableLexer
