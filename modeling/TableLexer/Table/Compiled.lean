import TableLexer.Automaton.Basic
import TableLexer.Table.Basic

/-! The tables of deterministic automata. -/
namespace TableLexer

namespace State

/-- The row of a state: one cell for each symbol. -/
def cells (q : State) : Array Int :=
  (Symbol.all.map fun s =>
    match q.transition s with
    | some target => Table.cellOf target
    | none => noTransition).toArray

end State

namespace Automaton

/-- The table of a deterministic automaton. It has one column for each symbol. -/
def compile (a : Automaton) : Except ConstructionError Table :=
  if a.deterministic then
    .ok {
      columns := 256
      transitions := a.states.flatMap State.cells
      finals := a.states.map fun q => if q.isFinal then q.terminal else none
      initial := a.initial
      terminals := a.terminals }
  else .error .notDeterministic

end Automaton

end TableLexer
