import TableLexer.Automaton.Combinators

/-! Declaring the terminals and the named definitions of an automaton. -/
namespace TableLexer

namespace Builder

/-- Declares that a terminal accepts what the fragment made by `build` accepts, and returns the
terminal's id. A terminal declared twice accepts what either declaration accepts. -/
def addTerminal (name : String) (build : Builder Fragment) : Builder TerminalId := do
  ensureMutable
  if name = eofName then throw (.reservedName name)
  let f ← build
  check f
  let accept ← newState
  let id ← modifyGet fun a =>
    let (id, terminals) := a.terminals.encode name
    (id, { a with terminals := terminals })
  modify (·.modifyState accept (·.markFinal (some id)))
  addEpsilon f.exit accept
  addEpsilon (← get).initial f.entry
  return id

/-- Defines a name for the fragment made by `build`, in place of an earlier definition. -/
def addDefinition (name : String) (build : Builder Fragment) : Builder Unit := do
  ensureMutable
  let f ← build
  check f
  modify fun a => { a with definitions := (name, f) :: a.definitions }

end Builder

end TableLexer
