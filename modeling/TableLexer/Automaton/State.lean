import TableLexer.Registry
import TableLexer.Symbol

/-! States of an automaton: what they accept and where they lead. -/
namespace TableLexer

abbrev StateId := Nat

/-- A state. Its transitions ascend in their symbols, its epsilon edges in their targets. -/
structure State where
  isFinal : Bool := false
  terminal : Option TerminalId := none
  transitions : List (Symbol × StateId) := []
  epsilon : List StateId := []
deriving DecidableEq, Repr, Inhabited

namespace State

def transition (q : State) (s : Symbol) : Option StateId := q.transitions.lookup s

/-- Puts an edge into a list of edges that ascends in its symbols, in place of one on the same
symbol. -/
def insertEdge (s : Symbol) (target : StateId) : List (Symbol × StateId) → List (Symbol × StateId)
  | [] => [(s, target)]
  | (t, old) :: rest =>
    if s < t then (s, target) :: (t, old) :: rest
    else if s = t then (s, target) :: rest
    else (t, old) :: insertEdge s target rest

def setTransition (q : State) (s : Symbol) (target : StateId) : State :=
  { q with transitions := insertEdge s target q.transitions }

/-- Puts an id into an ascending list of ids that may hold it already. -/
def insertTarget (target : StateId) : List StateId → List StateId
  | [] => [target]
  | id :: rest =>
    if target < id then target :: id :: rest
    else if target = id then id :: rest
    else id :: insertTarget target rest

def addEpsilon (q : State) (target : StateId) : State :=
  { q with epsilon := insertTarget target q.epsilon }

def markFinal (q : State) (terminal : Option TerminalId) : State :=
  { q with isFinal := true, terminal := terminal }

/-- Every target of an edge. -/
def successors (q : State) : List StateId := q.transitions.map (·.2) ++ q.epsilon

/-- The state with the targets of its edges renamed. Edges to what has no new name are dropped. -/
def restricted (q : State) (rename : StateId → Option StateId) : State :=
  { q with
    transitions := q.transitions.filterMap fun (s, target) => (rename target).map (s, ·)
    epsilon := q.epsilon.filterMap rename }

def renamed (q : State) (rename : StateId → StateId) : State := q.restricted (some ∘ rename)

end State

/-- A part of an automaton with one entry and one exit. It owns no state and may be shared. -/
structure Fragment where
  entry : StateId
  exit : StateId
deriving DecidableEq, Repr, Inhabited

end TableLexer
