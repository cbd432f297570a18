import TableLexer.Automaton.Error

/-! Automata and the steps that extend them. An automaton is an arena of states: a state is named
by its position, states are only ever added, and a step that fails keeps what it has added. -/
namespace TableLexer

/-- What becomes of a text that several terminals accept: it belongs to the terminal declared
first, or the automaton is refused. -/
inductive AmbiguityPolicy where
  | firstDeclared
  | strict
deriving DecidableEq, Repr, Inhabited

structure BuildConfig where
  ambiguity : AmbiguityPolicy := .firstDeclared
  stateLimit : Nat := 0x100000
deriving DecidableEq, Repr, Inhabited

/-- An automaton. A deterministic one is frozen: it can be run and compiled but not extended. -/
structure Automaton where
  states : Array State := #[{}]
  initial : StateId := 0
  terminals : Registry := .initial
  definitions : List (String × Fragment) := []
  deterministic : Bool := false
  config : BuildConfig := {}
deriving DecidableEq, Repr, Inhabited

/-- A step that extends an automaton. -/
abbrev Builder := ExceptT ConstructionError (StateM Automaton)

namespace Automaton

def size (a : Automaton) : Nat := a.states.size

def state? (a : Automaton) (id : StateId) : Option State := a.states[id]?

def hasDefinition (a : Automaton) (name : String) : Bool := (a.definitions.lookup name).isSome

def modifyState (a : Automaton) (id : StateId) (f : State → State) : Automaton :=
  { a with states := a.states.modify id f }

/-- Whether a fragment names states of this automaton. -/
def owns (a : Automaton) (f : Fragment) : Bool := f.entry < a.size && f.exit < a.size

end Automaton

namespace Builder

/-- Runs a step on an automaton. -/
def apply {α : Type} (step : Builder α) (a : Automaton) : Except ConstructionError α × Automaton :=
  step.run a

def ensureMutable : Builder Unit := do
  if (← get).deterministic then throw .frozen

def check (f : Fragment) : Builder Unit := do
  unless (← get).owns f do throw (.foreignFragment f)

/-- Adds a state without edges, unless the automaton is full. -/
def newState : Builder StateId := do
  let a ← get
  if a.size ≥ a.config.stateLimit then throw (.stateLimit a.config.stateLimit)
  modifyGet fun a => (a.size, { a with states := a.states.push {} })

def addEpsilon (source target : StateId) : Builder Unit := do
  ensureMutable
  if source ≠ target then modify (·.modifyState source (·.addEpsilon target))

/-- Adds an edge on a symbol. If another edge on it is there already, a new state in between keeps
both targets in reach. -/
def addTransition (source : StateId) (s : Symbol) (target : StateId) : Builder Unit := do
  ensureMutable
  match ((← get).state? source).bind (·.transition s) with
  | none => modify (·.modifyState source (·.setTransition s target))
  | some old =>
    if old = target then return
    let fork ← newState
    modify (·.modifyState fork fun q => (q.addEpsilon old).addEpsilon target)
    modify (·.modifyState source (·.setTransition s fork))

end Builder

end TableLexer
