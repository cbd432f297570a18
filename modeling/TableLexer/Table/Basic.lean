import TableLexer.Automaton.State

/-! Transition tables: deterministic automata laid out in cells, row by row. -/
namespace TableLexer

/-- The cell of a column on which a state has no transition. -/
def noTransition : Int := -1

/-- A table. Each state has a row of `columns` cells, which hold the targets of its transitions. -/
structure Table where
  columns : Nat
  transitions : Array Int
  finals : Array (Option TerminalId)
  initial : StateId
  terminals : Registry
deriving DecidableEq, Repr, Inhabited

/-- The ways in which the parts of a table can fail to fit together. -/
inductive MalformedTable where
  | noColumns
  | noStates
  | cellCount (expected states columns found : Nat)
  | initialState (id : StateId)
  | missingEof
  | invalidTransition (id : StateId) (target : Int) (column : Nat)
  | unknownTerminal (id : StateId) (terminal : TerminalId)
  | symbolCount (found : Nat)
  | missingColumn (symbol column : Nat)
  | emptyColumn (column : Nat)
deriving DecidableEq, Repr

def MalformedTable.reason : MalformedTable → String
  | noColumns => "table has no columns"
  | noStates => "table has no states"
  | cellCount expected states columns found =>
    s!"expected {expected} transition cells for {states} states and {columns} columns, found {found}"
  | initialState id => s!"initial state {id} is out of bounds"
  | missingEof => "terminal names must start with EOF"
  | invalidTransition id target column =>
    s!"state {id} has an invalid transition to {target} in column {column}"
  | unknownTerminal id terminal => s!"state {id} accepts unknown terminal {terminal}"
  | symbolCount found => s!"expected 256 symbol columns, found {found}"
  | missingColumn symbol column => s!"symbol {symbol} maps to missing column {column}"
  | emptyColumn column => s!"column {column} has no symbols"

inductive TableError where
  | malformed (reason : MalformedTable)
  | json
deriving DecidableEq, Repr

def TableError.message : TableError → String
  | malformed reason => s!"Malformed table: {reason.reason}"
  | json => "Failed to (de)serialize table"

/-- The ways in which a lookup can panic: a number is too large for a word, or an index is out of bounds. -/
inductive Panic where
  | overflow
  | index
deriving DecidableEq, Repr

/-- The builds of a program. Where a number is too large for a word, a release build lets it wrap around, and a
checked build panics. -/
inductive Build where
  | release
  | checked
deriving DecidableEq, Repr

/-- The number of 64-bit words. -/
def Table.wordSize : Nat := UInt64.size

/-- The word that a build makes of a number. -/
def Build.word (b : Build) (n : Nat) : Except Panic Nat :=
  if n < Table.wordSize then .ok n
  else
    match b with
    | release => .ok (n % Table.wordSize)
    | checked => .error .overflow

namespace Table

/-- The cell of a target: the lowest 32 bits of its number, with a sign. -/
def cellOf (target : StateId) : Int := Int.bmod target 0x100000000

/-- The state that a cell names, in 64-bit arithmetic that wraps around. -/
def stateOf (cell : Int) : StateId := (cell % wordSize).toNat

/-- The state that a cell leads to, unless it marks the absence of a transition. -/
def targetOf (cell : Int) : Option StateId := if cell = noTransition then none else some (stateOf cell)

/-- The columns of a row whose cells hold a target, in ascending order. -/
def liveOf (row : Array Int) : List Nat :=
  row.toList.zipIdx.filterMap fun (target, column) => if target = noTransition then none else some column

def states (t : Table) : Nat := t.finals.size

/-- The number of cells that the rows of a table take, in 64-bit arithmetic that wraps around. -/
def cellCount (t : Table) : Nat := t.states * t.columns % wordSize

/-- Where the row of a state starts, before the number is put into a word. -/
def rowStart (t : Table) (id : StateId) : Nat := id * t.columns

section lookups

/-! The lookups of a build. Those of accepted tables panic only where the count of the cells has wrapped around, and
where a row is asked for that does not exist. -/

/-- The cells of a row. -/
def row? (t : Table) (b : Build) (id : StateId) : Except Panic (Array Int) := do
  let first ← b.word (t.rowStart id)
  let last ← b.word (first + t.columns)
  if first ≤ last ∧ last ≤ t.transitions.size then return t.transitions.extract first last
  else throw .index

/-- The cell of a state and a column: no transition unless both exist. -/
def cell? (t : Table) (b : Build) (id : StateId) (column : Nat) : Except Panic Int :=
  if id < t.states ∧ column < t.columns then do
    let first ← b.word (t.rowStart id)
    let index ← b.word (first + column)
    match t.transitions[index]? with
    | some cell => return cell
    | none => throw .index
  else return noTransition

/-- Where a state leads on a column, if it has a transition there. -/
def destination? (t : Table) (b : Build) (id : StateId) (column : Nat) : Except Panic (Option StateId) := do
  return targetOf (← t.cell? b id column)

/-- The columns on which a state has a transition, in ascending order. -/
def liveColumns? (t : Table) (b : Build) (id : StateId) : Except Panic (List Nat) :=
  if id < t.states then do return liveOf (← t.row? b id)
  else return []

/-- The cells of a symbol's column, from the first state to the last. -/
def columnCells? (t : Table) (b : Build) (s : Symbol) : Except Panic (Array Int) := do
  return (← (List.range t.states).mapM fun id => t.cell? b id s.val).toArray

end lookups

section whole

/-! The same lookups in a table that has all of its cells, one row behind the other. There they do not panic. -/

def row (t : Table) (id : StateId) : Array Int := t.transitions.extract (t.rowStart id) (t.rowStart id + t.columns)

def cell (t : Table) (id : StateId) (column : Nat) : Int :=
  if id < t.states ∧ column < t.columns then t.transitions.getD (t.rowStart id + column) noTransition
  else noTransition

def destination (t : Table) (id : StateId) (column : Nat) : Option StateId := targetOf (t.cell id column)

def liveColumns (t : Table) (id : StateId) : List Nat := if id < t.states then liveOf (t.row id) else []

def columnCells (t : Table) (s : Symbol) : Array Int := Array.ofFn fun id : Fin t.states => t.cell id s.val

end whole

/-- The terminal that a state accepts. -/
def accepting (t : Table) (id : StateId) : Option TerminalId := t.finals[id]?.join

/-- The first cell that holds neither a state nor the mark of no transition. -/
def transitionFault? (t : Table) : Option MalformedTable :=
  (t.transitions.findIdx? fun target => target ≠ noTransition ∧ (target < 0 ∨ t.states ≤ target)).map
    fun i => .invalidTransition (i / t.columns) (t.transitions.getD i 0) (i % t.columns)

/-- The first state that accepts what is no terminal of the table, or the end of input. -/
def acceptanceFault? (t : Table) : Option MalformedTable :=
  t.finals.toList.zipIdx.findSome? fun (terminal, id) =>
    match terminal with
    | some terminal =>
      if terminal = eof ∨ !t.terminals.contains terminal then some (.unknownTerminal id terminal) else none
    | none => none

/-- The first reason why the parts of a table do not fit together. -/
def fault? (t : Table) : Option MalformedTable :=
  if t.columns = 0 then some .noColumns
  else if t.states = 0 then some .noStates
  else if t.transitions.size ≠ t.cellCount then
    some (.cellCount t.cellCount t.states t.columns t.transitions.size)
  else if t.states ≤ t.initial then some (.initialState t.initial)
  else if t.terminals.name? eof ≠ some eofName then some .missingEof
  else t.transitionFault? <|> t.acceptanceFault?

/-- A table whose parts fit together. The cells are counted as in a release build. -/
def check (t : Table) : Except TableError Table :=
  match t.fault? with
  | some reason => .error (.malformed reason)
  | none => .ok t

/-- The table with the given parts, if they fit together. -/
def ofParts? (columns : Nat) (transitions : Array Int) (finals : Array (Option TerminalId))
    (initial : StateId) (terminals : List String) : Except TableError Table :=
  check ⟨columns, transitions, finals, initial, ⟨terminals⟩⟩

/-- Counts the cells that the rows of a table take, as a build does. -/
def count (t : Table) (b : Build) : Except Panic Nat := b.word (t.states * t.columns)

/-- What a build makes of a table whose parts may not fit together. -/
def checkIn (t : Table) (b : Build) : Except Panic (Except TableError Table) := do
  let _ ← t.count b
  return t.check

/-- What a build makes of the given parts. -/
def ofPartsIn (b : Build) (columns : Nat) (transitions : Array Int) (finals : Array (Option TerminalId))
    (initial : StateId) (terminals : List String) : Except Panic (Except TableError Table) :=
  checkIn ⟨columns, transitions, finals, initial, ⟨terminals⟩⟩ b

end Table

/-- What a scanner needs to know of a table. The expected symbols of a state are those on which it
has a transition, in ascending order. -/
class TransitionTable (τ : Type) where
  initial : τ → StateId
  next : τ → StateId → Symbol → Option StateId
  accepts : τ → StateId → Option TerminalId
  expected : τ → StateId → List Symbol
  terminals : τ → Registry

namespace Table

/-- Where a state leads on a symbol, if it has a transition there, in a build. -/
def next? (t : Table) (b : Build) (id : StateId) (s : Symbol) : Except Panic (Option StateId) :=
  t.destination? b id s.val

/-- The symbols on which a state has a transition, in ascending order, in a build. -/
def expected? (t : Table) (b : Build) (id : StateId) : Except Panic (List Symbol) := do
  return (← t.liveColumns? b id).filterMap Symbol.ofNat?

end Table

/-- What a scanner is told by a table that has all of its cells. -/
instance : TransitionTable Table where
  initial := Table.initial
  next t id s := t.destination id s.val
  accepts := Table.accepting
  expected t id := (t.liveColumns id).filterMap Symbol.ofNat?
  terminals := Table.terminals

end TableLexer
