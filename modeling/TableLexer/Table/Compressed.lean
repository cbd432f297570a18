import TableLexer.FirstOccurrence
import TableLexer.Table.Basic

/-! Compressed tables: symbols on which no state tells a difference share a column. -/
namespace TableLexer

/-- A table over shared columns, with the column of each symbol and the symbols of each column. -/
structure CompressedTable where
  table : Table
  symbolToColumn : Array Nat
  columnToSymbols : Array (List Symbol)
deriving DecidableEq, Repr, Inhabited

namespace CompressedTable

/-- Puts the symbols of every column together, in ascending order. -/
def assemble (table : Table) (symbolToColumn : Array Nat) : CompressedTable :=
  let columnToSymbols := Array.ofFn fun column : Fin table.columns =>
    Symbol.all.filter fun s => symbolToColumn[s.val]? == some column.val
  ⟨table, symbolToColumn, columnToSymbols⟩

def states (t : CompressedTable) : Nat := t.table.states

def columns (t : CompressedTable) : Nat := t.table.columns

def columnOf (t : CompressedTable) (s : Symbol) : Nat := t.symbolToColumn.getD s.val 0

def symbolsOf (t : CompressedTable) (column : Nat) : List Symbol := t.columnToSymbols.getD column []

/-- Where a state leads on a symbol, if it has a transition there. -/
def destination (t : CompressedTable) (id : StateId) (s : Symbol) : Option StateId :=
  t.table.destination id (t.columnOf s)

/-- The symbols on which a state has a transition, in ascending order. -/
def liveSymbols (t : CompressedTable) (id : StateId) : List Symbol :=
  ((t.table.liveColumns id).flatMap t.symbolsOf).mergeSort (· ≤ ·)

/-- The first reason why the columns of the symbols do not fit the table. -/
def fault? (t : CompressedTable) : Option MalformedTable :=
  if t.symbolToColumn.size ≠ 256 then some (.symbolCount t.symbolToColumn.size)
  else
    match t.symbolToColumn.findIdx? (t.columns ≤ ·) with
    | some symbol => some (.missingColumn symbol (t.symbolToColumn.getD symbol 0))
    | none => (t.columnToSymbols.findIdx? (·.isEmpty)).map .emptyColumn

/-- The compressed table over a table that is known to be well formed, if the columns of the symbols
fit it. -/
def ofTable? (table : Table) (symbolToColumn : Array Nat) : Except TableError CompressedTable :=
  let t := assemble table symbolToColumn
  match t.fault? with
  | some reason => .error (.malformed reason)
  | none => .ok t

/-- The compressed table with the given parts, if they fit together. -/
def ofParts? (columns : Nat) (transitions : Array Int) (finals : Array (Option TerminalId))
    (initial : StateId) (terminals : List String) (symbolToColumn : Array Nat) :
    Except TableError CompressedTable := do
  ofTable? (← Table.ofParts? columns transitions finals initial terminals) symbolToColumn

/-- What a build makes of the given parts. -/
def ofPartsIn (b : Build) (columns : Nat) (transitions : Array Int) (finals : Array (Option TerminalId))
    (initial : StateId) (terminals : List String) (symbolToColumn : Array Nat) :
    Except Panic (Except TableError CompressedTable) := do
  return (← Table.ofPartsIn b columns transitions finals initial terminals) >>= (ofTable? · symbolToColumn)

end CompressedTable

namespace Table

/-- Merges those of the columns of all symbols that are equal in every row. A column that remains is numbered in the
order of its first symbol. -/
def merge (t : Table) (columns : List (Array Int)) : CompressedTable :=
  let (numbers, count) := classify columns
  let kept := firstOfEach columns numbers
  let transitions := (Array.range t.states).flatMap fun id => kept.map (·.getD id noTransition)
  .assemble { t with columns := count, transitions } numbers.toArray

/-- The compressed table of a table, in a build. The cells that are left are counted, too. -/
def compress? (t : Table) (b : Build) : Except Panic CompressedTable := do
  let merged := t.merge (← Symbol.all.mapM (t.columnCells? b))
  let _ ← merged.table.count b
  return merged

/-- The compressed table of a table that has all of its cells. -/
def compress (t : Table) : CompressedTable := t.merge (Symbol.all.map t.columnCells)

end Table

instance : TransitionTable CompressedTable where
  initial t := t.table.initial
  next := CompressedTable.destination
  accepts t := t.table.accepting
  expected := CompressedTable.liveSymbols
  terminals t := t.table.terminals

end TableLexer
