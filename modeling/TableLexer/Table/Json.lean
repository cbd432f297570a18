import TableLexer.Json.Reader
import TableLexer.Table.Compressed

/-! Tables as JSON. -/
namespace TableLexer

namespace Table

def toJson (t : Table) : Json :=
  .object [
    (some "columns", .ofNat t.columns),
    (some "transitions", .ofList .integer t.transitions.toList),
    (some "finals", .ofList (fun terminal => terminal.elim .null .ofNat) t.finals.toList),
    (some "initial", .ofNat t.initial),
    (some "terminals", .ofList .ofString t.terminals.names)]

def json (t : Table) : String := t.toJson.compact

/-- A cell is a 32-bit number. -/
def cellOfJson? : Json → Option Int
  | .integer n => if -0x80000000 ≤ n ∧ n < 0x80000000 then some n else none
  | _ => none

def terminalOfJson? : Json → Option (Option TerminalId)
  | .null => some none
  | value => (value.asNat? wordSize).map some

/-- The parts of a table, whether they fit together or not. -/
def rawOfJson? (value : Json) : Option Table := do
  match ← value.record? ["columns", "transitions", "finals", "initial", "terminals"] with
  | [columns, transitions, finals, initial, terminals] =>
    return {
      columns := ← columns.asNat? wordSize
      transitions := (← transitions.asList? cellOfJson?).toArray
      finals := (← finals.asList? terminalOfJson?).toArray
      initial := ← initial.asNat? wordSize
      terminals := ⟨← terminals.asList? Json.asString?⟩ }
  | _ => none

/-- The table that a JSON text describes. -/
def ofJson? (text : String) : Except TableError Table := do
  match (Json.parse? text).bind rawOfJson? with
  | some t => t.check
  | none => throw .json

/-- What a build makes of a JSON text. -/
def ofJsonIn (b : Build) (text : String) : Except Panic (Except TableError Table) :=
  match (Json.parse? text).bind rawOfJson? with
  | some t => t.checkIn b
  | none => return .error .json

end Table

namespace CompressedTable

def toJson (t : CompressedTable) : Json :=
  .object [
    (some "table", t.table.toJson),
    (some "symbol_to_column", .ofList .ofNat t.symbolToColumn.toList)]

def json (t : CompressedTable) : String := t.toJson.compact

/-- The parts of a compressed table, whether they fit together or not: a table, and the columns of the symbols. -/
def rawOfJson? (value : Json) : Option (Table × List Nat) := do
  match ← value.record? ["table", "symbol_to_column"] with
  | [table, symbols] =>
    return (← Table.rawOfJson? table, ← symbols.asList? (Json.asNat? Table.wordSize))
  | _ => none

/-- The compressed table that a JSON text describes. The symbols of the columns are not in the
text: they follow from the columns of the symbols. -/
def ofJson? (text : String) : Except TableError CompressedTable := do
  match (Json.parse? text).bind rawOfJson? with
  | some (table, symbols) => ofTable? (← table.check) symbols.toArray
  | none => throw .json

/-- What a build makes of a JSON text. -/
def ofJsonIn (b : Build) (text : String) : Except Panic (Except TableError CompressedTable) :=
  match (Json.parse? text).bind rawOfJson? with
  | some (table, symbols) => do return (← table.checkIn b) >>= (ofTable? · symbols.toArray)
  | none => return .error .json

end CompressedTable

end TableLexer
