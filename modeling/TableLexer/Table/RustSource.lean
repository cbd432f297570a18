import TableLexer.Table.Compressed
import TableLexer.Text.Quoted

/-! Tables as Rust source: their parts as static arrays, and a function that puts them together. -/
namespace TableLexer

/-- The items in lines of sixteen. -/
def sixteens : List String → List (List String)
  | [] => []
  | item :: rest => (item :: rest.take 15) :: sixteens (rest.drop 15)
termination_by items => items.length
decreasing_by simp only [List.length_drop, List.length_cons]; omega

/-- The declaration of an array, given the name, the type and the literals of its items. -/
def rustArray (name type : String) (items : List String) : String :=
  let line (items : List String) := "    " ++ ", ".intercalate items ++ ",\n"
  s!"pub static {name}: [{type}; {items.length}] = [\n"
    ++ String.join ((sixteens items).map line) ++ "];\n\n"

/-- The beginning of a source file, with the parts that all tables have. -/
def rustParts (t : Table) : String :=
  "// Generated by munch, do not edit.\n\n"
    ++ s!"pub static COLUMNS: usize = {t.columns};\n\n"
    ++ s!"pub static INITIAL: usize = {t.initial};\n\n"
    ++ rustArray "TRANSITIONS" "i32" (t.transitions.toList.map toString)
    ++ rustArray "FINALS" "Option<usize>"
      (t.finals.toList.map fun terminal => terminal.elim "None" fun id => s!"Some({id})")
    ++ rustArray "TERMINALS" "&str" (t.terminals.names.map Text.quoted)

/-- The function that rebuilds a table of the given type from its parts. -/
def rustConstructor (type more : String) : String :=
  s!"pub fn table() -> Result<munch::{type}, munch::TableError> \x7b\n"
    ++ s!"    munch::{type}::from_parts(\n"
    ++ "        COLUMNS,\n"
    ++ "        TRANSITIONS.to_vec(),\n"
    ++ "        FINALS.to_vec(),\n"
    ++ "        INITIAL,\n"
    ++ "        TERMINALS.iter().map(|name| name.to_string()).collect(),\n"
    ++ more
    ++ "    )\n\x7d\n"

def Table.rustSource (t : Table) : String := rustParts t ++ rustConstructor "Table" ""

def CompressedTable.rustSource (t : CompressedTable) : String :=
  rustParts t.table
    ++ rustArray "SYMBOL_TO_COLUMN" "usize" (t.symbolToColumn.toList.map toString)
    ++ rustConstructor "CompressedTable" "        SYMBOL_TO_COLUMN.to_vec(),\n"

end TableLexer
