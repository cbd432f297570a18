import TableLexer.CharClass
import TableLexer.Pattern

/-! Descriptions of lexers: named patterns, terminals and options. -/
namespace TableLexer

structure Options where
  config : BuildConfig := {}
  compress : Bool := true
  minimize : Bool := false
deriving DecidableEq, Repr, Inhabited

/-- A description. Definitions and terminals stand in the order of their declaration, which fixes
the ids of the terminals; a definition may use those before it. -/
structure Description where
  options : Options := {}
  definitions : List (String × Pattern) := []
  terminals : List (String × Pattern) := []
  ignored : List String := []
deriving Repr, Inhabited

namespace Description

/-- Defines a name in an automaton. -/
def define (a : Automaton) (named : String × Pattern) : Except ConstructionError Automaton :=
  CharClass.define named.1 named.2.build a

/-- Builds the automaton that is described. -/
def declare (d : Description) : Journaled ConstructionError Automaton := do
  let a ← Journaled.ofExcept id (d.definitions.foldlM define { config := d.options.config })
  d.terminals.foldlM (fun a (name, p) => CharClass.declare name p.build a) a

/-- The automaton that is described. -/
def build (d : Description) : Except ConstructionError Automaton := d.declare.result

/-- The ids of the ignored terminals. -/
def ignoredIds (d : Description) (terminals : Registry) :
    Except DescriptionError (List TerminalId) :=
  d.ignored.mapM fun name =>
    match terminals.id? name with
    | none => .error (.unknownTerminal name)
    | some id => if id = eof then .error (.format (.problem "ignore" .ignoredEof)) else .ok id

end Description

end TableLexer
