import TableLexer.Automaton.Error
import TableLexer.Scanner.Token

/-! The ways in which a description of a lexer can be wrong. -/
namespace TableLexer

/-- What is wrong with the part of a description at some path. -/
inductive FormatProblem where
  | expectedMapping
  | sectionName
  | unknownSection
  | missingSection
  | reservedName
  | unknownOption
  | expectedBoolean
  | expectedPositive
  | expectedCount
  | expectedString
  | emptyName
  | expectedNames
  | expectedNameList
  | ignoredEof
  | unknownOperator
  | expectedPatterns
  | expectedPattern
  | missingPattern
deriving DecidableEq, Repr

def FormatProblem.text : FormatProblem → String
  | expectedMapping => "expected a mapping"
  | sectionName => "section names must be strings"
  | unknownSection => "unknown section"
  | missingSection => "missing section"
  | reservedName => "the name is reserved for the end of input"
  | unknownOption => "unknown option"
  | expectedBoolean => "expected a boolean"
  | expectedPositive => "expected a positive integer"
  | expectedCount => "expected a non-negative integer"
  | expectedString => "expected a string"
  | emptyName => "names must be non-empty strings"
  | expectedNames => "expected terminal names"
  | expectedNameList => "expected a list of terminal names"
  | ignoredEof => "the end of input cannot be ignored"
  | unknownOperator => "unknown pattern operator"
  | expectedPatterns => "expected a list of patterns"
  | expectedPattern => "expected a string, a list or a single-operator mapping"
  | missingPattern => "missing 'pattern'"

/-- What is wrong with the form of a description. -/
inductive FormatError where
  | documents (found : Nat)
  | problem (path : String) (what : FormatProblem)
  | emptyRange (range text : String)
  | truncatedClass (text : String)
  | unexpectedClassToken (kind : TerminalId) (text : String)
deriving DecidableEq, Repr

def FormatError.text : FormatError → String
  | documents found => s!"expected a single YAML document, found {found}"
  | problem path what => if path.isEmpty then what.text else s!"{path}: {what.text}"
  | emptyRange range text => s!"Empty range '{range}' in character class \"{text}\""
  | truncatedClass text => s!"Truncated character class \"{text}\""
  | unexpectedClassToken kind text => s!"Unexpected class token {kind} in \"{text}\""

inductive DescriptionError where
  | yaml
  | format (e : FormatError)
  | charClass (e : LexicalError)
  | construction (e : ConstructionError)
  | unknownTerminal (name : String)
deriving DecidableEq, Repr

def DescriptionError.message : DescriptionError → String
  | yaml => "Failed to read YAML"
  | format e => s!"Malformed description: {e.text}"
  | charClass e => s!"Invalid character class: {e.message}"
  | construction e => s!"Failed to build automaton: {e.message}"
  | unknownTerminal name => s!"Invalid ignore list: {unknownTerminalMessage name}"

end TableLexer
