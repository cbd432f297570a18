import TableLexer.Description.Basic
import TableLexer.Yaml.Document

/-! Reading descriptions from YAML. -/
namespace TableLexer

namespace Description

open Yaml (Node)

/-- Reading a part of a description. The journal has the texts of the character classes. -/
abbrev Reader := Journaled DescriptionError

namespace Reader

def fail {α : Type} (path : String) (what : FormatProblem) : Reader α :=
  throw (.format (.problem path what))

/-- The answer if there is one. -/
def expect {α : Type} (answer : Option α) (path : String) (what : FormatProblem) : Reader α :=
  match answer with
  | some a => pure a
  | none => fail path what

def charClass (text : String) : Reader (List SymbolRange) := do
  Journaled.note (.classText text)
  Journaled.ofExcept id (CharClass.parse text)

def count (node : Node) (path : String) : Reader Nat := do
  let n ← expect node.integer? path .expectedCount
  if n < 0 then fail path .expectedCount
  return n.toNat

/-- What a mapping has under a key, if that is not bad. -/
def entry? (node : Node) (key : String) : Option Node :=
  match node.get? key with
  | some .bad => none
  | found => found

mutual

/-- Reads the pattern at a path. Every pattern takes one unit of fuel. -/
def pattern : Nat → Node → String → Reader Pattern
  | 0, _, path => fail path .expectedPattern
  | fuel + 1, node, path =>
    match node with
    | .string text => return .literal text
    | .integer n => return .literal (toString n)
    | .sequence parts => return .sequence (← patterns fuel parts path 0)
    | .mapping [(key, value)] => do
      let key := key.string?.getD ""
      let path := s!"{path}.{key}"
      match key with
      | "class" => return .oneOf (← charClass (← expect value.string? path .expectedString))
      | "not" => return .noneOf (← charClass (← expect value.string? path .expectedString))
      | "alt" =>
        match value with
        | .sequence parts => return .alternation (← patterns fuel parts path 0)
        | _ => fail path .expectedPatterns
      | "star" => return .star (← pattern fuel value path)
      | "plus" => return .plus (← pattern fuel value path)
      | "opt" => return .optional (← pattern fuel value path)
      | "macro" => return .defined (← expect value.string? path .expectedString)
      | "repeat" => repetition fuel value path
      | _ => fail path .unknownOperator
    | _ => fail path .expectedPattern

/-- Reads the patterns of a list, of which the first one has the given position. -/
def patterns : Nat → List Node → String → Nat → Reader (List Pattern)
  | 0, _, path, _ => fail path .expectedPattern
  | _ + 1, [], _, _ => return []
  | fuel + 1, node :: rest, path, i => do
    let first ← pattern fuel node s!"{path}[{i}]"
    return first :: (← patterns fuel rest path (i + 1))

def repetition : Nat → Node → String → Reader Pattern
  | 0, _, path => fail path .expectedPattern
  | fuel + 1, node, path => do
    let p ← match entry? node "pattern" with
      | some node => pattern fuel node s!"{path}.pattern"
      | none => fail path .missingPattern
    let min ← match entry? node "min" with
      | some node => count node s!"{path}.min"
      | none => pure 0
    let max ← match entry? node "max" with
      | none | some .null => pure none
      | some node => do pure (some (← count node s!"{path}.max"))
    return .repeated p min max

end

mutual

/-- The number of nodes in a value. -/
def nodeCount : Node → Nat
  | .sequence items => itemCount items + 1
  | .mapping entries => entryCount entries + 1
  | _ => 1

def itemCount : List Node → Nat
  | [] => 0
  | node :: rest => nodeCount node + itemCount rest

def entryCount : List (Node × Node) → Nat
  | [] => 0
  | (key, value) :: rest => nodeCount key + nodeCount value + entryCount rest

end

/-- Reads a mapping from names to patterns. -/
def named (node : Node) (title : String) : Reader (List (String × Pattern)) := do
  match node with
  | .null => return []
  | .mapping entries =>
    entries.mapM fun (key, value) => do
      let name ← expect key.string? title .emptyName
      if name.isEmpty then fail title .emptyName
      return (name, ← pattern (2 * nodeCount value + 1) value s!"{title}.{name}")
  | _ => fail title .expectedMapping

def option (options : Options) (entry : Node × Node) : Reader Options := do
  let (key, value) := entry
  let key := key.string?.getD ""
  let path := s!"options.{key}"
  match key with
  | "strict" =>
    let strict ← expect value.bool? path .expectedBoolean
    return { options with config.ambiguity := if strict then .strict else .firstDeclared }
  | "state_limit" =>
    let limit ← expect value.integer? path .expectedPositive
    if limit ≤ 0 then fail path .expectedPositive
    return { options with config.stateLimit := limit.toNat }
  | "compress" => return { options with compress := ← expect value.bool? path .expectedBoolean }
  | "minimize" => return { options with minimize := ← expect value.bool? path .expectedBoolean }
  | _ => fail path .unknownOption

def options (node : Node) : Reader Options := do
  match node with
  | .null => return {}
  | .mapping entries => entries.foldlM option {}
  | _ => fail "options" .expectedMapping

def ignored (node : Node) : Reader (List String) := do
  match node with
  | .null => return []
  | .string name => return [name]
  | .sequence names => names.mapM fun node => expect node.string? "ignore" .expectedNames
  | _ => fail "ignore" .expectedNameList

/-- Reads one section. The flag tells whether the terminals have been read. -/
def topic (read : Description × Bool) (entry : Node × Node) : Reader (Description × Bool) := do
  let (d, hasTerminals) := read
  match entry.1.string? with
  | some "options" => return ({ d with options := ← options entry.2 }, hasTerminals)
  | some "macros" => return ({ d with definitions := ← named entry.2 "macros" }, hasTerminals)
  | some "terminals" =>
    let terminals ← named entry.2 "terminals"
    if terminals.any (·.1 == eofName) then fail s!"terminals.{eofName}" .reservedName
    return ({ d with terminals }, true)
  | some "ignore" => return ({ d with ignored := ← ignored entry.2 }, hasTerminals)
  | some other => fail other .unknownSection
  | none => fail "" .sectionName

/-- Reads a description from the documents of a text. -/
def description (documents : List Node) : Reader Description := do
  match documents with
  | [root] =>
    match root with
    | .mapping entries =>
      let (d, hasTerminals) ← entries.foldlM topic ({}, false)
      if !hasTerminals then fail "terminals" .missingSection
      Journaled.note (.parsed d.definitions.length d.terminals.length d.ignored.length)
      return d
    | _ => fail "" .expectedMapping
  | _ => throw (.format (.documents documents.length))

end Reader

/-- Reads a description from a YAML text. -/
def read (text : String) : Journaled DescriptionError Description :=
  match Yaml.documents? text with
  | some documents => Reader.description documents
  | none => throw .yaml

/-- The description that a YAML text holds. -/
def parse (text : String) : Except DescriptionError Description := (read text).result

end Description

end TableLexer
