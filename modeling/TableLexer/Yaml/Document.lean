import TableLexer.Yaml.Node
import TableLexer.Yaml.Token

/-! The documents of a YAML text. -/
namespace TableLexer.Yaml

/-- The tokens that are left, and the anchors seen so far: the number of the last anchor of each
name, the values of the numbers whose nodes are complete, and the next number. -/
structure Composition where
  tokens : List Token
  anchors : List (String × Nat) := []
  values : List (Nat × Node) := []
  next : Nat := 1

abbrev Composer := StateT Composition Option

namespace Composer

def fail {α : Type} : Composer α := fun _ => none

def peek : Composer (Option Token) := do return (← get).tokens.head?

def drop : Composer Unit := modify fun s => { s with tokens := s.tokens.tail }

/-- Takes a token if it is the next one. -/
def take (token : Token) : Composer Bool := do
  if (← peek) == some token then drop; return true
  return false

def nextIs (tokens : List Token) : Composer Bool := do return (← peek).any tokens.contains

/-- Takes the anchor that stands before a node, and returns its number. -/
def anchor? : Composer (Option Nat) := do
  match ← peek with
  | some (.anchor name) =>
    drop
    modifyGet fun s => (some s.next, { s with anchors := (name, s.next) :: s.anchors, next := s.next + 1 })
  | _ => return none

def tag? : Composer (Option (String × String)) := do
  match ← peek with
  | some (.tag handle suffix) => drop; return some (handle, suffix)
  | _ => return none

/-- Takes the anchor and the tag before a node, in either order. -/
def properties : Composer (Option Nat × Option (String × String)) := do
  match ← anchor? with
  | some id => return (some id, ← tag?)
  | none =>
    match ← tag? with
    | some tag => return (← anchor?, some tag)
    | none => return (none, none)

def aliasValue (name : String) : Composer Node := do
  let s ← get
  match s.anchors.lookup name with
  | some id => return (s.values.lookup id).getD .bad
  | none => fail

mutual

/-- Composes a node. Blocks are nodes only where `block` says so, and sequences that are not
indented only where `indentless` says so. Every node and entry takes one unit of fuel. -/
def node (block indentless : Bool) : Nat → Composer Node
  | 0 => fail
  | fuel + 1 => do
    if let some (.alias name) ← peek then
      drop
      return ← aliasValue name
    let (anchor, tag) ← properties
    let value ← match ← peek with
      | some (.scalar plain text) => do drop; pure (Node.ofScalar plain tag text)
      | some .flowSequenceStart => do drop; flowSequence true [] fuel
      | some .flowMappingStart => do drop; flowMapping true [] fuel
      | some token =>
        if token == .blockEntry && indentless then indentlessSequence [] fuel
        else if token == .blockSequenceStart && block then do drop; blockSequence [] fuel
        else if token == .blockMappingStart && block then do drop; blockMapping [] fuel
        else if anchor.isSome || tag.isSome then pure (Node.ofScalar true tag "")
        else fail
      | none => if anchor.isSome || tag.isSome then pure (Node.ofScalar true tag "") else fail
    if let some id := anchor then
      modify fun s => { s with values := (id, value) :: s.values }
    return value

/-- Composes the entries of a block sequence; `items` are those before, the last one first. -/
def blockSequence (items : List Node) : Nat → Composer Node
  | 0 => fail
  | fuel + 1 => do
    if ← take .blockEnd then return .sequence items.reverse
    if ← take .blockEntry then
      if ← nextIs [.blockEntry, .blockEnd] then blockSequence (.null :: items) fuel
      else blockSequence ((← node true false fuel) :: items) fuel
    else fail

/-- Composes the entries of a sequence that is not indented more than the mapping around it. -/
def indentlessSequence (items : List Node) : Nat → Composer Node
  | 0 => fail
  | fuel + 1 => do
    if ← take .blockEntry then
      if ← nextIs [.blockEntry, .key, .value, .blockEnd] then indentlessSequence (.null :: items) fuel
      else indentlessSequence ((← node true false fuel) :: items) fuel
    else return .sequence items.reverse

/-- Composes the entries of a block mapping; `nodes` are the keys and values before, the last one
first. -/
def blockMapping (nodes : List Node) : Nat → Composer Node
  | 0 => fail
  | fuel + 1 => do
    if ← take .blockEnd then return .ofFlat nodes.reverse
    let key ←
      if ← take .key then
        if ← nextIs [.key, .value, .blockEnd] then pure .null else node true true fuel
      else if ← nextIs [.value] then pure .null
      else fail
    let value ←
      if ← take .value then
        if ← nextIs [.key, .value, .blockEnd] then pure .null else node true true fuel
      else pure .null
    blockMapping (value :: key :: nodes) fuel

/-- Composes the value of a pair in a flow collection that ends with `close`. -/
def flowValue (close : Token) : Nat → Composer Node
  | 0 => fail
  | fuel + 1 => do
    if ← take .value then
      if ← nextIs [.flowEntry, close] then pure .null else node false false fuel
    else pure .null

/-- Composes the entries of a flow mapping. -/
def flowMapping (first : Bool) (nodes : List Node) : Nat → Composer Node
  | 0 => fail
  | fuel + 1 => do
    if ← take .flowMappingEnd then return .ofFlat nodes.reverse
    unless first do
      unless ← take .flowEntry do fail
    if ← take .flowMappingEnd then return .ofFlat nodes.reverse
    if ← take .key then
      let key ←
        if ← nextIs [.value, .flowEntry, .flowMappingEnd] then pure .null else node false false fuel
      let value ← flowValue .flowMappingEnd fuel
      flowMapping false (value :: key :: nodes) fuel
    else if ← nextIs [.value] then
      let value ← flowValue .flowMappingEnd fuel
      flowMapping false (value :: .null :: nodes) fuel
    else
      let key ← node false false fuel
      flowMapping false (.null :: key :: nodes) fuel

/-- Composes the entries of a flow sequence. An entry with a key is a mapping of one pair. -/
def flowSequence (first : Bool) (items : List Node) : Nat → Composer Node
  | 0 => fail
  | fuel + 1 => do
    if ← take .flowSequenceEnd then return .sequence items.reverse
    unless first do
      unless ← take .flowEntry do fail
    if ← take .flowSequenceEnd then return .sequence items.reverse
    if ← take .key then
      let key ←
        if ← nextIs [.value, .flowEntry, .flowSequenceEnd] then do drop; pure .null
        else node false false fuel
      let value ← flowValue .flowSequenceEnd fuel
      flowSequence false (.ofFlat [key, value] :: items) fuel
    else flowSequence false ((← node false false fuel) :: items) fuel

end

/-- Composes documents up to the end of the text; `made` are those before, the last one first. The
first one needs no mark at its start. -/
def documents (first : Bool) (made : List Node) : Nat → Composer (List Node)
  | 0 => fail
  | fuel + 1 => do
    let size := 2 * (← get).tokens.length + 2
    modify fun s => { s with
      tokens := if first then s.tokens else s.tokens.dropWhile (· == .documentEnd)
      anchors := [] }
    match ← peek with
    | none => return made.reverse
    | some token =>
      let value ←
        if first && !([.directive, .documentStart].contains token) then node true false size
        else do
          modify fun s => { s with tokens := s.tokens.dropWhile (· == .directive) }
          unless ← take .documentStart do fail
          if (← peek).all [.directive, .documentStart, .documentEnd].contains then pure .null
          else node true false size
      discard (take .documentEnd)
      documents false (value :: made) fuel

end Composer

/-- The documents of a text, if it is well formed. -/
def documents? (text : String) : Option (List Node) := do
  let tokens ← Token.ofText? text
  let (nodes, _) ← (Composer.documents true [] (tokens.length + 2)).run { tokens }
  return nodes

end TableLexer.Yaml
