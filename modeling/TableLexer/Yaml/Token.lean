import TableLexer.Yaml.Scalar

/-! YAML text as tokens. Indentation is turned into tokens that open and close block collections,
and a key without a sign of its own gets its token once the colon after it is found. -/
namespace TableLexer.Yaml

inductive Token where
  | directive
  | documentStart
  | documentEnd
  | blockSequenceStart
  | blockMappingStart
  | blockEnd
  | flowSequenceStart
  | flowSequenceEnd
  | flowMappingStart
  | flowMappingEnd
  | blockEntry
  | flowEntry
  | key
  | value
  | alias (name : String)
  | anchor (name : String)
  | tag (handle suffix : String)
  | scalar (plain : Bool) (text : String)
deriving DecidableEq, Repr

/-- A place where a key may have started: the number of tokens before it, its place in the text,
whether a colon can still make it a key, and whether it must become one. -/
structure KeyStart where
  possible : Bool := false
  required : Bool := false
  tokens : Nat := 0
  index : Nat := 0
  line : Nat := 0
  column : Nat := 0

/-- The state of reading tokens. `keys` has an entry for each open flow collection and one for the
block around them, the innermost first; `indents` are the columns of the blocks around the one at
column `indent`. A value may follow a quoted key at the index `adjacent` without a blank. -/
structure Tokenizer where
  cursor : Cursor
  tokens : Array Token := #[]
  keyAllowed : Bool := true
  keys : List KeyStart := [{}]
  indent : Int := -1
  indents : List Int := []
  adjacent : Nat := 0

namespace Tokenizer

def flowLevel (t : Tokenizer) : Nat := t.keys.length - 1

def inFlow (t : Tokenizer) : Bool := t.flowLevel > 0

def push (t : Tokenizer) (token : Token) : Tokenizer := { t with tokens := t.tokens.push token }

def moveTo (t : Tokenizer) (c : Cursor) : Tokenizer := { t with cursor := c }

/-- Gives up keys whose line has ended or that are longer than 1024 characters. -/
def dropStaleKeys (t : Tokenizer) : Option Tokenizer := do
  let stale (k : KeyStart) : Bool :=
    k.possible && (k.line < t.cursor.line || k.index + 1024 < t.cursor.index)
  if t.keys.any fun k => stale k && k.required then none
  return { t with keys := t.keys.map fun k => if stale k then { k with possible := false } else k }

/-- Gives up the innermost key. -/
def dropKey (t : Tokenizer) : Option Tokenizer :=
  match t.keys with
  | [] => some t
  | k :: rest =>
    if k.possible && k.required then none
    else some { t with keys := { k with possible := false } :: rest }

/-- Notes that a key may start here. -/
def noteKey (t : Tokenizer) : Option Tokenizer :=
  if !t.keyAllowed then some t
  else do
    let t ← t.dropKey
    let c := t.cursor
    let k : KeyStart :=
      ⟨true, t.inFlow && t.indent == c.column, t.tokens.size, c.index, c.line, c.column⟩
    return { t with keys := k :: t.keys.tail }

/-- Closes the blocks that are indented by more than a column. -/
def closeBlocks (t : Tokenizer) (column : Int) : Tokenizer :=
  if t.inFlow then t
  else
    let closed := (t.indent :: t.indents).takeWhile (· > column)
    match (t.indent :: t.indents).drop closed.length with
    | [] => t
    | indent :: indents =>
      { t with tokens := t.tokens ++ Array.replicate closed.length Token.blockEnd, indent, indents }

/-- Opens a block at a column, unless one is open there; its token is put at a position among the
others. -/
def openBlock (t : Tokenizer) (column position : Nat) (token : Token) : Tokenizer :=
  if !t.inFlow && t.indent < column then
    { t with
      tokens := t.tokens.insertIdxIfInBounds position token
      indent := column
      indents := t.indent :: t.indents }
  else t

/-- Passes blanks, comments and line breaks. A tab may not stand where a block could start. -/
def passBlanks (keyAllowed : Bool) (inFlow : Bool) : Nat → Cursor → Bool × Cursor
  | 0, c => (keyAllowed, c)
  | fuel + 1, c =>
    if c.head == ' ' || (c.head == '\t' && (inFlow || !keyAllowed)) then
      passBlanks keyAllowed inFlow fuel c.skip
    else if isBreak c.head then passBlanks (keyAllowed || !inFlow) inFlow fuel c.skipBreak
    else if c.head == '#' then passBlanks keyAllowed inFlow fuel c.skipComment
    else (keyAllowed, c)

/-- Reads what follows the name of a directive. -/
def directiveValue? (name : String) (c : Cursor) : Option Cursor :=
  match name with
  | "YAML" => do
    let (major, c) := (c.skipWhile isBlank).takeWhile Char.isDigit
    if major.isEmpty || major.length > 9 || c.head != '.' then none
    let (minor, c) := c.skip.takeWhile Char.isDigit
    if minor.isEmpty || minor.length > 9 then none
    return c
  | _ => some (c.skipWhile (!isBreakOrEnd ·))

/-- The character that escaped octets spell. All octets but the first are put behind one another. -/
def escapedOctets? (c : Cursor) : Option (Char × Cursor) := do
  let octet? (c : Cursor) : Option Nat := do
    if c.head != '%' then none
    return (← Text.hexValue? (c.peek 1)) * 16 + (← Text.hexValue? (c.peek 2))
  let first ← octet? c
  let width ←
    if first < 0x80 then some 1
    else if 0xC0 ≤ first && first < 0xE0 then some 2
    else if 0xE0 ≤ first && first < 0xF0 then some 3
    else if 0xF0 ≤ first && first < 0xF8 then some 4
    else none
  let (code, c) ← (List.range (width - 1)).foldlM
    (fun (code, c) _ => do
      let octet ← octet? c
      if octet < 0x80 || 0xC0 ≤ octet then none
      return (code * 256 + octet, c.skipMany 3))
    (first, c.skipMany 3)
  if h : code.isValidChar then some (Char.ofNatAux code h, c) else none

def isUri (c : Char) : Bool :=
  isWord c || [';', '/', '?', ':', '@', '&', '=', '+', '$', ',', '.', '!', '~', '*', '\'', '(', ')',
    '[', ']', '%'].contains c

/-- Reads the rest of a tag. -/
def tagUri : Nat → List Char → Cursor → Option (List Char × Cursor)
  | 0, text, c => some (text.reverse, c)
  | fuel + 1, text, c =>
    if !isUri c.head then some (text.reverse, c)
    else if c.head == '%' then
      match escapedOctets? c with
      | some (char, c) => tagUri fuel (char :: text) c
      | none => none
    else tagUri fuel (c.head :: text) c.skip

/-- Reads the handle of a tag: an exclamation mark, and a word that may end with another one. -/
def tagHandle (c : Cursor) : Option (List Char × Cursor) :=
  if c.head != '!' then none
  else
    let (word, c) := c.skip.takeWhile isWord
    if c.head == '!' then some ('!' :: word ++ ['!'], c.skip) else some ('!' :: word, c)

/-- Reads the value of a directive that declares a tag handle. -/
def tagDirective? (c : Cursor) : Option Cursor := do
  let (handle, c) ← tagHandle (c.skipWhile isBlank)
  if handle.getLast? != some '!' then none
  let (uri, c) ← tagUri (c.rest.length + 1) [] (c.skipWhile isBlank)
  if uri.isEmpty || !isBlankOrEnd c.head then none
  return c

def directive? (c : Cursor) : Option Cursor := do
  let (name, c) := c.skip.takeWhile isWord
  if name.isEmpty || !isBlankOrEnd c.head then none
  let c ← if name == "TAG".toList then tagDirective? c else directiveValue? (String.ofList name) c
  let c := (c.skipWhile isBlank).skipComment
  if !isBreakOrEnd c.head then none
  return c.skipBreak

/-- Reads a tag as its handle and its suffix. -/
def tag? (c : Cursor) : Option (Token × Cursor) := do
  let (token, c) ←
    if c.peek 1 == '<' then do
      let (uri, c) ← tagUri (c.rest.length + 1) [] (c.skipMany 2)
      if uri.isEmpty || c.head != '>' then none
      some (Token.tag "" (String.ofList uri), c.skip)
    else do
      let (handle, c) ← tagHandle c
      if handle.length ≥ 2 && handle.getLast? == some '!' then do
        let (uri, c) ← tagUri (c.rest.length + 1) [] c
        if uri.isEmpty then none
        some (Token.tag (String.ofList handle) (String.ofList uri), c)
      else do
        let (uri, c) ← tagUri (c.rest.length + 1) handle.tail.reverse c
        if uri.isEmpty then some (Token.tag "" "!", c) else some (Token.tag "!" (String.ofList uri), c)
  if !isBlankOrEnd c.head then none
  return (token, c)

/-- Reads the name of an anchor or an alias. -/
def anchorName? (c : Cursor) : Option (String × Cursor) :=
  let (name, c) := c.skip.takeWhile isWord
  let ends := isBlankOrEnd c.head || ['?', ':', ',', ']', '}', '%', '@', '\x60'].contains c.head
  if name.isEmpty || !ends then none else some (String.ofList name, c)

/-- A token of one character. -/
def sign (t : Tokenizer) (token : Token) : Tokenizer := (t.moveTo t.cursor.skip).push token

def openFlow (t : Tokenizer) (token : Token) : Option Tokenizer := do
  let t ← t.noteKey
  if t.flowLevel = 255 then none
  return { t with keys := {} :: t.keys, keyAllowed := true }.sign token

def closeFlow (t : Tokenizer) (token : Token) : Option Tokenizer := do
  let t ← t.dropKey
  return { t with keys := if t.inFlow then t.keys.tail else t.keys, keyAllowed := false }.sign token

def blockEntry (t : Tokenizer) : Option Tokenizer := do
  if t.inFlow || !t.keyAllowed then none
  let t ← (t.openBlock t.cursor.column t.tokens.size .blockSequenceStart).dropKey
  return { t with keyAllowed := true }.sign .blockEntry

def explicitKey (t : Tokenizer) : Option Tokenizer := do
  if !t.inFlow && !t.keyAllowed then none
  let t ← (t.openBlock t.cursor.column t.tokens.size .blockMappingStart).dropKey
  return { t with keyAllowed := !t.inFlow }.sign .key

/-- A colon. It turns what started at the innermost key into a key, if that is possible. -/
def valueSign (t : Tokenizer) : Option Tokenizer :=
  match t.keys with
  | [] => none
  | k :: rest =>
    if k.possible then
      let t := { t with
        tokens := t.tokens.insertIdxIfInBounds k.tokens .key
        keys := { k with possible := false } :: rest
        keyAllowed := false }
      some ((t.openBlock k.column k.tokens .blockMappingStart).sign .value)
    else if !t.inFlow && !t.keyAllowed then none
    else
      let t := t.openBlock t.cursor.column t.tokens.size .blockMappingStart
      some ({ t with keyAllowed := !t.inFlow }.sign .value)

/-- A token that may be a key as a whole. -/
def whole (t : Tokenizer) (read : Tokenizer → Option Tokenizer) : Option Tokenizer := do
  read { ← t.noteKey with keyAllowed := false }

def anchorOrAlias (t : Tokenizer) (make : String → Token) : Option Tokenizer :=
  t.whole fun t => (anchorName? t.cursor).map fun (name, c) => (t.moveTo c).push (make name)

def tag (t : Tokenizer) : Option Tokenizer :=
  t.whole fun t => (tag? t.cursor).map fun (token, c) => (t.moveTo c).push token

def quoted (t : Tokenizer) : Option Tokenizer :=
  t.whole fun t => (quotedScalar t.cursor).map fun (text, c) =>
    { t.moveTo c with adjacent := c.index }.push (.scalar false text)

def plain (t : Tokenizer) : Option Tokenizer :=
  t.whole fun t => (plainScalar t.inFlow (t.indent + 1) t.cursor).map fun (text, broken, c) =>
    { t.moveTo c with keyAllowed := broken }.push (.scalar true text)

def block (t : Tokenizer) : Option Tokenizer := do
  let t ← t.noteKey
  let (text, c) ← blockScalar t.indent t.cursor
  return { t.moveTo c with keyAllowed := true }.push (.scalar false text)

/-- Ends all blocks, before a directive or the mark of a document. -/
def leave (t : Tokenizer) : Option Tokenizer := do
  return { ← (t.closeBlocks (-1)).dropKey with keyAllowed := false }

/-- Reads the tokens up to the next sign, or ends the text. The flag tells whether it has ended. -/
def step (t : Tokenizer) : Option (Bool × Tokenizer) := do
  let (keyAllowed, c) := passBlanks t.keyAllowed t.inFlow (t.cursor.rest.length + 1) t.cursor
  let t ← { t.moveTo c with keyAllowed }.dropStaleKeys
  let t := t.closeBlocks c.column
  let next := c.peek 1
  if c.head == endMark then return (true, ← t.leave)
  let t ←
    if c.column == 0 && c.head == '%' then do
      let t ← t.leave
      some ((t.moveTo (← directive? c)).push .directive)
    else if c.atMark '-' then do some (((← t.leave).moveTo (c.skipMany 3)).push .documentStart)
    else if c.atMark '.' then do some (((← t.leave).moveTo (c.skipMany 3)).push .documentEnd)
    else
      match c.head with
      | '[' => t.openFlow .flowSequenceStart
      | '{' => t.openFlow .flowMappingStart
      | ']' => t.closeFlow .flowSequenceEnd
      | '}' => t.closeFlow .flowMappingEnd
      | ',' => do some ({ ← t.dropKey with keyAllowed := true }.sign .flowEntry)
      | '*' => t.anchorOrAlias .alias
      | '&' => t.anchorOrAlias .anchor
      | '!' => t.tag
      | '\'' | '"' => t.quoted
      | '-' => if isBlankOrEnd next then t.blockEntry else t.plain
      | '?' => if isBlankOrEnd next then t.explicitKey else t.plain
      | ':' =>
        if isBlankOrEnd next || (t.inFlow && (isFlow next || c.index == t.adjacent)) then t.valueSign
        else t.plain
      | '|' | '>' => if t.inFlow then t.plain else t.block
      | '%' | '@' | '\x60' => none
      | _ => t.plain
  return (false, t)

/-- Reads all tokens. Every step but the last one passes a character. -/
def run : Nat → Tokenizer → Option (Array Token)
  | 0, _ => none
  | fuel + 1, t =>
    match t.step with
    | none => none
    | some (true, t) => some t.tokens
    | some (false, t) => run fuel t

end Tokenizer

/-- The tokens of a text. -/
def Token.ofText? (text : String) : Option (List Token) :=
  let c := Cursor.ofText text
  (Tokenizer.run (c.rest.length + 1) { cursor := c }).map (·.toList)

end TableLexer.Yaml
