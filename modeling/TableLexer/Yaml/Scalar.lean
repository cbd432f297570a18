import TableLexer.Yaml.Cursor

/-! The texts of YAML scalars: plain, quoted, and in blocks of lines. -/
namespace TableLexer.Yaml

/-- What stands between two words of a scalar: the blanks on one line, the last one first, or line
breaks. `folded` tells whether the first line break counts, and `more` how many follow it. -/
structure Gap where
  blanks : List Char := []
  broken : Bool := false
  folded : Bool := false
  more : Nat := 0

namespace Gap

/-- The text that a gap stands for. One line break is folded into a space; of several, the first
one is dropped. -/
def text (g : Gap) : List Char :=
  if !g.broken then g.blanks.reverse
  else if g.folded && g.more == 0 then [' ']
  else List.replicate g.more '\n'

/-- Reads blanks and line breaks. On new lines no tab may stand left of the column `tabLimit`. -/
def read (tabLimit : Int) : Nat → Gap → Cursor → Option (Gap × Cursor)
  | 0, g, c => some (g, c)
  | fuel + 1, g, c =>
    if isBlank c.head then
      if g.broken then
        if c.head == '\t' && c.column < tabLimit then none else read tabLimit fuel g c.skip
      else read tabLimit fuel { g with blanks := c.head :: g.blanks } c.skip
    else if isBreak c.head then
      if g.broken then read tabLimit fuel { g with more := g.more + 1 } c.skipBreak
      else read tabLimit fuel { broken := true, folded := true } c.skipBreak
    else some (g, c)

end Gap

/-- Reads a word of a plain scalar. In flow collections their delimiters end it, and everywhere a
colon that is followed by a blank. -/
def plainWord (inFlow : Bool) : Nat → List Char → Cursor → List Char × Cursor
  | 0, word, c => (word.reverse, c)
  | fuel + 1, word, c =>
    if isBlankOrEnd c.head then (word.reverse, c)
    else if c.head == ':' && (isBlankOrEnd (c.peek 1) || (inFlow && isFlow (c.peek 1))) then
      (word.reverse, c)
    else if inFlow && isFlow c.head then (word.reverse, c)
    else plainWord inFlow fuel (c.head :: word) c.skip

/-- Reads the words of a plain scalar whose lines are indented by at least `indent`, if it is not
in a flow collection. The text read so far has its last character first. The flag tells whether a
line break precedes the place where the scalar ends. -/
def plainWords (inFlow : Bool) (indent : Int) :
    Nat → List Char → Gap → Cursor → Option (List Char × Bool × Cursor)
  | 0, text, g, c => some (text, g.broken, c)
  | fuel + 1, text, g, c =>
    if c.atDocumentMark || c.head == '#' then some (text, g.broken, c)
    else do
      let (word, c) := plainWord inFlow fuel [] c
      let (text, g) := if word.isEmpty then (text, g) else ((g.text ++ word).reverseAux text, {})
      if isBlank c.head || isBreak c.head then
        let (g, c) ← g.read indent fuel c
        if !inFlow && c.column < indent then some (text, g.broken, c)
        else plainWords inFlow indent fuel text g c
      else some (text, g.broken, c)

def plainScalar (inFlow : Bool) (indent : Int) (c : Cursor) : Option (String × Bool × Cursor) :=
  (plainWords inFlow indent (c.rest.length + 1) [] {} c).map fun (text, broken, c) =>
    (String.ofList text.reverse, broken, c)

/-- The character that an escape of one letter stands for. -/
def escape? : Char → Option Char
  | '0' => some '\x00'
  | 'a' => some '\x07'
  | 'b' => some '\x08'
  | 't' | '\t' => some '\t'
  | 'n' => some '\n'
  | 'v' => some '\x0b'
  | 'f' => some '\x0c'
  | 'r' => some '\r'
  | 'e' => some '\x1b'
  | ' ' => some ' '
  | '"' => some '"'
  | '\'' => some '\''
  | '\\' => some '\\'
  | 'N' => some '\u0085'
  | '_' => some '\u00a0'
  | 'L' => some '\u2028'
  | 'P' => some '\u2029'
  | _ => none

/-- Reads the rest of a word in quotes. The flag tells whether an escaped line break ends it. -/
def quotedWord (quote : Char) : Nat → List Char → Cursor → Option (List Char × Bool × Cursor)
  | 0, _, _ => none
  | fuel + 1, word, c =>
    let double := quote == '"'
    if isBlankOrEnd c.head then some (word.reverse, false, c)
    else if !double && c.head == '\'' && c.peek 1 == '\'' then
      quotedWord quote fuel ('\'' :: word) (c.skipMany 2)
    else if c.head == quote then some (word.reverse, false, c)
    else if double && c.head == '\\' then
      if isBreak (c.peek 1) then some (word.reverse, true, c.skip.skipBreak)
      else
        match escape? (c.peek 1) with
        | some char => quotedWord quote fuel (char :: word) (c.skipMany 2)
        | none => do
          let n ← Text.codeLength? (c.peek 1)
          let c := c.skipMany 2
          let digits := c.rest.take n
          if digits.length < n then none
          let char ← Text.codedChar? digits
          quotedWord quote fuel (char :: word) (c.skipMany n)
    else quotedWord quote fuel (c.head :: word) c.skip

/-- Reads the words of a quoted scalar up to the closing quote. The text has its last character
first. -/
def quotedWords (quote : Char) : Nat → List Char → Cursor → Option (List Char × Cursor)
  | 0, _, _ => none
  | fuel + 1, text, c =>
    if c.atDocumentMark || c.head == endMark then none
    else do
      let (word, escapedBreak, c) ← quotedWord quote (fuel + 1) [] c
      let text := word.reverseAux text
      if c.head == quote then return (text, c.skip)
      let (g, c) ← Gap.read 0 fuel { broken := escapedBreak } c
      quotedWords quote fuel (g.text.reverseAux text) c

/-- Reads a quoted scalar from its opening quote on. -/
def quotedScalar (c : Cursor) : Option (String × Cursor) :=
  (quotedWords c.head (c.rest.length + 1) [] c.skip).map fun (text, c) =>
    (String.ofList text.reverse, c)

/-- What becomes of the line breaks at the end of a block. -/
inductive Chomping where
  | strip
  | clip
  | keep
deriving DecidableEq

def chomping? : Char → Option Chomping
  | '-' => some .strip
  | '+' => some .keep
  | _ => none

/-- Reads the indentation sign of a block, which is no zero. The answer is zero if there is none. -/
def indentationSign (c : Cursor) : Option (Nat × Cursor) :=
  if c.head == '0' then none
  else if c.head.isDigit then some (c.head.toNat - '0'.toNat, c.skip)
  else some (0, c)

/-- Reads the signs after the sign of a block, in either order. -/
def blockSigns (c : Cursor) : Option (Chomping × Nat × Cursor) :=
  match chomping? c.head with
  | some chomping => do
    let (n, c) ← indentationSign c.skip
    return (chomping, n, c)
  | none => do
    let (n, c) ← indentationSign c
    match if n > 0 then chomping? c.head else none with
    | some chomping => return (chomping, n, c.skip)
    | none => return (.clip, n, c)

/-- Passes the indentation of a block and the empty lines before its next line. Returns the column
that was reached at most, and the number of line breaks. An `indent` of zero is not yet known. -/
def blockBreaks (indent : Nat) : Nat → Nat → Nat → Cursor → Option (Nat × Nat × Cursor)
  | 0, reached, breaks, c => some (reached, breaks, c)
  | fuel + 1, reached, breaks, c =>
    let spaces := (c.rest.takeWhile (· == ' ')).length
    let c := c.skipMany (if indent == 0 then spaces else min spaces (indent - c.column))
    let reached := max reached c.column
    if (indent == 0 || c.column < indent) && c.head == '\t' then none
    else if isBreak c.head then blockBreaks indent fuel reached (breaks + 1) c.skipBreak
    else some (reached, breaks, c)

/-- Reads the lines of a block. `lead` tells whether a line break precedes, and `breaks` how many
empty lines follow it; `blank` tells whether the line before starts with a blank. In a folded block
a line break between two lines that start with no blank becomes a space, or nothing if empty lines
follow it. Returns the text, with its last character first, and what is left of `lead` and `breaks`
after the last line. -/
def blockLines (literal : Bool) (indent : Nat) :
    Nat → List Char → (lead : Bool) → (breaks : Nat) → (blank : Bool) → Cursor →
      Option (List Char × Bool × Nat × Cursor)
  | 0, text, lead, breaks, _, c => some (text, lead, breaks, c)
  | fuel + 1, text, lead, breaks, blank, c =>
    if c.column != indent || c.head == endMark then some (text, lead, breaks, c)
    else do
      let startsBlank := isBlank c.head
      let joint :=
        if !lead then []
        else if !literal && !blank && !startsBlank then (if breaks == 0 then [' '] else [])
        else ['\n']
      let (line, c) := c.takeWhile (!isBreakOrEnd ·)
      let text := (joint ++ List.replicate breaks '\n' ++ line).reverseAux text
      if c.head == endMark then some (text, false, 0, c)
      else
        let c := c.skipBreak
        let (_, breaks, c) ← blockBreaks indent fuel 0 0 c
        blockLines literal indent fuel text true breaks startsBlank c

/-- Reads a literal or folded block from its sign on, within a collection that is indented by
`parent`. -/
def blockScalar (parent : Int) (c : Cursor) : Option (String × Cursor) := do
  let literal := c.head == '|'
  let (chomping, n, c) ← blockSigns c.skip
  let c := (c.skipWhile isBlank).skipComment
  if !isBreakOrEnd c.head then none
  let c := c.skipBreak
  let given := if n == 0 then 0 else if parent ≥ 0 then parent.toNat + n else n
  let (reached, breaks, c) ← blockBreaks given (c.rest.length + 1) 0 0 c
  let indent := if given == 0 then max (max reached (parent + 1).toNat) 1 else given
  let (text, lead, breaks, c) ← blockLines literal indent (c.rest.length + 1) [] false breaks false c
  let tail :=
    match chomping with
    | .strip => []
    | .clip => if lead then ['\n'] else []
    | .keep => (if lead then ['\n'] else []) ++ List.replicate breaks '\n'
  return (String.ofList (text.reverseAux tail), c)

end TableLexer.Yaml
