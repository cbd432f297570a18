import TableLexer.Regex.Bracket
import TableLexer.Regex.Group

/-! Reading regular expressions. They are made of characters, of sets in brackets, of the dot, of
what a position must be next to, of groups and alternatives, and of repetitions. -/
namespace TableLexer.Regex

/-- What the sign of a repetition does to the part before it. -/
def repetition? : Char → Option (Regex → Regex)
  | '*' => some .many
  | '+' => some fun r => .both r (.many r)
  | '?' => some (.either .empty)
  | _ => none

/-- The greatest number that a repetition may be given. -/
def greatestCount : Nat := 100000

/-- Reads a number of matches, between blanks. -/
def count? (text : List Char) : Option Nat := do
  let digits := ((text.dropWhile Text.isBlank).reverse.dropWhile Text.isBlank).reverse
  if digits.isEmpty || !digits.all Char.isDigit then none
  let n ← (String.ofList digits).toNat?
  if n ≤ greatestCount then some n else none

/-- The repetition that stands behind an opening brace: a number of matches, or the least and the
greatest number, of which the latter can be left out. Returns also the number of glyphs up to the
closing brace. -/
def counted? (text : List Glyph) : Option ((Regex → Regex) × Nat) := do
  let body := text.takeWhile (· ≠ .plain '\x7d')
  if body.length = text.length then none
  let chars ← body.mapM Glyph.plain?
  let least ← count? (chars.takeWhile (· ≠ ','))
  let most ← match chars.dropWhile (· ≠ ',') with
    | [] => some (some least)
    | [_] => some none
    | _ :: most => (count? most).map some
  if most.any (· < least) then none
  return (fun r => r.repeated least most, body.length + 1)

/-- The name of a group before the angle that closes it. -/
def groupName? (text : List Glyph) : Option (List Char) := do
  let body := text.takeWhile (· ≠ .plain '>')
  if body.length = text.length then none
  let name ← body.mapM Glyph.plain?
  let isStart (c : Char) : Bool := Text.isLetter c || c == '_'
  let isInner (c : Char) : Bool := Text.isLetterOrNumber c || ['_', '.', '[', ']'].contains c
  if name.head?.any isStart && name.all isInner then some name else none

/-- The names that stand in braces behind the sign of an edge of a word. -/
def edgeNames : List (String × Look) :=
  [("start", .wordStart), ("end", .wordEnd), ("start-half", .noWordBefore),
    ("end-half", .noWordAfter)]

/-- The named edge before some text, and the number of glyphs of its name. -/
def namedEdge? (text : List Glyph) : Option (Look × Nat) :=
  edgeNames.findSome? fun (name, edge) =>
    let spelling := ('\x7b' :: name.toList ++ ['\x7d']).map Glyph.plain
    if spelling.isPrefixOf text then some (edge, spelling.length) else none

/-- The flags before a colon or closing parenthesis, given those around, and the number of glyphs
that are read. -/
def flags? (text : List Glyph) (flags : Flags) : Option (Flags × Nat) := do
  let body := text.takeWhile fun g => g ≠ .plain ':' ∧ g ≠ .plain ')'
  let letters ← body.mapM Glyph.plain?
  return (← flags.change? letters, letters.length)

/-- Reads on in a group, inside of others, given the names of groups so far, of which no two are
equal. Where a match may stop does not depend on whether a repetition prefers few or many rounds, so
that the question mark of a lazy one is passed over. -/
def readGroups? (text : List Glyph) (group : Group) (outer : List Group) (names : List (List Char)) :
    Option (Nested Regex) :=
  match text with
  | [] =>
    match outer with
    | [] => some group.close
    | _ :: _ => none
  | .plain '(' :: .plain '?' :: .plain 'P' :: .plain '<' :: rest
  | .plain '(' :: .plain '?' :: .plain '<' :: rest => do
    let name ← groupName? rest
    if names.contains name then none
    else
      let inner : Group := { flags := group.flags }
      readGroups? (rest.drop (name.length + 1)) inner (group :: outer) (name :: names)
  | .plain '(' :: .plain '?' :: rest => do
    let (flags, n) ← flags? rest group.flags
    match rest[n]? with
    | some (.plain ':') => readGroups? (rest.drop (n + 1)) { flags } (group :: outer) names
    | some (.plain ')') =>
      if n = 0 then none else readGroups? (rest.drop (n + 1)) (group.setFlags flags) outer names
    | _ => none
  | .plain '(' :: rest => readGroups? rest { flags := group.flags } (group :: outer) names
  | .plain ')' :: rest =>
    match outer with
    | [] => none
    | around :: outer => readGroups? rest (around.pushGroup group) outer names
  | .plain '|' :: rest => readGroups? rest group.endAlternative outer names
  | .plain '[' :: rest =>
    match h : Bracket.read? group.flags.cased (Bracket.start rest).2 (Bracket.start rest).1 [] with
    | none => none
    | some (set, rest') =>
      have := Nat.lt_of_lt_of_le (Bracket.length_lt_of_read? h) (Bracket.start_snd_length_le rest)
      readGroups? rest' (group.push ⟨.oneOf set.value, set.height⟩) outer names
  | .plain '^' :: rest =>
    readGroups? rest (group.push ⟨.look group.flags.textStart, 0⟩) outer names
  | .plain '$' :: rest =>
    readGroups? rest (group.push ⟨.look group.flags.textEnd, 0⟩) outer names
  | .plain '.' :: rest => readGroups? rest (group.push ⟨.oneOf group.flags.dot, 0⟩) outer names
  | .plain '{' :: rest => do
    let (repeated, n) ← counted? rest
    let rest := rest.drop n
    let n := if rest.head? = some (.plain '?') then 1 else 0
    readGroups? (rest.drop n) (← group.repeatLast? repeated) outer names
  | .quoted 'b' :: rest =>
    let (edge, n) := (namedEdge? rest).getD (.wordEdge, 0)
    readGroups? (rest.drop n) (group.push ⟨.look edge, 0⟩) outer names
  | .plain c :: rest =>
    match repetition? c with
    | some repeated => do
      let n := if rest.head? = some (.plain '?') then 1 else 0
      readGroups? (rest.drop n) (← group.repeatLast? repeated) outer names
    | none =>
      readGroups? rest (group.push ⟨.oneOf (group.flags.cased (.single c)), 0⟩) outer names
  | g :: rest =>
    match g.look? with
    | some edge => readGroups? rest (group.push ⟨.look edge, 0⟩) outer names
    | none => do readGroups? rest (group.push ⟨.oneOf (group.flags.cased (← g.set?)), 0⟩) outer names
termination_by text.length

/-- The greatest height of an expression. -/
def greatestHeight : Nat := 250

/-- The regular expression that a text spells, if it spells one. -/
def read? (text : String) : Option Regex := do
  let r ← readGroups? (← glyphs? text.toList) {} [] []
  if r.height ≤ greatestHeight then some r.value else none

/-- The regular expression that matches whole names only. -/
def whole? (text : String) : Option Regex := read? s!"^(?:{text})$"

end TableLexer.Regex
