import TableLexer.Regex.Glyph

/-! Sets of characters in brackets. They hold characters, ranges, named sets and further brackets,
and combine by intersection, difference and symmetric difference. -/
namespace TableLexer.Regex

/-- The ASCII characters that have a name in brackets. -/
def namedRanges : List (String × List (Nat × Nat)) := [
  ("alnum", [(0x30, 0x39), (0x41, 0x5a), (0x61, 0x7a)]),
  ("alpha", [(0x41, 0x5a), (0x61, 0x7a)]),
  ("ascii", [(0x0, 0x7f)]),
  ("blank", [(0x9, 0x9), (0x20, 0x20)]),
  ("cntrl", [(0x0, 0x1f), (0x7f, 0x7f)]),
  ("digit", [(0x30, 0x39)]),
  ("graph", [(0x21, 0x7e)]),
  ("lower", [(0x61, 0x7a)]),
  ("print", [(0x20, 0x7e)]),
  ("punct", [(0x21, 0x2f), (0x3a, 0x40), (0x5b, 0x60), (0x7b, 0x7e)]),
  ("space", [(0x9, 0xd), (0x20, 0x20)]),
  ("upper", [(0x41, 0x5a)]),
  ("word", [(0x30, 0x39), (0x41, 0x5a), (0x5f, 0x5f), (0x61, 0x7a)]),
  ("xdigit", [(0x30, 0x39), (0x41, 0x46), (0x61, 0x66)])]

/-- The set whose name stands between colons behind an opening bracket, and the number of glyphs up
to the bracket that closes. A circumflex before the name negates it. -/
def namedSet? (cased : CharSet → CharSet) (text : List Glyph) : Option (CharSet × Nat) :=
  namedRanges.findSome? fun (name, ranges) =>
    let spelling (sign : String) : List Glyph := s!":{sign}{name}:]".toList.map .plain
    let set := cased (.ranges ranges)
    if (spelling "").isPrefixOf text then some (set, (spelling "").length)
    else if (spelling "^").isPrefixOf text then some (.compl set, (spelling "^").length)
    else none

/-- The characters from a first to a last one. -/
def range? (first last : Glyph) : Option CharSet := do
  let first ← first.literal?
  let last ← last.literal?
  if last < first then none else some (.ranges [(first.toNat, last.toNat)])

/-- A set in brackets that has been read in part: its items since the last operation, and that
operation with its first operand. -/
structure Bracket where
  negated : Bool := false
  pending : Option ((CharSet → CharSet → CharSet) × Nested CharSet) := none
  items : List (Nested CharSet) := []

namespace Bracket

def add (b : Bracket) (item : Nested CharSet) : Bracket := { b with items := item :: b.items }

/-- The union of the items. -/
def union (b : Bracket) : Nested CharSet :=
  match b.items with
  | [] => ⟨.ranges [], 0⟩
  | [item] => item
  | items =>
    ⟨items.foldl (fun set item => .union item.value set) (.ranges []), Nested.greatestHeight items + 1⟩

/-- The set that has been read so far. -/
def result (b : Bracket) : Nested CharSet :=
  match b.pending with
  | none => b.union
  | some (operation, first) =>
    ⟨operation first.value b.union.value, max first.height b.union.height + 1⟩

/-- Makes the set that has been read so far the first operand of an operation. -/
def operate (b : Bracket) (operation : CharSet → CharSet → CharSet) : Bracket :=
  { b with pending := some (operation, b.result), items := [] }

/-- The whole set. -/
def close (b : Bracket) : Nested CharSet :=
  let set := b.result
  ⟨if b.negated then .compl set.value else set.value, set.height + 1⟩

/-- Reads what has a meaning of its own behind an opening bracket: the sign of negation, and then
dashes or a closing bracket, which stand for themselves. Returns also what follows. -/
def start (text : List Glyph) : Bracket × List Glyph :=
  let negated := text.head? == some (.plain '^')
  let text := if negated then text.drop 1 else text
  let rest := text.dropWhile (· == .plain '-')
  if rest.length < text.length then ({ negated, items := [⟨.single '-', 0⟩] }, rest)
  else if text.head? == some (.plain ']') then
    ({ negated, items := [⟨.single ']', 0⟩] }, text.drop 1)
  else ({ negated }, text)

theorem start_snd_length_le (text : List Glyph) : (start text).2.length ≤ text.length := by
  have h (t : List Glyph) : (t.dropWhile (· == .plain '-')).length ≤ t.length :=
    (List.dropWhile_suffix _).length_le
  unfold start
  grind

/-- Reads on in brackets, inside of others, and returns also what follows the outermost. A dash
between two characters makes a range, unless it is followed by another dash or the end. What is done
about case is done to the items, and what brackets do keeps it. -/
def read? (cased : CharSet → CharSet) (text : List Glyph) (b : Bracket) (outer : List Bracket) :
    Option (Nested CharSet × List Glyph) :=
  match text with
  | [] => none
  | .plain '[' :: rest =>
    match namedSet? cased rest with
    | some (set, n) => read? cased (rest.drop n) (b.add ⟨set, 0⟩) outer
    | none =>
      have := start_snd_length_le rest
      read? cased (start rest).2 (start rest).1 (b :: outer)
  | .plain ']' :: rest =>
    match outer with
    | [] => some (b.close, rest)
    | around :: outer => read? cased rest (around.add b.close) outer
  | .plain '&' :: .plain '&' :: rest => read? cased rest (b.operate .inter) outer
  | .plain '-' :: .plain '-' :: rest => read? cased rest (b.operate .diff) outer
  | .plain '~' :: .plain '~' :: rest => read? cased rest (b.operate .symmDiff) outer
  | first :: .plain '-' :: last :: rest =>
    if last = .plain ']' ∨ last = .plain '-' then do
      read? cased (.plain '-' :: last :: rest) (b.add ⟨cased (← first.set?), 0⟩) outer
    else do read? cased rest (b.add ⟨cased (← range? first last), 0⟩) outer
  | g :: rest => do read? cased rest (b.add ⟨cased (← g.set?), 0⟩) outer
termination_by text.length
decreasing_by
  all_goals simp only [List.length_cons, List.length_drop]
  all_goals omega

theorem length_lt_of_read? {cased : CharSet → CharSet} {text rest : List Glyph} {b : Bracket}
    {outer : List Bracket} {set : Nested CharSet} (h : read? cased text b outer = some (set, rest)) :
    rest.length < text.length := by
  fun_induction read? cased text b outer with
  | case1 => simp at h
  | case4 => simp_all
  | case9 | case10 | case11 =>
    rename_i ih
    obtain ⟨set, -, h⟩ := Option.bind_eq_some_iff.1 h
    have := ih set h
    simp only [List.length_cons] at *
    omega
  | _ =>
    rename_i ih
    have := ih h
    simp only [List.length_cons, List.length_drop] at *
    omega

end Bracket

end TableLexer.Regex
