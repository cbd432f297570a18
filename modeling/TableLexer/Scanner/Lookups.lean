import TableLexer.Scanner.Basic

/-! Scanning a token with the lookups of a build, which can panic. -/
namespace TableLexer

/-- Follows an input for as long as there are transitions. -/
def Match.follow? (t : Table) (b : Build) (m : Match) (i : Input) : Except Panic (Match × Option Char × Input) :=
  match h : i.next? with
  | none => .ok (m, none, i)
  | some (c, rest) =>
    match (Symbol.ofChar? c).elim (.ok none) (t.next? b m.state) with
    | .ok (some target) =>
      have : rest.unread.length < i.unread.length := by simp [Input.unread_of_next? h]
      follow? t b (m.extend t c target) rest
    | .ok none => .ok (m, some c, rest.putBack c)
    | .error panic => .error panic
termination_by i.unread.length

/-- Scans one token, ignored or not. Nothing else that a scanner does looks at the cells of its table. -/
def Scanner.scanOne? (s : Scanner Table) (b : Build) : Except Panic (Attempt × Scanner Table) :=
  match s.ended with
  | some _ => return (.ended, s)
  | none => do
    let (m, found, input) ← Match.follow? s.table b (.empty s.table) s.input
    let buffer := m.buffer.toList
    match m.accepted with
    | some (length, kind) =>
      let lexeme := buffer.take length
      return (.token ⟨kind, String.ofList lexeme, s.location⟩,
        { s with input := input.putBackAll (buffer.drop length), location := s.location.afterAll lexeme })
    | none =>
      if buffer.isEmpty && found.isNone then return (.ended, { s with input })
      else
        let location := s.location.afterAll buffer
        let expected ← s.table.expected? b m.state
        return (.failure ⟨found, location, expected⟩, { s with input, location })

end TableLexer
