import TableLexer.Proofs.Loop
import TableLexer.Proofs.Scanner.Steps

/-! How many rounds the loops of a scanner make. -/
namespace TableLexer

section follow

variable {τ : Type} [TransitionTable τ]

/-- One round of following an input takes one character on. -/
def Match.round (t : τ) (state : Match × Input) : (Match × Option Char × Input) ⊕ (Match × Input) :=
  match state.2.next? with
  | none => .inl (state.1, none, state.2)
  | some (c, rest) =>
    match (Symbol.ofChar? c).bind (TransitionTable.next t state.1.state) with
    | some target => .inr (state.1.extend t c target, rest)
    | none => .inl (state.1, some c, rest.putBack c)

/-- An input is followed in no more rounds than it has characters, and one. -/
theorem Match.ends_follow (t : τ) (m : Match) (i : Input) :
    ∃ n ≤ i.unread.length + 1, Ends (Match.round t) (m, i) n (Match.follow t m i) := by
  refine exists_ends (fun p : Match × Input => p.2.unread.length) (fun p => Match.follow t p.1 p.2) ?_ (m, i)
  intro p
  obtain ⟨m, i⟩ := p
  unfold Match.round
  dsimp only
  cases hnext : i.next? with
  | none => exact .inl (congrArg Sum.inl (Match.follow_end hnext).symm)
  | some next =>
    obtain ⟨c, rest⟩ := next
    dsimp only
    cases hstep : (Symbol.ofChar? c).bind (TransitionTable.next t m.state) with
    | none => exact .inl (congrArg Sum.inl (Match.follow_stop hnext hstep).symm)
    | some target =>
      refine .inr ⟨(m.extend t c target, rest), rfl, ?_, (Match.follow_step hnext hstep).symm⟩
      simp [Input.unread_of_next? hnext]

end follow

namespace Scanner

variable {τ : Type} [TransitionTable τ] {s s' : Scanner τ} {t : Token} {e : LexicalError}

/-- One round of scanning past ignored tokens scans one token. -/
def passRound (state : Scanner τ × List Token) :
    (List Token × Except LexicalError Token × Scanner τ) ⊕ (Scanner τ × List Token) :=
  match state.1.scanOne with
  | (.token t, s') =>
    if s'.isIgnored t.kind then .inr (s', t :: state.2) else .inl (state.2.reverse, .ok t, s')
  | (.ended, s') =>
    let place := s'.ended.getD s'.location
    .inl (state.2.reverse, .ok (.ofEof place), { s' with ended := some place })
  | (.failure e, s') => .inl (state.2.reverse, .error e, s')

private theorem ends_scanPast (s : Scanner τ) (passed : List Token) :
    ∃ n ≤ s.input.unread.length + 1, Ends passRound (s, passed) n (s.scanPast passed) := by
  refine exists_ends (fun p : Scanner τ × List Token => p.1.input.unread.length) (fun p => p.1.scanPast p.2) ?_ (s, passed)
  intro p
  obtain ⟨s, passed⟩ := p
  unfold passRound
  dsimp only
  rcases hscan : s.scanOne with ⟨attempt, s'⟩
  cases attempt with
  | token t =>
    dsimp only
    split
    · next hignored =>
      exact .inr ⟨_, rfl, scanOne_unread_length_lt hscan, (scanPast_of_ignored hscan hignored).symm⟩
    · next hkept =>
      rw [Bool.not_eq_true] at hkept
      exact .inl (congrArg Sum.inl (scanPast_of_token hscan hkept).symm)
  | ended => exact .inl (congrArg Sum.inl (scanPast_of_ended hscan).symm)
  | failure e => exact .inl (congrArg Sum.inl (scanPast_of_failure hscan).symm)

/-- Consumes tokens up to the end of input, and returns them behind those consumed before, the last one of them
first, unless there is a failure. -/
def scanAllAfter (s : Scanner τ) (made : List Token) : Except LexicalError (List Token) × Scanner τ :=
  match s.readAllAfter made with
  | (tokens, none, s) => (.ok tokens, s)
  | (_, some e, s) => (.error e, s)

/-- One round of consuming all tokens consumes one. -/
def scanAllRound (state : Scanner τ × List Token) :
    (Except LexicalError (List Token) × Scanner τ) ⊕ (Scanner τ × List Token) :=
  match state.1.advance with
  | (.ok t, s') => if t.isEof then .inl (.ok (t :: state.2).reverse, s') else .inr (s', t :: state.2)
  | (.error e, s') => .inl (.error e, s')

private theorem read_of_advance {result : Except LexicalError Token} (h : s.advance = (result, s')) :
    s.read = (s.read.1, result, s') := Prod.ext rfl h

private theorem ends_scanAll (s : Scanner τ) : ∃ n ≤ s.remaining + 1, Ends scanAllRound (s, []) n s.scanAll := by
  refine exists_ends (fun p : Scanner τ × List Token => p.1.remaining) (fun p => p.1.scanAllAfter p.2) ?_ (s, [])
  intro p
  obtain ⟨s, made⟩ := p
  -- The loop over `advance` does not see the tokens that `read` passes over.
  unfold scanAllRound scanAllAfter
  dsimp only
  rcases hadvance : s.advance with ⟨e | t, s'⟩
  · rw [readAllAfter_of_failure (read_of_advance hadvance)]
    exact .inl rfl
  · dsimp only
    split
    · next heof =>
      rw [readAllAfter_of_eof (read_of_advance hadvance) heof]
      exact .inl rfl
    · next hmore =>
      rw [Bool.not_eq_true] at hmore
      refine .inr ⟨_, rfl, read_remaining_lt (read_of_advance hadvance) hmore, ?_⟩
      rw [readAllAfter_of_token (read_of_advance hadvance) hmore]

/-- One round of recovering consumes one token, or skips one character after a failure. -/
def recoverRound (state : Scanner τ × List Event) : (List Event × Scanner τ) ⊕ (Scanner τ × List Event) :=
  match state.1.read with
  | (passed, .ok t, s') =>
    let made := .token t :: passOver passed state.2
    if t.isEof then .inl (made.reverse, s') else .inr (s', made)
  | (passed, .error e, s') =>
    let made := .failure e :: passOver passed state.2
    match s'.skip with
    | (none, s'') => .inl (made.reverse, s'')
    | (some c, s'') => .inr (s'', .skipped c s'.location :: made)

private theorem ends_recover (s : Scanner τ) : ∃ n ≤ s.remaining + 1, Ends recoverRound (s, []) n s.recover := by
  refine exists_ends (fun p : Scanner τ × List Event => p.1.remaining) (fun p => p.1.recoverAfter p.2) ?_ (s, [])
  intro p
  obtain ⟨s, made⟩ := p
  unfold recoverRound
  dsimp only
  rcases hread : s.read with ⟨passed, e | t, s'⟩
  · dsimp only
    rcases hskip : s'.skip with ⟨c, s''⟩
    cases c with
    | none => exact .inl (congrArg Sum.inl (recoverAfter_of_stuck hread hskip).symm)
    | some c =>
      have hle := read_remaining_le s
      rw [hread] at hle
      exact .inr ⟨_, rfl, Nat.lt_of_lt_of_le (skip_remaining_lt hskip) hle, (recoverAfter_of_skip hread hskip).symm⟩
  · dsimp only
    split
    · next heof => exact .inl (congrArg Sum.inl (recoverAfter_of_eof hread heof).symm)
    · next hmore =>
      rw [Bool.not_eq_true] at hmore
      exact .inr ⟨_, rfl, read_remaining_lt hread hmore, (recoverAfter_of_token hread hmore).symm⟩

/-- What it means that a scanner makes progress: a token other than the one of the end of input takes characters,
and so does skipping one after a failure, unless there is none left. -/
structure Progresses (s : Scanner τ) : Prop where
  token : ∀ t s', s.advance = (.ok t, s') → t.isEof = false →
    s'.input.unread.length < s.input.unread.length ∧ s'.current = none
  failure : ∀ e s', s.advance = (.error e, s') →
    s'.skip.1 = none ∨ s'.skip.2.input.unread.length < s.input.unread.length ∧ s'.skip.2.current = none

omit [TransitionTable τ] in
private theorem remaining_of_current (h : s.current = none) : s.remaining = s.input.unread.length := by
  simp [remaining, h]

/-- A scanner makes progress unless it has looked ahead. -/
theorem progresses (h : s.current = none) : s.Progresses where
  token t s' hadvance ht := by
    have hcurrent : s'.current = none := congrArg (·.2.current) hadvance ▸ s.read_current
    have hlt := read_remaining_lt (read_of_advance hadvance) ht
    rw [remaining_of_current h, remaining_of_current hcurrent] at hlt
    exact ⟨hlt, hcurrent⟩
  failure e s' hadvance := by
    have hcurrent : s'.current = none := congrArg (·.2.current) hadvance ▸ s.read_current
    have hle := s.read_remaining_le
    rw [read_of_advance hadvance, remaining_of_current h, remaining_of_current hcurrent] at hle
    rcases hskip : s'.skip with ⟨c, s''⟩
    cases c with
    | none => exact .inl rfl
    | some c =>
      have hcurrent' : s''.current = none := congrArg (·.2.current) hskip ▸ s'.skip_current.trans hcurrent
      have hlt := skip_remaining_lt hskip
      rw [remaining_of_current hcurrent, remaining_of_current hcurrent'] at hlt
      exact .inr ⟨Nat.lt_of_lt_of_le hlt hle, hcurrent'⟩

/-- Whatever the table accepts and the scanner ignores, all its loops end. Those over the tokens of a text make at
most as many rounds as the text has characters, and one. -/
theorem scanning_ends {table : τ} {text : String} {ids : List TerminalId} (h : start table text ids = .ok s) :
    (∃ n ≤ text.length + 1, Ends scanAllRound (s, []) n s.scanAll) ∧
      (∃ n ≤ text.length + 1, Ends recoverRound (s, []) n s.recover) ∧
      (∀ r : Scanner τ, r.current = none → r.Progresses) ∧
      (∀ (r : Scanner τ) (passed : List Token),
        ∃ n ≤ r.input.unread.length + 1, Ends passRound (r, passed) n (r.scanPast passed)) ∧
      ∀ (m : Match) (i : Input), ∃ n ≤ i.unread.length + 1, Ends (Match.round table) (m, i) n (Match.follow table m i) := by
  have hremaining : s.remaining = text.length := by
    obtain ⟨-, rfl⟩ := eq_of_start h
    rfl
  exact ⟨hremaining ▸ s.ends_scanAll, hremaining ▸ s.ends_recover, fun _ => progresses, ends_scanPast, Match.ends_follow table⟩

/-- Empty lines, any number of them. The initial state accepts too. -/
def emptyLines : Table where
  columns := 11
  transitions := Array.replicate 10 (-1) ++ #[0]
  finals := #[some 1]
  initial := 0
  terminals := ⟨["EOF", "BREAK"]⟩

theorem scanning_ends_emptyLines : emptyLines.accepting emptyLines.initial = some 1 ∧
    ∃ s, start emptyLines "\n\n\t\n" [1] = .ok s ∧ ∃ n ≤ 5, Ends recoverRound (s, []) n s.recover := by
  obtain ⟨s, hs⟩ : ∃ s, start emptyLines "\n\n\t\n" [1] = .ok s := ⟨_, rfl⟩
  exact ⟨rfl, s, hs, (scanning_ends hs).2.1⟩

end Scanner

end TableLexer
