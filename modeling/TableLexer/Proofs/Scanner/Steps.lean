import TableLexer.Proofs.Outcome
import TableLexer.Scanner.Transcript

/-! What a scanner does, case by case. -/
namespace TableLexer

namespace Match

variable {τ : Type} [TransitionTable τ] {t : τ} {m : Match} {i rest : Input} {c : Char} {target : StateId}

/-- Following an input character by character, without the measure that bounds it. -/
private theorem follow_eq : follow t m i =
    match i.next? with
    | none => (m, none, i)
    | some (c, rest) =>
      match (Symbol.ofChar? c).bind (TransitionTable.next t m.state) with
      | some target => follow t (m.extend t c target) rest
      | none => (m, some c, rest.putBack c) := by
  rw [follow]
  split
  · next hnext => rw [hnext]
  · next c rest hnext =>
    cases hbind : (Symbol.ofChar? c).bind (TransitionTable.next t m.state) <;> simp only [hnext, hbind]

theorem follow_end (h : i.next? = none) : follow t m i = (m, none, i) := by rw [follow_eq, h]

theorem follow_stop (h : i.next? = some (c, rest))
    (hc : (Symbol.ofChar? c).bind (TransitionTable.next t m.state) = none) :
    follow t m i = (m, some c, rest.putBack c) := by
  rw [follow_eq, h]
  dsimp only
  rw [hc]

theorem follow_step (h : i.next? = some (c, rest))
    (hc : (Symbol.ofChar? c).bind (TransitionTable.next t m.state) = some target) :
    follow t m i = follow t (m.extend t c target) rest := by
  rw [follow_eq, h]
  dsimp only
  rw [hc]

end Match

namespace Scanner

variable {τ : Type} [TransitionTable τ] {s s' : Scanner τ} {m : Match} {found : Option Char} {input : Input}

/-- Terminals other than the end of input can be ignored. -/
private theorem foldlM_ignore {ids : List TerminalId}
    (h : ∀ id ∈ ids, id ≠ eof ∧ (TransitionTable.terminals s.table).contains id = true) :
    ids.foldlM ignore s = .ok { s with ignored := ids.reverse ++ s.ignored } := by
  induction ids generalizing s with
  | nil => rfl
  | cons id ids ih =>
    obtain ⟨⟨hne, hcontains⟩, hids⟩ := List.forall_mem_cons.1 h
    have hignore : s.ignore id = .ok { s with ignored := id :: s.ignored } := by
      simp [ignore, hne, hcontains]
    rw [List.foldlM_cons, hignore, List.reverse_cons, List.append_assoc]
    exact @ih { s with ignored := id :: s.ignored } hids

theorem start_eq {table : τ} {ids : List TerminalId}
    (h : ∀ id ∈ ids, id ≠ eof ∧ (TransitionTable.terminals table).contains id = true) (text : String) :
    start table text ids = .ok { table, input := { source := text.toList }, ignored := ids.reverse } := by
  have hstart := @foldlM_ignore _ _ (ofText table text) ids h
  rwa [show (ofText table text).ignored = [] from rfl, List.append_nil] at hstart

/-- A scanner that ignores one kind more is otherwise the same. -/
theorem eq_of_ignore {id : TerminalId} (h : s.ignore id = .ok s') :
    (id ≠ eof ∧ (TransitionTable.terminals s.table).contains id = true) ∧ s' = { s with ignored := id :: s.ignored } := by
  unfold ignore at h
  split at h
  · contradiction
  next hne =>
  split at h
  · contradiction
  next hcontains => exact ⟨⟨hne, by simpa using hcontains⟩, (Except.ok.inj h).symm⟩

/-- What is ignored by name has an id. -/
theorem exists_ignore_of_ignoreNamed {name : String} (h : s.ignoreNamed name = .ok s') :
    ∃ id, s.ignore id = .ok s' := by
  unfold ignoreNamed at h
  split at h
  · next id _ => exact ⟨id, h⟩
  · contradiction

/-- A scanner starts only if what it is to ignore can be ignored. -/
theorem eq_of_start {table : τ} {text : String} {ids : List TerminalId} (h : start table text ids = .ok s) :
    (∀ id ∈ ids, id ≠ eof ∧ (TransitionTable.terminals table).contains id = true) ∧
      s = { table, input := { source := text.toList }, ignored := ids.reverse } := by
  refine foldlM_ok (fun ids s => (∀ id ∈ ids, id ≠ eof ∧ (TransitionTable.terminals table).contains id = true) ∧
    s = { table, input := { source := text.toList }, ignored := ids.reverse }) h ?_ fun done id _ x y _ hx hignore => ?_
  · exact ⟨fun id hid => absurd hid List.not_mem_nil, rfl⟩
  · obtain ⟨hdone, rfl⟩ := hx
    obtain ⟨hid, rfl⟩ := eq_of_ignore hignore
    refine ⟨fun id' hid' => ?_, by rw [List.reverse_append]; rfl⟩
    rcases List.mem_append.1 hid' with hid' | hid'
    · exact hdone id' hid'
    · exact List.mem_singleton.1 hid' ▸ hid

theorem scanOne_of_ended {place : Location} (h : s.ended = some place) : s.scanOne = (.ended, s) := by
  unfold scanOne
  rw [h]

section pass

variable (hended : s.ended = none)
  (hfollow : Match.follow s.table (.empty s.table) s.input = (m, found, input))
include hended hfollow

theorem scanOne_of_accepted {length : Nat} {kind : TerminalId} (h : m.accepted = some (length, kind)) :
    s.scanOne = (.token ⟨kind, String.ofList (m.buffer.toList.take length), s.location⟩,
      { s with
        input := input.putBackAll (m.buffer.toList.drop length)
        location := s.location.afterAll (m.buffer.toList.take length) }) := by
  unfold scanOne
  rw [hended, hfollow]
  dsimp only
  rw [h]

theorem scanOne_of_empty (h : m.accepted = none) (hbuffer : m.buffer.toList = []) (hfound : found = none) :
    s.scanOne = (.ended, { s with input }) := by
  unfold scanOne
  rw [hended, hfollow]
  dsimp only
  rw [h, hbuffer, hfound]
  rfl

theorem scanOne_of_failure (h : m.accepted = none) (hbuffer : m.buffer.toList ≠ [] ∨ found ≠ none) :
    s.scanOne = (.failure
        ⟨found, s.location.afterAll m.buffer.toList, TransitionTable.expected s.table m.state⟩,
      { s with input, location := s.location.afterAll m.buffer.toList }) := by
  unfold scanOne
  rw [hended, hfollow]
  dsimp only
  rw [h]
  dsimp only
  rw [if_neg]
  rw [Bool.and_eq_true, List.isEmpty_iff, Option.isNone_iff_eq_none]
  intro hresult
  obtain ⟨hnil, hnone⟩ := hresult
  exact hbuffer.elim (· hnil) (· hnone)

end pass

/-- The ways in which scanning one token can go, if `m` is as far as the table follows the input: the end has come
before, a terminal has been matched, nothing is left of the text, or the text goes on where no terminal does. -/
inductive Scans (s : Scanner τ) (m : Match) (found : Option Char) (input : Input) : Attempt → Scanner τ → Prop where
  | finished {place : Location} (hended : s.ended = some place) : Scans s m found input .ended s
  | matched {length : Nat} {kind : TerminalId} (hended : s.ended = none) (haccepted : m.accepted = some (length, kind)) :
      Scans s m found input (.token ⟨kind, String.ofList (m.buffer.toList.take length), s.location⟩)
        { s with
          input := input.putBackAll (m.buffer.toList.drop length)
          location := s.location.afterAll (m.buffer.toList.take length) }
  | drained (hended : s.ended = none) (haccepted : m.accepted = none) (hbuffer : m.buffer.toList = [])
      (hfound : found = none) : Scans s m found input .ended { s with input }
  | stuck (hended : s.ended = none) (haccepted : m.accepted = none)
      (hstuck : m.buffer.toList ≠ [] ∨ found ≠ none) :
      Scans s m found input
        (.failure ⟨found, s.location.afterAll m.buffer.toList, TransitionTable.expected s.table m.state⟩)
        { s with input, location := s.location.afterAll m.buffer.toList }

theorem scanOne_cases {attempt : Attempt} (hfollow : Match.follow s.table (.empty s.table) s.input = (m, found, input))
    (h : s.scanOne = (attempt, s')) : s.Scans m found input attempt s' := by
  cases hended : s.ended with
  | some place =>
    obtain ⟨rfl, rfl⟩ := Prod.mk.inj ((scanOne_of_ended hended).symm.trans h)
    exact .finished hended
  | none =>
    cases haccepted : m.accepted with
    | some best =>
      obtain ⟨rfl, rfl⟩ := Prod.mk.inj ((scanOne_of_accepted hended hfollow haccepted).symm.trans h)
      exact .matched hended haccepted
    | none =>
      by_cases hstuck : m.buffer.toList = [] ∧ found = none
      · obtain ⟨hbuffer, hfound⟩ := hstuck
        obtain ⟨rfl, rfl⟩ := Prod.mk.inj ((scanOne_of_empty hended hfollow haccepted hbuffer hfound).symm.trans h)
        exact .drained hended haccepted hbuffer hfound
      · have hstuck := not_and_or.1 hstuck
        obtain ⟨rfl, rfl⟩ := Prod.mk.inj ((scanOne_of_failure hended hfollow haccepted hstuck).symm.trans h)
        exact .stuck hended haccepted hstuck

variable {passed : List Token} {t : Token}

/-- Scanning past ignored tokens, without the measure that bounds it. -/
private theorem scanPast_eq (s : Scanner τ) (passed : List Token) : s.scanPast passed =
    match s.scanOne with
    | (.token t, s') => if s'.isIgnored t.kind then s'.scanPast (t :: passed) else (passed.reverse, .ok t, s')
    | (.ended, s') =>
      (passed.reverse, .ok (.ofEof (s'.ended.getD s'.location)), { s' with ended := some (s'.ended.getD s'.location) })
    | (.failure e, s') => (passed.reverse, .error e, s') := by
  rw [scanPast]
  split <;> simp only [*]

theorem scanPast_of_ignored (h : s.scanOne = (.token t, s')) (hignored : s'.isIgnored t.kind = true) :
    s.scanPast passed = s'.scanPast (t :: passed) := by
  rw [scanPast_eq, h]
  exact if_pos hignored

theorem scanPast_of_token (h : s.scanOne = (.token t, s')) (hignored : s'.isIgnored t.kind = false) :
    s.scanPast passed = (passed.reverse, .ok t, s') := by
  rw [scanPast_eq, h]
  exact if_neg (Bool.eq_false_iff.1 hignored)

theorem scanPast_of_ended (h : s.scanOne = (.ended, s')) : s.scanPast passed =
    (passed.reverse, .ok (.ofEof (s'.ended.getD s'.location)),
      { s' with ended := some (s'.ended.getD s'.location) }) := by
  rw [scanPast_eq, h]

theorem scanPast_of_failure {e : LexicalError} (h : s.scanOne = (.failure e, s')) :
    s.scanPast passed = (passed.reverse, .error e, s') := by
  rw [scanPast_eq, h]

variable {made : List Token} {events : List Event} {e : LexicalError}

theorem read_of_current (h : s.current = some t) : s.read = ([], .ok t, { s with current := none }) := by
  unfold read
  rw [h]

theorem read_of_none (h : s.current = none) : s.read = s.scanPast [] := by
  unfold read
  rw [h]

/-- Nothing has been looked at behind a token that is consumed. -/
theorem read_current (s : Scanner τ) : s.read.2.2.current = none := by
  cases hcurrent : s.current with
  | some t => rw [read_of_current hcurrent]
  | none => rw [read_of_none hcurrent, scanPast_current, hcurrent]

omit [TransitionTable τ] in
theorem skip_current (s : Scanner τ) : s.skip.2.current = s.current := by
  unfold skip
  split <;> rfl

theorem peek_of_current (h : s.current = some t) : s.peek = (.ok t, s) := by
  unfold peek
  rw [h]

theorem peek_of_token (h : s.current = none) (hscan : (s.scanPast []).2 = (.ok t, s')) :
    s.peek = (.ok t, { s' with current := some t }) := by
  unfold peek
  rw [h, hscan]

theorem peek_of_failure (h : s.current = none) (hscan : (s.scanPast []).2 = (.error e, s')) :
    s.peek = (.error e, s') := by
  unfold peek
  rw [h, hscan]

/-- A token that has been looked at is kept. -/
theorem current_of_peek (h : s.peek = (.ok t, s')) : s'.current = some t := by
  cases hcurrent : s.current with
  | some u =>
    obtain ⟨hu, rfl⟩ := Prod.mk.inj ((peek_of_current hcurrent).symm.trans h)
    exact hcurrent.trans (congrArg some (Except.ok.inj hu))
  | none =>
    rcases hscan : (s.scanPast []).2 with ⟨e | u, r⟩
    · simp [peek_of_failure hcurrent hscan] at h
    · obtain ⟨hu, rfl⟩ := Prod.mk.inj ((peek_of_token hcurrent hscan).symm.trans h)
      exact congrArg some (Except.ok.inj hu)

/-- Consuming all tokens, without the measure that bounds it. -/
private theorem readAllAfter_eq (s : Scanner τ) (made : List Token) : s.readAllAfter made =
    match s.read with
    | (_, .ok t, s') =>
      match t.isEof with
      | true => ((t :: made).reverse, none, s')
      | false => s'.readAllAfter (t :: made)
    | (_, .error e, s') => (made.reverse, some e, s') := by
  rw [readAllAfter]
  split
  · split <;> simp only [*]
  · simp only [*]

theorem readAllAfter_of_eof (h : s.read = (passed, .ok t, s')) (ht : t.isEof = true) :
    s.readAllAfter made = ((t :: made).reverse, none, s') := by
  rw [readAllAfter_eq, h]
  dsimp only
  rw [ht]

theorem readAllAfter_of_token (h : s.read = (passed, .ok t, s')) (ht : t.isEof = false) :
    s.readAllAfter made = s'.readAllAfter (t :: made) := by
  rw [readAllAfter_eq, h]
  dsimp only
  rw [ht]

theorem readAllAfter_of_failure (h : s.read = (passed, .error e, s')) :
    s.readAllAfter made = (made.reverse, some e, s') := by
  rw [readAllAfter_eq, h]

/-- Recovering from every failure, without the measure that bounds it. -/
private theorem recoverAfter_eq (s : Scanner τ) (events : List Event) : s.recoverAfter events =
    match s.read with
    | (passed, .ok t, s') =>
      match t.isEof with
      | true => ((Event.token t :: passOver passed events).reverse, s')
      | false => s'.recoverAfter (Event.token t :: passOver passed events)
    | (passed, .error e, s') =>
      match s'.skip with
      | (none, s'') => ((Event.failure e :: passOver passed events).reverse, s'')
      | (some c, s'') =>
        s''.recoverAfter (Event.skipped c s'.location :: Event.failure e :: passOver passed events) := by
  rw [recoverAfter]
  split
  · split <;> simp only [*]
  · split <;> simp only [*]

theorem recoverAfter_of_eof (h : s.read = (passed, .ok t, s')) (ht : t.isEof = true) :
    s.recoverAfter events = ((Event.token t :: passOver passed events).reverse, s') := by
  rw [recoverAfter_eq, h]
  dsimp only
  rw [ht]

theorem recoverAfter_of_token (h : s.read = (passed, .ok t, s')) (ht : t.isEof = false) :
    s.recoverAfter events = s'.recoverAfter (Event.token t :: passOver passed events) := by
  rw [recoverAfter_eq, h]
  dsimp only
  rw [ht]

theorem recoverAfter_of_stuck {s'' : Scanner τ} (h : s.read = (passed, .error e, s'))
    (hskip : s'.skip = (none, s'')) :
    s.recoverAfter events = ((Event.failure e :: passOver passed events).reverse, s'') := by
  rw [recoverAfter_eq, h]
  dsimp only
  rw [hskip]

theorem recoverAfter_of_skip {s'' : Scanner τ} {c : Char} (h : s.read = (passed, .error e, s'))
    (hskip : s'.skip = (some c, s'')) : s.recoverAfter events =
      s''.recoverAfter (Event.skipped c s'.location :: Event.failure e :: passOver passed events) := by
  rw [recoverAfter_eq, h]
  dsimp only
  rw [hskip]

theorem answerAll_cons (s : Scanner τ) (request : Request) (requests : List Request) :
    s.answerAll (request :: requests) =
      (s.answer request).1 :: (s.answer request).2.answerAll requests := rfl

end Scanner

end TableLexer
