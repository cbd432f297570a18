import TableLexer.Scanner.Input
import TableLexer.Scanner.Token
import TableLexer.Table.Basic

/-! Longest-match scanning: each token is the longest beginning of the unread text that the table
accepts. Tokens of ignored kinds are passed over. -/
namespace TableLexer

/-- A scanner. `current` is a token that has been looked at but not consumed, and `ended` the place of
the end of input once it has been produced. -/
structure Scanner (τ : Type) where
  table : τ
  input : Input
  ignored : List TerminalId := []
  current : Option Token := none
  ended : Option Location := none
  location : Location := {}

/-- How far a table has followed a text: the characters, the state there, and, of the beginnings after
which a state accepts a terminal, the length of the longest one with that terminal. -/
structure Match where
  buffer : Array Char
  state : StateId
  accepted : Option (Nat × TerminalId)
deriving DecidableEq, Repr

namespace Match

variable {τ : Type} [TransitionTable τ]

/-- The match of nothing. What the initial state accepts does not count, so that no token is empty. -/
def empty (t : τ) : Match := ⟨#[], TransitionTable.initial t, none⟩

/-- Takes one character on. -/
def extend (t : τ) (m : Match) (c : Char) (target : StateId) : Match where
  buffer := m.buffer.push c
  state := target
  accepted :=
    match TransitionTable.accepts t target with
    | some kind => some (m.buffer.size + 1, kind)
    | none => m.accepted

/-- Follows an input for as long as there are transitions. The character that has none, if the input
does not end before, is found but put back. -/
def follow (t : τ) (m : Match) (i : Input) : Match × Option Char × Input :=
  match h : i.next? with
  | none => (m, none, i)
  | some (c, rest) =>
    match (Symbol.ofChar? c).bind (TransitionTable.next t m.state) with
    | some target =>
      have : rest.unread.length < i.unread.length := by simp [Input.unread_of_next? h]
      follow t (m.extend t c target) rest
    | none => (m, some c, rest.putBack c)
termination_by i.unread.length

/-- The beginning that has been accepted is not empty and has been followed. -/
def Sound (m : Match) : Prop := ∀ n kind, m.accepted = some (n, kind) → 0 < n ∧ n ≤ m.buffer.size

theorem sound_empty (t : τ) : (empty t).Sound := fun n kind h => by simp [empty] at h

theorem Sound.extend {m : Match} (h : m.Sound) (t : τ) (c : Char) (target : StateId) :
    (m.extend t c target).Sound := by
  intro n kind haccepted
  unfold Match.extend at haccepted ⊢
  rw [Array.size_push]
  dsimp only at haccepted
  split at haccepted
  · obtain ⟨rfl, -⟩ := Prod.mk.inj (Option.some.inj haccepted)
    omega
  · have := h n kind haccepted
    omega

/-- No character is lost or made up on the way. -/
theorem follow_text (t : τ) (m : Match) (i : Input) :
    (follow t m i).1.buffer.toList ++ (follow t m i).2.2.unread = m.buffer.toList ++ i.unread := by
  fun_induction follow t m i with
  | case1 m i h => rfl
  | case2 m i c rest h target _ _ ih => simpa [Match.extend, Input.unread_of_next? h] using ih
  | case3 m i c rest h _ => simp [Input.unread_of_next? h]

theorem follow_sound (t : τ) {m : Match} (hm : m.Sound) (i : Input) : (follow t m i).1.Sound := by
  fun_induction follow t m i with
  | case1 m i h => exact hm
  | case2 m i c rest h target _ _ ih => exact ih (hm.extend t c target)
  | case3 m i c rest h _ => exact hm

end Match

/-- What becomes of one attempt to scan a token. -/
inductive Attempt where
  | token (t : Token)
  | ended
  | failure (e : LexicalError)
deriving DecidableEq, Repr

namespace Scanner

variable {τ : Type} [TransitionTable τ]

def ofText (table : τ) (text : String) : Scanner τ := { table, input := { source := text.toList } }

/-- Discards every later token of a kind. -/
def ignore (s : Scanner τ) (id : TerminalId) : Except ScanError (Scanner τ) :=
  if id = eof then .error .eofIgnored
  else if !(TransitionTable.terminals s.table).contains id then .error (.unknownId id)
  else .ok { s with ignored := id :: s.ignored }

def ignoreNamed (s : Scanner τ) (name : String) : Except ScanError (Scanner τ) :=
  match (TransitionTable.terminals s.table).id? name with
  | some id => s.ignore id
  | none => .error (.unknownName name)

def isIgnored (s : Scanner τ) (id : TerminalId) : Bool := s.ignored.contains id

/-- A scanner for a text that ignores the given kinds. -/
def start (table : τ) (text : String) (ignored : List TerminalId) : Except ScanError (Scanner τ) :=
  ignored.foldlM ignore (ofText table text)

/-- Scans one token, ignored or not. What has been followed behind its end is put back. On a failure
what could be followed is dropped. -/
def scanOne (s : Scanner τ) : Attempt × Scanner τ :=
  match s.ended with
  | some _ => (.ended, s)
  | none =>
    let (m, found, input) := Match.follow s.table (.empty s.table) s.input
    let buffer := m.buffer.toList
    match m.accepted with
    | some (length, kind) =>
      let lexeme := buffer.take length
      (.token ⟨kind, String.ofList lexeme, s.location⟩,
        { s with input := input.putBackAll (buffer.drop length), location := s.location.afterAll lexeme })
    | none =>
      if buffer.isEmpty && found.isNone then (.ended, { s with input })
      else
        let location := s.location.afterAll buffer
        (.failure ⟨found, location, TransitionTable.expected s.table m.state⟩, { s with input, location })

theorem scanOne_unread_length_le (s : Scanner τ) :
    s.scanOne.2.input.unread.length ≤ s.input.unread.length := by
  rcases hfollow : Match.follow s.table (.empty s.table) s.input with ⟨m, found, input⟩
  have htext := congrArg List.length (Match.follow_text s.table (.empty s.table) s.input)
  rw [hfollow] at htext
  simp only [Match.empty, List.length_append, Array.length_toList, List.length_nil, Nat.zero_add] at htext
  unfold scanOne
  split
  · exact Nat.le_refl _
  · simp only [hfollow]
    split
    · simp only [Input.unread_putBackAll, List.length_append, List.length_drop, Array.length_toList]
      omega
    · split <;> simp only <;> omega

theorem scanOne_unread_length_lt {s s' : Scanner τ} {t : Token} (h : s.scanOne = (.token t, s')) :
    s'.input.unread.length < s.input.unread.length := by
  rcases hfollow : Match.follow s.table (.empty s.table) s.input with ⟨m, found, input⟩
  have htext := congrArg List.length (Match.follow_text s.table (.empty s.table) s.input)
  rw [hfollow] at htext
  simp only [Match.empty, List.length_append, Array.length_toList, List.length_nil, Nat.zero_add] at htext
  have hsound := Match.follow_sound s.table (Match.sound_empty s.table) s.input
  rw [hfollow] at hsound
  unfold scanOne at h
  split at h
  · simp at h
  · simp only [hfollow] at h
    split at h
    · next length kind haccepted =>
      obtain ⟨hpos, hle⟩ := hsound length kind haccepted
      obtain ⟨-, rfl⟩ := Prod.mk.inj h
      simp only [Input.unread_putBackAll, List.length_append, List.length_drop, Array.length_toList]
      simp only at hle
      omega
    · split at h <;> simp at h

theorem scanOne_current (s : Scanner τ) : s.scanOne.2.current = s.current := by
  unfold scanOne
  split
  · rfl
  · dsimp only
    split
    · rfl
    · split <;> rfl

/-- Scans up to the next token that is not ignored, or up to a failure. The tokens passed over are
returned too; `passed` are those that have been so far, the last one first. -/
def scanPast (s : Scanner τ) (passed : List Token) :
    List Token × Except LexicalError Token × Scanner τ :=
  match h : s.scanOne with
  | (.token t, s') =>
    if s'.isIgnored t.kind then
      have := scanOne_unread_length_lt h
      scanPast s' (t :: passed)
    else (passed.reverse, .ok t, s')
  | (.ended, s') =>
    let place := s'.ended.getD s'.location
    (passed.reverse, .ok (.ofEof place), { s' with ended := some place })
  | (.failure e, s') => (passed.reverse, .error e, s')
termination_by s.input.unread.length

/-- Consumes the next token, and returns the tokens passed over on the way to it. -/
def read (s : Scanner τ) : List Token × Except LexicalError Token × Scanner τ :=
  match s.current with
  | some t => ([], .ok t, { s with current := none })
  | none => s.scanPast []

/-- Consumes and returns the next token. -/
def advance (s : Scanner τ) : Except LexicalError Token × Scanner τ := s.read.2

/-- Returns the next token without consuming it. -/
def peek (s : Scanner τ) : Except LexicalError Token × Scanner τ :=
  match s.current with
  | some t => (.ok t, s)
  | none =>
    match (s.scanPast []).2 with
    | (.ok t, s) => (.ok t, { s with current := some t })
    | failed => failed

/-- Discards the next character that is in no token yet, and returns it. -/
def skip (s : Scanner τ) : Option Char × Scanner τ :=
  match s.ended, s.input.next? with
  | none, some (c, input) => (some c, { s with input, location := s.location.after c })
  | _, _ => (none, s)

end Scanner

end TableLexer
