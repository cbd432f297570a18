import TableLexer.Scanner.Progress

/-! Whole runs of a scanner: scanning to the end of the text, recovering from failures on the way,
and answering requests. -/
namespace TableLexer

namespace Scanner

variable {τ : Type} [TransitionTable τ]

/-- Consumes tokens up to the end of input or the first failure; `made` are those consumed so far,
the last one first. -/
def readAllAfter (s : Scanner τ) (made : List Token) :
    List Token × Option LexicalError × Scanner τ :=
  match h : s.read with
  | (_, .ok t, s') =>
    match ht : t.isEof with
    | true => ((t :: made).reverse, none, s')
    | false =>
      have := read_remaining_lt h ht
      readAllAfter s' (t :: made)
  | (_, .error e, s') => (made.reverse, some e, s')
termination_by s.remaining

/-- Consumes tokens up to the end of input, whose token is the last one, or the first failure. -/
def readAll (s : Scanner τ) : List Token × Option LexicalError × Scanner τ := s.readAllAfter []

/-- Consumes all tokens, the one of the end of input included. -/
def scanAll (s : Scanner τ) : Except LexicalError (List Token) × Scanner τ :=
  match s.readAll with
  | (tokens, none, s) => (.ok tokens, s)
  | (_, some e, s) => (.error e, s)

/-- What happens while a scanner runs. -/
inductive Event where
  | passed (t : Token)
  | token (t : Token)
  | failure (e : LexicalError)
  | skipped (c : Char) (location : Location)
deriving DecidableEq, Repr

/-- Events, the last one first, after which tokens have been passed over. -/
def passOver (passed : List Token) (made : List Event) : List Event :=
  (passed.map Event.passed).reverseAux made

/-- Consumes tokens up to the end of input, and one character after every failure for as long as
there is one; `made` is what has happened so far, the last event first. -/
def recoverAfter (s : Scanner τ) (made : List Event) : List Event × Scanner τ :=
  match h : s.read with
  | (passed, .ok t, s') =>
    match ht : t.isEof with
    | true => ((Event.token t :: passOver passed made).reverse, s')
    | false =>
      have := read_remaining_lt h ht
      recoverAfter s' (Event.token t :: passOver passed made)
  | (passed, .error e, s') =>
    match hs : s'.skip with
    | (none, s'') => ((Event.failure e :: passOver passed made).reverse, s'')
    | (some c, s'') =>
      have : s''.remaining < s.remaining := by
        have hle := read_remaining_le s
        rw [h] at hle
        exact Nat.lt_of_lt_of_le (skip_remaining_lt hs) hle
      recoverAfter s'' (Event.skipped c s'.location :: Event.failure e :: passOver passed made)
termination_by s.remaining

/-- Everything that happens up to the end of input, failures included. -/
def recover (s : Scanner τ) : List Event × Scanner τ := s.recoverAfter []

/-- What can be asked of a scanner. -/
inductive Request where
  | current
  | advance
  | scanAll
  | skip
  | ignore (id : TerminalId)
  | ignoreNamed (name : String)
  | isIgnored (id : TerminalId)
  | recover
deriving DecidableEq, Repr

inductive Reply where
  | token (result : Except LexicalError Token)
  | tokens (result : Except LexicalError (List Token))
  | skipped (c : Option Char)
  | accepted
  | refused (e : ScanError)
  | flag (b : Bool)
  | events (all : List Event)

/-- Answers one request. -/
def answer (s : Scanner τ) : Request → Reply × Scanner τ
  | .current => let (result, s) := s.peek; (.token result, s)
  | .advance => let (result, s) := s.advance; (.token result, s)
  | .scanAll => let (result, s) := s.scanAll; (.tokens result, s)
  | .skip => let (c, s) := s.skip; (.skipped c, s)
  | .ignore id =>
    match s.ignore id with
    | .ok s => (.accepted, s)
    | .error e => (.refused e, s)
  | .ignoreNamed name =>
    match s.ignoreNamed name with
    | .ok s => (.accepted, s)
    | .error e => (.refused e, s)
  | .isIgnored id => (.flag (s.isIgnored id), s)
  | .recover => let (events, s) := s.recover; (.events events, s)

/-- Answers requests one after the other. -/
def answerAll (s : Scanner τ) : List Request → List Reply
  | [] => []
  | r :: rest => let (reply, s) := s.answer r; reply :: s.answerAll rest

end Scanner

end TableLexer
