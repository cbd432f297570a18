/-! Work that reports on its progress: it keeps a journal even of what happens before a failure. -/
namespace TableLexer

/-- An entry of the journal. -/
inductive Notice where
  | classText (text : String)
  | parsed (definitions terminals ignored : Nat)
  | terminal (name : String) (id states : Nat)
  | determinized (before after : Nat)
  | minimized (before after : Nat)
  | compiled (states : Nat)
  | compressed (before after states : Nat)
deriving DecidableEq, Repr

/-- Work that can fail with an `ε`. The journal has the last entry first. -/
abbrev Journaled (ε : Type) := ExceptT ε (StateM (List Notice))

namespace Journaled

variable {ε ε' α : Type}

def note (n : Notice) : Journaled ε Unit := modify (n :: ·)

/-- The outcome of some work, and its journal in order. -/
def outcome (work : Journaled ε α) : Except ε α × List Notice :=
  let (result, journal) := work.run.run []
  (result, journal.reverse)

def result (work : Journaled ε α) : Except ε α := work.outcome.1

/-- Changes the kind of failure. -/
def withFailure (f : ε → ε') (work : Journaled ε α) : Journaled ε' α :=
  ExceptT.mk do return (← work.run).mapError f

/-- Does what needs no journal. -/
def ofExcept (f : ε' → ε) (result : Except ε' α) : Journaled ε α := ExceptT.mk (pure (result.mapError f))

end Journaled

end TableLexer
