import TableLexer.Automaton.Subset
import TableLexer.FirstOccurrence

/-! Merging the states of a deterministic automaton that no word can tell apart. -/
namespace TableLexer

namespace Automaton

/-- The symbols on which some state has an edge, in ascending order. -/
def usedSymbols (a : Automaton) : List Symbol :=
  let used := a.states.foldl
    (fun used q => q.transitions.foldl (fun used (s, _) => used.set! s.val true) used)
    (Array.replicate 256 false)
  Symbol.all.filter fun s => used.getD s.val false

/-- What tells a state apart at first: whether it is final, and the terminal it accepts. -/
def acceptanceKey (q : State) : List (Option Nat) := [some q.isFinal.toNat, q.terminal]

/-- What tells a state apart given blocks: its own block, and the blocks of the targets of its
edges. -/
def blockKey (blockOf : Array Nat) (block : Nat) (targets : List (Option StateId)) :
    List (Option Nat) :=
  some block :: targets.map fun target => target.map (blockOf.getD · 0)

/-- Splits blocks until a round leaves their number unchanged. Every other round adds a block, so
as many rounds as there are states suffice. -/
def refine (targets : List (List (Option StateId))) : Nat → List Nat → Nat → List Nat
  | 0, blocks, _ => blocks
  | fuel + 1, blocks, count =>
    let (finer, finerCount) := classify (blocks.zipWith (blockKey blocks.toArray) targets)
    if finerCount = count then finer else refine targets fuel finer finerCount

/-- The smallest deterministic automaton for the same terminals. Its states are the first states of
the blocks. -/
def minimize (a : Automaton) : Except ConstructionError Automaton := do
  let dfa ← a.determinize
  let states := dfa.states.toList
  let symbols := dfa.usedSymbols
  let (blocks, count) := classify (states.map acceptanceKey)
  let blocks := refine (states.map fun q => symbols.map q.transition) states.length blocks count
  let blockOf := blocks.toArray
  let kept := (firstOfEach states blocks).map (·.renamed (blockOf.getD · 0))
  return dfa.frozen kept (blockOf.getD dfa.initial 0)

end Automaton

end TableLexer
