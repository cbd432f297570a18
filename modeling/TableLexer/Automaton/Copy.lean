import TableLexer.Automaton.Basic
import TableLexer.Reachable

/-! Structural copies of fragments. -/
namespace TableLexer

namespace Automaton

def successorsOf (a : Automaton) (id : StateId) : List StateId :=
  ((a.state? id).map (·.successors)).getD []

/-- For every target of an edge from the given states, the sources of these edges. -/
def sourcesOf (a : Automaton) (ids : List StateId) : Std.TreeMap StateId (List StateId) :=
  ids.foldl
    (fun sources id => (a.successorsOf id).foldl
      (fun sources target => sources.insert target (id :: sources.getD target []))
      sources)
    ∅

/-- The states of a fragment in ascending order: its entry, its exit and the states on the paths
from one to the other that do not come back to the entry. -/
def members (a : Automaton) (f : Fragment) : List StateId :=
  let sources := a.sourcesOf (reachable a.successorsOf a.size [f.entry])
  let back (id : StateId) := if id = f.entry ∧ id ≠ f.exit then [] else sources.getD id []
  State.insertTarget f.entry (reachable back a.size [f.exit])

end Automaton

namespace Builder

/-- Adds a state for each of the given ids, and pairs every id with its new state. -/
def duplicate : List StateId → List (StateId × StateId) → Builder (List (StateId × StateId))
  | [], made => pure made.reverse
  | id :: rest, made => do duplicate rest ((id, ← newState) :: made)

/-- Lets every new state behave within the new states as the one it stands for. -/
def fillIn (pairs : List (StateId × StateId)) (a : Automaton) : Automaton :=
  let names := Std.TreeMap.ofList pairs
  pairs.foldl
    (fun a (old, new) =>
      match a.state? old with
      | some q => a.modifyState new fun _ => q.restricted names.get?
      | none => a)
    a

/-- Copies a fragment: its states, and the edges and the acceptance within them. Edges that lead
out of it are dropped. -/
def copy (f : Fragment) : Builder Fragment := do
  check f
  ensureMutable
  let pairs ← duplicate ((← get).members f) []
  modify (fillIn pairs)
  return ⟨(pairs.lookup f.entry).getD f.entry, (pairs.lookup f.exit).getD f.exit⟩

end Builder

end TableLexer
