import Std.Data.TreeSet

/-! The nodes of a finite graph that can be reached from given ones. -/
namespace TableLexer

/-- Adds the successors that are not yet seen to what is seen and to what is to be visited. -/
def visit (work : List Nat × Std.TreeSet Nat) (node : Nat) : List Nat × Std.TreeSet Nat :=
  if work.2.contains node then work else (node :: work.1, work.2.insert node)

/-- Visits `pending` nodes and all that follow from them, each at most once. Every visit takes one
unit of fuel. -/
def explore (next : Nat → List Nat) :
    Nat → List Nat → Std.TreeSet Nat → Std.TreeSet Nat
  | 0, _, seen => seen
  | _ + 1, [], seen => seen
  | fuel + 1, node :: pending, seen =>
    let (pending, seen) := (next node).foldl visit (pending, seen)
    explore next fuel pending seen

/-- The nodes that can be reached from `starts` in a graph of `size` nodes, in ascending order.
No node is visited twice, so `size` visits suffice. -/
def reachable (next : Nat → List Nat) (size : Nat) (starts : List Nat) : List Nat :=
  let (pending, seen) := starts.foldl visit ([], ∅)
  (explore next size pending seen).toList

end TableLexer
