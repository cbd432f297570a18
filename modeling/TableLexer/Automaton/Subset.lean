import TableLexer.Automaton.Run

/-! The subset construction: the deterministic automaton whose states are the sets of states that
a given automaton can be in. Its states are numbered as they are found, breadth first and with
symbols in ascending order. -/
namespace TableLexer

namespace Automaton

/-- The closures of single states that have been computed so far. -/
abbrev Closures := Array (Option StateSet)

def closureOf (a : Automaton) (known : Closures) (id : StateId) : StateSet × Closures :=
  match known[id]? with
  | some (some set) => (set, known)
  | _ =>
    let set := a.epsilonClosure (.ofList a.size [id])
    (set, known.setIfInBounds id (some set))

/-- The closure of a list of states, put together from the closures of single states. -/
def closure (a : Automaton) (known : Closures) (ids : List StateId) : StateSet × Closures :=
  ids.foldl
    (fun (set, known) id =>
      let (one, known) := a.closureOf known id
      (set.union one, known))
    (.withCapacity a.size, known)

/-- The subsets found so far in the order of their numbers, with their numbers by their words, and
the closures computed so far. -/
structure Discovery where
  subsets : Array StateSet
  numbers : Std.TreeMap (Array UInt64) StateId
  closures : Closures

/-- A step of the discovery. It fails when there are more subsets than the state limit allows. -/
abbrev Search := StateT Discovery (Except ConstructionError)

/-- The number of a subset, which is the next one if the subset is new. -/
def numberOf (a : Automaton) (set : StateSet) : Search StateId := do
  match (← get).numbers[set.words]? with
  | some id => return id
  | none =>
    let id := (← get).subsets.size
    if id ≥ a.config.stateLimit then throw (.stateLimit a.config.stateLimit)
    modify fun d => { d with
      subsets := d.subsets.push set
      numbers := d.numbers.insert set.words id }
    return id

/-- The targets of the edges that leave a set of states, for every symbol. -/
def targets (a : Automaton) (set : StateSet) : Array (List StateId) :=
  set.toList.foldl
    (fun table id => (((a.state? id).map (·.transitions)).getD []).foldl
      (fun table (s, target) => table.modify s.val (target :: ·))
      table)
    (Array.replicate 256 [])

/-- The edge of a subset on a symbol, given the targets of the edges that leave its states. -/
def edge? (a : Automaton) (table : Array (List StateId)) (s : Symbol) :
    Search (Option (Symbol × StateId)) :=
  match table.getD s.val [] with
  | [] => return none
  | ids => do
    let target ← modifyGet fun d =>
      let (target, known) := a.closure d.closures ids
      (target, { d with closures := known })
    return some (s, ← a.numberOf target)

/-- The edges of a subset: one for each symbol on which one of its states has an edge. -/
def edges (a : Automaton) (set : StateSet) : Search (List (Symbol × StateId)) :=
  let table := a.targets set
  Symbol.all.filterMapM (a.edge? table)

/-- Determines the edges of one subset after the other until no new one is found. -/
def discover (a : Automaton) :
    Nat → Array (List (Symbol × StateId)) → Search (Array (List (Symbol × StateId)))
  | 0, rows => return rows
  | fuel + 1, rows => do
    match (← get).subsets[rows.size]? with
    | none => return rows
    | some set => discover a fuel (rows.push (← a.edges set))

/-- The terminal that a subset accepts under the policy of the automaton. -/
def acceptance (a : Automaton) (set : StateSet) : Except ConstructionError (Option TerminalId) :=
  let ids := a.terminalsOf set
  match ids.min? with
  | none => .ok none
  | some first =>
    match a.config.ambiguity, (ids.filter (· ≠ first)).min? with
    | .strict, some second =>
      .error (.ambiguous ((a.terminals.name? first).getD "") ((a.terminals.name? second).getD ""))
    | _, _ => .ok (some first)

/-- The state that stands for a subset. -/
def subsetState (a : Automaton) (set : StateSet) (edges : List (Symbol × StateId)) :
    Except ConstructionError State := do
  let terminal ← a.acceptance set
  let isFinal := set.toList.any fun id => (a.state? id).any (·.isFinal)
  return { isFinal := terminal.isSome || isFinal, terminal, transitions := edges }

/-- A deterministic automaton with the terminals and the configuration of another one. -/
def frozen (a : Automaton) (states : Array State) (initial : StateId) : Automaton :=
  { a with states, initial, definitions := [], deterministic := true }

/-- The subset construction. There are at most as many subsets as the state limit allows, and one
in any case. -/
def subsetConstruction (a : Automaton) : Except ConstructionError Automaton := do
  let (start, known) := a.closure (Array.replicate a.size none) [a.initial]
  let (rows, found) ← (a.discover (max 1 a.config.stateLimit) #[]).run
    ⟨#[start], Std.TreeMap.empty.insert start.words 0, known⟩
  let states ← (found.subsets.zip rows).mapM fun (set, edges) => a.subsetState set edges
  return a.frozen states 0

/-- A deterministic automaton for the same terminals. One that is deterministic is kept. -/
def determinize (a : Automaton) : Except ConstructionError Automaton :=
  if a.deterministic then .ok a else a.subsetConstruction

end Automaton

end TableLexer
