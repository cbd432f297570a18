import TableLexer.Automaton.Copy
import TableLexer.SymbolRange

/-! The operations of regular expressions on fragments. -/
namespace TableLexer

namespace Builder

/-- Adds an entry and an exit. -/
def fragment : Builder Fragment := do
  ensureMutable
  return ⟨← newState, ← newState⟩

/-- A fragment for the empty word. -/
def epsilon : Builder Fragment := do
  let f ← fragment
  addEpsilon f.entry f.exit
  return f

def literal (s : Symbol) : Builder Fragment := do
  let f ← fragment
  addTransition f.entry s f.exit
  return f

/-- Adds a chain of states that spells the given characters, and returns its end. -/
def spell : StateId → List Char → Builder StateId
  | last, [] => pure last
  | last, c :: rest =>
    match Symbol.ofChar? c with
    | none => throw (.outsideAlphabet c)
    | some s => do
      let next ← newState
      addTransition last s next
      spell next rest

/-- A fragment for one text. -/
def string (text : String) : Builder Fragment :=
  if text.isEmpty then epsilon
  else do
    ensureMutable
    let entry ← newState
    return ⟨entry, ← spell entry text.toList⟩

/-- A fragment for the words of one symbol, out of the given symbols. -/
def symbols (chosen : List Symbol) : Builder Fragment := do
  let f ← fragment
  chosen.forM fun s => addTransition f.entry s f.exit
  return f

/-- A fragment for any symbol in one of the ranges. -/
def oneOf (ranges : List SymbolRange) : Builder Fragment :=
  symbols (ranges.flatMap (·.symbols))

/-- A fragment for any symbol in none of the ranges. -/
def noneOf (ranges : List SymbolRange) : Builder Fragment :=
  symbols (Symbol.all.filter fun s => !ranges.any (·.contains s))

def any : Builder Fragment := noneOf []

def append (a b : Fragment) : Builder Fragment := do
  check a
  check b
  addEpsilon a.exit b.entry
  return ⟨a.entry, b.exit⟩

/-- Appends fragments in order. Of no fragments it makes one for the empty word. -/
def sequence : List Fragment → Builder Fragment
  | [] => epsilon
  | first :: rest => rest.foldlM append first

/-- A fragment for the words of any of the given ones. -/
def alternate (parts : List Fragment) : Builder Fragment := do
  if parts.isEmpty then throw .emptyAlternation
  parts.forM check
  let f ← fragment
  parts.forM fun part => do
    addEpsilon f.entry part.entry
    addEpsilon part.exit f.exit
  return f

/-- Lets a fragment be passed by, in place. -/
def optional (a : Fragment) : Builder Fragment := do
  check a
  addEpsilon a.entry a.exit
  return a

def star (a : Fragment) : Builder Fragment := do
  check a
  let f ← fragment
  addEpsilon f.entry f.exit
  addEpsilon f.entry a.entry
  addEpsilon a.exit f.exit
  addEpsilon f.exit f.entry
  return f

def plus (a : Fragment) : Builder Fragment := do
  check a
  ensureMutable
  let entry ← newState
  addEpsilon entry a.entry
  addEpsilon a.exit entry
  return ⟨entry, a.exit⟩

/-- Makes `n` copies of a fragment, in order after those that are `made` already, of which the
newest comes first. -/
def copies (a : Fragment) : (n : Nat) → (made : List Fragment) → Builder (List Fragment)
  | 0, made => pure made
  | n + 1, made => do copies a n ((← copy a) :: made)

/-- Appends `n` copies of a fragment to `last`, each of which may be left for `exit` before it
starts. -/
def optionalCopies (a : Fragment) (exit : StateId) : (n : Nat) → (last : StateId) → Builder StateId
  | 0, last => pure last
  | n + 1, last => do
    let part ← copy a
    addEpsilon last exit
    addEpsilon last part.entry
    optionalCopies a exit n part.exit

/-- A fragment for up to `n` repetitions. -/
def upTo (a : Fragment) (n : Nat) : Builder Fragment := do
  let f ← fragment
  addEpsilon (← optionalCopies a f.exit n f.entry) f.exit
  return f

/-- Puts the copies made for the required repetitions, of which the newest comes first, before what
allows for more of them. -/
def withMore (a : Fragment) (min : Nat) (max : Option Nat) (required : List Fragment) :
    Builder Fragment := do
  match max with
  | none => sequence ((← star (← copy a)) :: required).reverse
  | some max =>
    if max > min then sequence ((← upTo a (max - min)) :: required).reverse
    else sequence required.reverse

/-- A fragment for at least `min` and at most `max` repetitions, each of them a copy of its own.
Every copy takes a state, so no more than the state limit are tried. -/
def repeated (a : Fragment) (min : Nat) (max : Option Nat) : Builder Fragment := do
  check a
  if let some max := max then
    if min > max then throw (.invalidRepetition min max)
  let limit := (← get).config.stateLimit
  if min ≥ limit then throw (.stateLimit limit)
  withMore a min max (← copies a min [])

/-- A copy of what is defined under a name. -/
def instantiate (name : String) : Builder Fragment := do
  match (← get).definitions.lookup name with
  | some f => copy f
  | none => throw (.undefined name)

end Builder

end TableLexer
