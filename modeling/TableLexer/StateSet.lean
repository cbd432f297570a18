/-! Sets of state ids, kept as 64-bit words. -/
namespace TableLexer

/-- A set of ids below a fixed capacity. Bit `b` of word `w` stands for the id `64 * w + b`. -/
structure StateSet where
  words : Array UInt64
  capacity : Nat
deriving DecidableEq, Repr

namespace StateSet

/-- The empty set of ids below `capacity`. -/
def withCapacity (capacity : Nat) : StateSet :=
  ⟨Array.replicate ((capacity + 63) / 64) 0, capacity⟩

def mask (id : Nat) : UInt64 := 1 <<< UInt64.ofNat (id % 64)

/-- Whether the bit of an id is set, whatever the capacity. -/
def bit (set : StateSet) (id : Nat) : Bool :=
  match set.words[id / 64]? with
  | some word => word &&& mask id != 0
  | none => false

def contains (set : StateSet) (id : Nat) : Bool := id < set.capacity && set.bit id

/-- Adds an id; ids that are not below the capacity have no place in the set. -/
def insert (set : StateSet) (id : Nat) : StateSet :=
  if id < set.capacity then
    { set with words := set.words.modify (id / 64) (· ||| mask id) }
  else set

/-- Adds an id and tells whether it is new; `none` if it is not below the capacity. -/
def insert? (set : StateSet) (id : Nat) : Option (Bool × StateSet) :=
  if id < set.capacity then some (!set.bit id, set.insert id) else none

/-- Adds the words of another set to those that this set has. -/
def union (set other : StateSet) : StateSet :=
  { set with words := set.words.mapIdx fun i word => word ||| other.words.getD i 0 }

def isEmpty (set : StateSet) : Bool := set.words.all (· == 0)

/-- The position of the lowest bit of a word that is not zero. -/
def lowestBit (word : UInt64) : Nat := (word &&& (0 - word)).toNat.log2

/-- How far a walk through the ids of a set has come: the number of a word, what is left of it, and the
words behind it. -/
structure Cursor where
  index : Nat
  left : UInt64
  later : List UInt64

namespace Cursor

/-- The next id, and the rest of the walk. Words of which nothing is left are passed over; of another
one, the lowest bit is taken off. -/
def seek (index : Nat) (left : UInt64) (later : List UInt64) : Option (Nat × Cursor) :=
  if left ≠ 0 then some (64 * index + lowestBit left, ⟨index, left &&& (left - 1), later⟩)
  else
    match later with
    | [] => none
    | word :: later => seek (index + 1) word later

def next? (c : Cursor) : Option (Nat × Cursor) := seek c.index c.left c.later

/-- Takes one id after the other, as many as there is fuel for, and puts them before those that have
been taken. -/
def collect : Nat → Cursor → List Nat → List Nat
  | 0, _, taken => taken
  | fuel + 1, c, taken =>
    match c.next? with
    | none => taken
    | some (id, c) => collect fuel c (id :: taken)

end Cursor

/-- The walk that starts with the first word. -/
def cursor (set : StateSet) : Cursor := ⟨0, set.words.getD 0 0, set.words.toList.tail⟩

/-- The ids of a set, in ascending order. There are at most 64 in a word. -/
def toList (set : StateSet) : List Nat := (set.cursor.collect (64 * set.words.size) []).reverse

/-- The number of bits that are set in the words. -/
def size (set : StateSet) : Nat := set.words.foldl (fun n word => n + word.toBitVec.cpop.toNat) 0

def ofList (capacity : Nat) (ids : List Nat) : StateSet :=
  ids.foldl insert (withCapacity capacity)

/-- The ids between braces, in ascending order. -/
def shown (set : StateSet) : String :=
  "\x7b" ++ ", ".intercalate (set.toList.map toString) ++ "\x7d"

end StateSet

end TableLexer
