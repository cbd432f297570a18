import Std.Data.TreeMap

/-! Classes of equal keys, numbered in the order in which they first occur. -/
namespace TableLexer

/-- The number of each key's class, and the number of classes. -/
def classify {κ : Type} [Ord κ] (keys : List κ) : List Nat × Nat :=
  let (numbers, known) := keys.foldl
    (fun (numbers, known) key =>
      match known.get? key with
      | some n => (n :: numbers, known)
      | none => (known.size :: numbers, known.insert key known.size))
    (([], ∅) : List Nat × Std.TreeMap κ Nat)
  (numbers.reverse, known.size)

/-- The first item of every class, given the number of each item's class. -/
def firstOfEach {α : Type} (items : List α) (numbers : List Nat) : Array α :=
  (items.zip numbers).foldl
    (fun kept (item, n) => if n = kept.size then kept.push item else kept)
    #[]

end TableLexer
