import TableLexer.Symbol

/-! Inclusive ranges of symbols, and the shortest way to write a set of symbols as ranges. -/
namespace TableLexer

/-- The symbols from `first` to `last`; none if `last` is below `first`. -/
structure SymbolRange where
  first : Symbol
  last : Symbol
deriving DecidableEq, Repr, Inhabited

namespace SymbolRange

def single (s : Symbol) : SymbolRange := ⟨s, s⟩

def isEmpty (r : SymbolRange) : Bool := r.last < r.first

def contains (r : SymbolRange) (s : Symbol) : Bool := r.first ≤ s && s ≤ r.last

/-- The symbols of a range, in ascending order. -/
def symbols (r : SymbolRange) : List Symbol := Symbol.all.filter r.contains

/-- The text of a range in diagnostics, such as `'a'` or `'0'-'9'`. -/
def shown (r : SymbolRange) : String :=
  if r.first = r.last then s!"'{r.first.escaped}'"
  else s!"'{r.first.escaped}'-'{r.last.escaped}'"

/-- Each of the symbols once, in ascending order. -/
def sorted (symbols : List Symbol) : List Symbol := (symbols.mergeSort (· ≤ ·)).eraseReps

/-- Ranges, the last one first, with a symbol behind them: the last range grows if the symbol is next to it. -/
def extend : List SymbolRange → Symbol → List SymbolRange
  | [], s => [single s]
  | r :: earlier, s =>
    if r.last.val + 1 = s.val then { r with last := s } :: earlier else single s :: r :: earlier

/-- The fewest ranges that cover exactly the given symbols, in ascending order. -/
def collapse (symbols : List Symbol) : List SymbolRange := ((sorted symbols).foldl extend []).reverse

/-- The text of a set of symbols in diagnostics, such as `'0'-'9', 'a'`. -/
def describe (symbols : List Symbol) : String :=
  ", ".intercalate ((collapse symbols).map shown)

end SymbolRange

end TableLexer
