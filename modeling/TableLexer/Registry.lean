/-! Terminals, the kinds of tokens that a lexer tells apart, and the registry of their names. -/
namespace TableLexer

abbrev TerminalId := Nat

/-- The terminal of the end of input. -/
def eof : TerminalId := 0

def eofName : String := "EOF"

/-- The names of all terminals. The id of a terminal is its position. -/
structure Registry where
  names : List String
deriving DecidableEq, Repr, Inhabited

namespace Registry

/-- The registry that knows the end of input only. -/
def initial : Registry := ⟨[eofName]⟩

def size (r : Registry) : Nat := r.names.length

def contains (r : Registry) (id : TerminalId) : Bool := id < r.size

def name? (r : Registry) (id : TerminalId) : Option String := r.names[id]?

/-- The last position of a name in a list. -/
def lastIndex? (name : String) : List String → Option Nat
  | [] => none
  | n :: rest =>
    match lastIndex? name rest with
    | some i => some (i + 1)
    | none => if n = name then some 0 else none

/-- The id of a name. Of a name listed twice, the last id counts. -/
def id? (r : Registry) (name : String) : Option TerminalId := lastIndex? name r.names

/-- The id of a name, which is registered first if it is not yet known. -/
def encode (r : Registry) (name : String) : TerminalId × Registry :=
  match r.id? name with
  | some id => (id, r)
  | none => (r.size, ⟨r.names ++ [name]⟩)

/-- The ids with their names, in order. -/
def entries (r : Registry) : List (TerminalId × String) :=
  r.names.zipIdx.map fun (name, id) => (id, name)

end Registry

/-- The message of a failed look-up by name. -/
def unknownTerminalMessage (name : String) : String := s!"Unknown terminal '{name}'"

end TableLexer
