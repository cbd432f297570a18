import TableLexer.Regex.Glyph

/-! Groups of a regular expression while they are read, and the flags that hold in them. -/
namespace TableLexer.Regex

/-- How a part of an expression is meant. -/
structure Flags where
  /-- Whether letters stand also for those that differ from them in case only. -/
  anyCase : Bool := false
  /-- Whether the signs of the ends of the text stand for those of its lines. -/
  manyLines : Bool := false
  /-- Whether the dot stands also for the line feed. -/
  dotAll : Bool := false
deriving DecidableEq, Repr, Inhabited

namespace Flags

/-- Sets the flag that a letter stands for. Which repetitions are lazy does not matter, and
characters are always those of Unicode. -/
def set? (flags : Flags) (value : Bool) : Char → Option Flags
  | 'i' => some { flags with anyCase := value }
  | 'm' => some { flags with manyLines := value }
  | 's' => some { flags with dotAll := value }
  | 'U' => some flags
  | 'u' => if value then some flags else none
  | 'x' | 'R' => if value then none else some flags
  | _ => none

/-- Sets the flags of some letters, and unsets those behind a dash. No letter stands twice. -/
def change? (flags : Flags) (letters : List Char) : Option Flags := do
  let on := letters.takeWhile (· ≠ '-')
  let off := letters.drop (on.length + 1)
  if letters.getLast? = some '-' || !decide (on ++ off).Nodup then none
  off.foldlM (·.set? false ·) (← on.foldlM (·.set? true ·) flags)

/-- What the flags make of a set of characters. -/
def cased (flags : Flags) (set : CharSet) : CharSet := if flags.anyCase then .anyCase set else set

def textStart (flags : Flags) : Look := if flags.manyLines then .lineStart else .textStart

def textEnd (flags : Flags) : Look := if flags.manyLines then .lineEnd else .textEnd

def dot (flags : Flags) : CharSet := if flags.dotAll then .all else .inLine

end Flags

/-- A group that has been read in part: its finished alternatives and the parts of the unfinished
one. In both, the last one comes first. -/
structure Group where
  flags : Flags := {}
  alternatives : List (Nested Regex) := []
  parts : List (Nested Regex) := []
  /-- Whether the last part is one that can be repeated. -/
  repeatable : Bool := false

namespace Group

def push (g : Group) (r : Nested Regex) : Group :=
  { g with parts := r :: g.parts, repeatable := true }

/-- Sets the flags for the rest of the group. It counts as a part that matches nothing. -/
def setFlags (g : Group) (flags : Flags) : Group :=
  { g with flags, parts := ⟨.empty, 0⟩ :: g.parts, repeatable := false }

/-- The parts of the unfinished alternative as one. -/
def sequence (g : Group) : Nested Regex :=
  match g.parts with
  | [] => ⟨.empty, 0⟩
  | [r] => r
  | last :: parts =>
    ⟨parts.foldl (fun rest r => .both r.value rest) last.value, Nested.greatestHeight g.parts + 1⟩

/-- Ends an alternative. -/
def endAlternative (g : Group) : Group :=
  { flags := g.flags, alternatives := g.sequence :: g.alternatives }

/-- The whole group. -/
def close (g : Group) : Nested Regex :=
  match g.alternatives with
  | [] => g.sequence
  | alternatives =>
    ⟨alternatives.foldl (fun rest r => .either r.value rest) g.sequence.value,
      Nested.greatestHeight (g.sequence :: alternatives) + 1⟩

/-- Makes a closed group a part of the one around it. -/
def pushGroup (g inner : Group) : Group :=
  let r := inner.close
  g.push { r with height := r.height + 1 }

/-- Makes the last part, if it can be repeated, a repetition of itself. -/
def repeatLast? (g : Group) (repeated : Regex → Regex) : Option Group :=
  match g.parts with
  | r :: parts =>
    if g.repeatable then some { g with parts := ⟨repeated r.value, r.height + 1⟩ :: parts } else none
  | [] => none

end Group

end TableLexer.Regex
