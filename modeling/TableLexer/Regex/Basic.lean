import Std.Data.TreeSet
import TableLexer.Regex.CharSet

/-! Regular expressions for names, and where in a text they match. -/
namespace TableLexer

/-- What a position in a text can be next to. -/
inductive Look where
  | textStart
  | textEnd
  | lineStart
  | lineEnd
  | wordEdge
  | noWordEdge
  | wordStart
  | wordEnd
  | noWordBefore
  | noWordAfter
deriving DecidableEq, Repr, Inhabited

/-- Whether a position is next to what is looked for. -/
def Look.holds (text : Array Char) (i : Nat) (look : Look) : Bool :=
  let before := if i = 0 then none else text[i - 1]?
  let after := text[i]?
  let wordBefore := before.any CharSet.word.contains
  let wordAfter := after.any CharSet.word.contains
  match look with
  | textStart => before.isNone
  | textEnd => after.isNone
  | lineStart => before.all (· == '\n')
  | lineEnd => after.all (· == '\n')
  | wordEdge => wordBefore != wordAfter
  | noWordEdge => wordBefore == wordAfter
  | wordStart => !wordBefore && wordAfter
  | wordEnd => wordBefore && !wordAfter
  | noWordBefore => !wordBefore
  | noWordAfter => !wordAfter

inductive Regex where
  | empty
  | look (look : Look)
  | oneOf (set : CharSet)
  | both (first second : Regex)
  | either (first second : Regex)
  | many (r : Regex)
deriving DecidableEq, Repr, Inhabited

namespace Regex

/-- Positions in a text. -/
abbrev Positions := Std.TreeSet Nat

/-- The `seen` positions and those that steps from `pending` ones reach. Every round but the last one
reaches a new position, so there are no more rounds than positions. -/
def spread (step : Positions → Positions) : Nat → (pending seen : Positions) → Positions
  | 0, _, seen => seen
  | rounds + 1, pending, seen =>
    if pending.isEmpty then seen
    else
      let pending := (step pending).filter (!seen.contains ·)
      spread step rounds pending (seen ∪ pending)

/-- The positions of a text at which a match can end that starts at one of the given positions. -/
def ends (text : Array Char) : Regex → Positions → Positions
  | empty, starts => starts
  | look l, starts => starts.filter fun i => l.holds text i
  | oneOf set, starts =>
    .ofList ((starts.toList.filter fun i => text[i]?.any set.contains).map (· + 1))
  | both r s, starts => ends text s (ends text r starts)
  | either r s, starts => ends text r starts ∪ ends text s starts
  | many r, starts => spread (ends text r) (text.size + 1) starts starts

/-- From `least` to `most` matches in a row, or more if `most` is none. -/
def repeated (r : Regex) (least : Nat) (most : Option Nat) : Regex :=
  let tail := match most with
    | none => many r
    | some most =>
      (List.replicate (most - least) r).foldr (fun r rest => either empty (both r rest)) empty
  (List.replicate least r).foldr both tail

/-- Whether some part of a text matches. -/
def matchesIn (r : Regex) (text : String) : Bool :=
  let text := text.toList.toArray
  !(ends text r (.ofList (List.range (text.size + 1)))).isEmpty

end Regex

end TableLexer
