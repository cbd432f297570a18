import TableLexer.Text.CaseFold
import TableLexer.Text.CharProperty

/-! Sets of characters, as regular expressions name and combine them. -/
namespace TableLexer

/-- A set of characters, made of ranges of code points. -/
inductive CharSet where
  | ranges (ranges : List (Nat × Nat))
  /-- The characters that differ from one of a set in case only. -/
  | anyCase (set : CharSet)
  | compl (set : CharSet)
  | union (first second : CharSet)
  | inter (first second : CharSet)
  | diff (first second : CharSet)
  | symmDiff (first second : CharSet)
deriving DecidableEq, Repr, Inhabited

namespace CharSet

def contains : CharSet → Char → Bool
  | ranges rs, c => Text.inRanges rs c
  | anyCase s, c => (Text.caseVariants c).any s.contains
  | compl s, c => !s.contains c
  | union s t, c => s.contains c || t.contains c
  | inter s t, c => s.contains c && t.contains c
  | diff s t, c => s.contains c && !t.contains c
  | symmDiff s t, c => s.contains c != t.contains c

def single (c : Char) : CharSet := ranges [(c.toNat, c.toNat)]

/-- The digits of all scripts. As in all classes of regular expressions, recent characters are left
out. -/
def digit : CharSet := diff (ranges Text.digitRanges) (ranges Text.recentRanges)

def blank : CharSet := ranges Text.blankRanges

/-- The characters of words: letters, digits, marks, connectors and joiners. -/
def word : CharSet :=
  diff (union (ranges Text.letterRanges) (union (ranges Text.digitRanges) (ranges Text.markRanges)))
    (ranges Text.recentRanges)

/-- All characters. -/
def all : CharSet := compl (ranges [])

/-- All characters but the line feed. -/
def inLine : CharSet := compl (single '\n')

end CharSet

end TableLexer
