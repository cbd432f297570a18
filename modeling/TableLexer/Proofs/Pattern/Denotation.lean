import Mathlib.Computability.Language
import TableLexer.Description.Basic

/-! The languages that patterns denote. -/
namespace TableLexer

open Computability

/-- What each name stands for. -/
abbrev Meaning := String → Language Symbol

/-- The powers of a language with an exponent from `min` on that is at most `max`, if there is one. -/
def powers (L : Language Symbol) (min : Nat) (max : Option Nat) : Language Symbol :=
  fun w => ∃ n, min ≤ n ∧ (∀ m, max = some m → n ≤ m) ∧ w ∈ L ^ n

namespace Pattern

mutual

/-- The language of a pattern, given what the names in it stand for. -/
def denote (meaning : Meaning) : Pattern → Language Symbol
  | literal text => fun w => Symbol.word? text.toList = some w
  | sequence parts => (denoteAll meaning parts).prod
  | alternation parts => (denoteAll meaning parts).sum
  | oneOf ranges => fun w => ∃ s, w = [s] ∧ ∃ r ∈ ranges, r.contains s
  | noneOf ranges => fun w => ∃ s, w = [s] ∧ ∀ r ∈ ranges, ¬ r.contains s
  | star p => (denote meaning p)∗
  | plus p => denote meaning p * (denote meaning p)∗
  | optional p => denote meaning p + 1
  | defined name => meaning name
  | repeated p min max => powers (denote meaning p) min max

def denoteAll (meaning : Meaning) : List Pattern → List (Language Symbol)
  | [] => []
  | p :: rest => denote meaning p :: denoteAll meaning rest

end

section mem

variable {meaning : Meaning} {w : List Symbol} {p : Pattern} {parts : List Pattern}

theorem mem_literal {text : String} :
    w ∈ (literal text).denote meaning ↔ Symbol.word? text.toList = some w := Iff.rfl

theorem mem_noneOf {ranges : List SymbolRange} :
    w ∈ (noneOf ranges).denote meaning ↔ ∃ s, w = [s] ∧ ∀ r ∈ ranges, ¬ r.contains s := Iff.rfl

theorem mem_sequence_nil : w ∈ (sequence []).denote meaning ↔ w = [] := Language.mem_one w

theorem mem_sequence_cons : w ∈ (sequence (p :: parts)).denote meaning ↔
    ∃ u ∈ p.denote meaning, ∃ v ∈ (sequence parts).denote meaning, u ++ v = w := by
  show w ∈ (p.denote meaning :: denoteAll meaning parts).prod ↔ _
  rw [List.prod_cons, Language.mem_mul]
  rfl

end mem

/-- Patterns whose fragment has an entry to which no edge leads and an exit that none leaves. -/
def isOpen : Pattern → Bool
  | literal _ | oneOf _ | noneOf _ | alternation _ => true
  | _ => false

mutual

/-- Only open patterns are made optional. -/
def optionsOpen : Pattern → Bool
  | optional p => p.isOpen && optionsOpen p
  | sequence parts | alternation parts => allOptionsOpen parts
  | star p | plus p | repeated p _ _ => optionsOpen p
  | literal _ | oneOf _ | noneOf _ | defined _ => true

def allOptionsOpen : List Pattern → Bool
  | [] => true
  | p :: rest => optionsOpen p && allOptionsOpen rest

end

end Pattern

namespace Description

/-- What names stand for after some definitions, each of which may use those before it. -/
def meaningAfter (meaning : Meaning) : List (String × Pattern) → Meaning
  | [] => meaning
  | (name, p) :: rest => meaningAfter (Function.update meaning name (p.denote meaning)) rest

/-- What the names of a description stand for. -/
def meaning (d : Description) : Meaning := meaningAfter (fun _ => 0) d.definitions

/-- The terminal at a position, which counts from one, accepts a word. -/
def Denotes (d : Description) (i : Nat) (w : List Symbol) : Prop :=
  ∃ j name p, i = j + 1 ∧ d.terminals[j]? = some (name, p) ∧ w ∈ p.denote d.meaning

end Description

end TableLexer
