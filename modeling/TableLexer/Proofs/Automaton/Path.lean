import Mathlib.Logic.Relation
import TableLexer.Automaton.Run

/-! Paths through labelled graphs and the words that they spell. -/
namespace TableLexer

/-- A graph of states. Its edges carry a symbol or, as epsilon edges do, none. -/
abbrev Graph := StateId → Option Symbol → StateId → Prop

/-- The edges of `E` lead from one state to another, and their labels spell a word. -/
inductive Path (E : Graph) : StateId → List Symbol → StateId → Prop where
  | refl (p : StateId) : Path E p [] p
  | step {p q r : StateId} {l : Option Symbol} {w : List Symbol}
      (edge : E p l q) (rest : Path E q w r) : Path E p (l.toList ++ w) r

/-- The edges that do not lead back to an entry. -/
def Graph.onward (E : Graph) (entry : StateId) : Graph := fun p l q => q ≠ entry ∧ E p l q

namespace Path

variable {E E' : Graph} {p q r : StateId} {u v w : List Symbol} {s : Symbol}

theorem single {l : Option Symbol} (edge : E p l q) : Path E p l.toList q := by
  simpa using Path.step edge (.refl q)

theorem silent (edge : E p none q) (rest : Path E q w r) : Path E p w r := .step edge rest

theorem symbol (edge : E p (some s) q) (rest : Path E q w r) : Path E p (s :: w) r := .step edge rest

theorem trans (h : Path E p u q) (h' : Path E q v r) : Path E p (u ++ v) r := by
  induction h with
  | refl _ => exact h'
  | step edge _ ih => simpa using Path.step edge (ih h')

theorem mono (hE : ∀ p l q, E p l q → E' p l q) (h : Path E p w q) : Path E' p w q := by
  induction h with
  | refl p => exact .refl p
  | step edge _ ih => exact .step (hE _ _ _ edge) ih

theorem split (h : Path E p (u ++ v) r) : ∃ q, Path E p u q ∧ Path E q v r := by
  generalize hw : u ++ v = w at h
  induction h generalizing u with
  | refl p =>
    obtain ⟨rfl, rfl⟩ := List.append_eq_nil_iff.1 hw
    exact ⟨p, .refl p, .refl p⟩
  | @step p q r l w edge rest ih =>
    cases l with
    | none =>
      obtain ⟨m, hu, hv⟩ := ih hw
      exact ⟨m, .silent edge hu, hv⟩
    | some s =>
      cases u with
      | nil =>
        obtain rfl : v = s :: w := hw
        exact ⟨p, .refl p, .step edge rest⟩
      | cons t u =>
        obtain ⟨rfl, htail⟩ := List.cons.inj (show t :: (u ++ v) = s :: w from hw)
        obtain ⟨m, hu, hv⟩ := ih htail
        exact ⟨m, .symbol edge hu, hv⟩

theorem nil_iff : Path E p [] q ↔ Relation.ReflTransGen (fun p q => E p none q) p q := by
  constructor
  · intro h
    generalize hw : [] = w at h
    induction h with
    | refl _ => exact .refl
    | @step p q r l w edge _ ih =>
      obtain ⟨hl, rfl⟩ := List.append_eq_nil_iff.1 hw.symm
      cases l with
      | none => exact .head edge (ih rfl)
      | some s => simp at hl
  · intro h
    induction h using Relation.ReflTransGen.head_induction_on with
    | refl => exact .refl _
    | head edge _ ih => exact .silent edge ih

theorem exists_iff :
    (∃ w, Path E p w q) ↔ Relation.ReflTransGen (fun p q => ∃ l, E p l q) p q := by
  constructor
  · intro hresult
    obtain ⟨w, h⟩ := hresult
    induction h with
    | refl _ => exact .refl
    | step edge _ ih => exact .head ⟨_, edge⟩ ih
  · intro h
    induction h using Relation.ReflTransGen.head_induction_on with
    | refl => exact ⟨[], .refl _⟩
    | head edge _ ih =>
      obtain ⟨l, edge⟩ := edge
      obtain ⟨w, hw⟩ := ih
      exact ⟨_, .step edge hw⟩

/-- The first symbol of a word is spelled by one edge, after epsilon edges. -/
theorem cons_iff : Path E p (s :: w) q ↔
    ∃ m m', Path E p [] m ∧ E m (some s) m' ∧ Path E m' w q := by
  constructor
  · intro h
    generalize ht : s :: w = t at h
    induction h with
    | refl _ => simp at ht
    | @step p p' q l t edge rest ih =>
      cases l with
      | none =>
        obtain ⟨m, m', hm, hs, hw⟩ := ih ht
        exact ⟨m, m', .silent edge hm, hs, hw⟩
      | some s' =>
        obtain ⟨rfl, rfl⟩ := List.cons.inj (show s :: w = s' :: t from ht)
        exact ⟨p, p', .refl p, edge, rest⟩
  · intro hedge
    obtain ⟨m, m', hm, edge, hw⟩ := hedge
    exact hm.trans (.symbol edge hw)

/-- The last symbol of a word is spelled by one edge, before epsilon edges. -/
theorem concat_iff : Path E p (w ++ [s]) q ↔
    ∃ m m', Path E p w m ∧ E m (some s) m' ∧ Path E m' [] q := by
  constructor
  · intro h
    obtain ⟨m, hw, hs⟩ := h.split
    obtain ⟨m', m'', hm, edge, hq⟩ := cons_iff.1 hs
    exact ⟨m', m'', by simpa using hw.trans hm, edge, hq⟩
  · intro hedge
    obtain ⟨m, m', hw, edge, hq⟩ := hedge
    exact hw.trans (.symbol edge hq)

/-- In a set of states that no edge leaves, and in which two graphs have the same edges, a path of
one is a path of the other and ends in the set. -/
theorem transport {S : Set StateId} (hclosed : ∀ p ∈ S, ∀ l q, E p l q → q ∈ S ∧ E' p l q)
    (hp : p ∈ S) (h : Path E p w q) : q ∈ S ∧ Path E' p w q := by
  induction h with
  | refl p => exact ⟨hp, .refl p⟩
  | step edge _ ih =>
    obtain ⟨hq, edge'⟩ := hclosed _ hp _ _ edge
    exact ⟨(ih hq).1, .step edge' (ih hq).2⟩

/-- The paths from a set of states that no edge leaves, found in another graph under other names. -/
theorem rename_iff {S : Set StateId} {rename : StateId → StateId} (hclosed : ∀ p ∈ S, ∀ l q, E p l q → q ∈ S)
    (hedge : ∀ p ∈ S, ∀ l q, E' (rename p) l q ↔ ∃ m, E p l m ∧ rename m = q) (hp : p ∈ S) :
    Path E' (rename p) w q ↔ ∃ m, Path E p w m ∧ rename m = q := by
  constructor
  · intro hpath
    generalize hstart : rename p = p' at hpath
    induction hpath generalizing p with
    | refl _ => exact ⟨p, .refl p, hstart⟩
    | step edge _ ih =>
      subst hstart
      obtain ⟨m, edge', rfl⟩ := (hedge p hp _ _).1 edge
      obtain ⟨q, hrest, hq⟩ := ih (hclosed p hp _ _ edge') rfl
      exact ⟨q, .step edge' hrest, hq⟩
  · intro hresult
    obtain ⟨m, hpath, rfl⟩ := hresult
    induction hpath with
    | refl _ => exact .refl _
    | step edge _ ih => exact .step ((hedge _ hp _ _).2 ⟨_, edge, rfl⟩) (ih (hclosed _ hp _ _ edge))

end Path

namespace Automaton

/-- The edges of an automaton. -/
def Edge (a : Automaton) : Graph
  | p, none, q => q ∈ a.epsilonOf p
  | p, some s, q => a.transition? p s = some q

theorem edge_none {a : Automaton} {p q : StateId} : a.Edge p none q ↔ q ∈ a.epsilonOf p := Iff.rfl

theorem edge_some {a : Automaton} {p q : StateId} {s : Symbol} :
    a.Edge p (some s) q ↔ a.transition? p s = some q := Iff.rfl

end Automaton

end TableLexer
