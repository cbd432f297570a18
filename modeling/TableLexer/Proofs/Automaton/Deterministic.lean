import TableLexer.Proofs.Automaton.Run

/-! Automata without epsilon edges are in at most one state after a word. -/
namespace TableLexer

namespace Automaton

/-- The state that the transitions on a word lead to from a state, if all of them are defined. -/
def run? (a : Automaton) (p : StateId) (w : List Symbol) : Option StateId := w.foldlM a.transition? p

variable {a : Automaton} {p q : StateId} {w : List Symbol}

@[simp] theorem run?_nil : a.run? p [] = some p := rfl

theorem run?_cons {s : Symbol} : a.run? p (s :: w) = (a.transition? p s).bind (a.run? · w) := rfl

theorem run?_append {w' : List Symbol} : a.run? p (w ++ w') = (a.run? p w).bind (a.run? · w') :=
  List.foldlM_append

theorem run?_concat {s : Symbol} : a.run? p (w ++ [s]) = (a.run? p w).bind (a.transition? · s) := by
  simp [run?, List.foldlM_append]

/-- No state has an epsilon edge. -/
def NoEpsilon (a : Automaton) : Prop := ∀ id q, a.state? id = some q → q.epsilon = []

private theorem NoEpsilon.not_edge_none (h : a.NoEpsilon) : ¬ a.Edge p none q := by
  intro edge
  rw [edge_none, epsilonOf] at edge
  cases hp : a.state? p with
  | none => simp [hp] at edge
  | some state => simp [hp, h p state hp] at edge

/-- Without epsilon edges there is a path exactly if all transitions are defined. -/
theorem NoEpsilon.path_iff_run? (h : a.NoEpsilon) : Path a.Edge p w q ↔ a.run? p w = some q := by
  constructor
  · intro hpath
    induction hpath with
    | refl p => rfl
    | @step p m q l w edge _ ih =>
      cases l with
      | none => exact absurd edge h.not_edge_none
      | some s =>
        rw [show (some s).toList ++ w = s :: w from rfl, run?_cons, edge_some.1 edge]
        exact ih
  · intro hrun
    induction w generalizing p with
    | nil =>
      obtain rfl := Option.some.inj hrun
      exact .refl p
    | cons s w ih =>
      obtain ⟨m, hm, hrest⟩ := Option.bind_eq_some_iff.1 hrun
      exact .symbol hm (ih hrest)

theorem NoEpsilon.accepts_eq (h : a.NoEpsilon) (ha : a.WellFormed) (w : List Symbol) :
    a.accepts w = (a.run? a.initial w).bind a.terminal? := by
  have hspells (id : TerminalId) :
      a.Spells w id ↔ (a.run? a.initial w).bind a.terminal? = some id := by
    simp only [Spells, h.path_iff_run?, Option.bind_eq_some_iff]
  cases ht : (a.run? a.initial w).bind a.terminal? with
  | none =>
    refine (accepts_eq_none_iff ha).2 fun id hid => ?_
    rw [hspells, ht] at hid
    simp at hid
  | some id =>
    refine (accepts_eq_some_iff ha).2 ⟨(hspells id).2 ht, fun id' hid' => ?_⟩
    rw [Set.mem_ofPred_eq, hspells, ht] at hid'
    exact Nat.le_of_eq (Option.some.inj hid')

end Automaton

end TableLexer
