import Mathlib.Order.ConditionallyCompleteLattice.Basic
import TableLexer.Proofs.Automaton.Arena
import TableLexer.Proofs.Automaton.Run

/-! The changes out of which every step that extends an automaton is made: how the invariant of the
arena survives them, and which edges they add. -/
namespace TableLexer

/-- The graph of one edge. -/
def arc (source : StateId) (label : Option Symbol) (target : StateId) : Graph :=
  fun p l q => p = source ∧ l = label ∧ q = target

/-- The graph of an epsilon edge, which is left out if it would lead back to its source. -/
def bridge (source target : StateId) : Graph := fun p l q => source ≠ target ∧ arc source none target p l q

namespace Automaton

variable {a b c : Automaton} {source target : StateId} {s : Symbol}

theorem state?_modifyState (a : Automaton) (id : StateId) (f : State → State) (j : StateId) :
    (a.modifyState id f).state? j = if id = j then (a.state? j).map f else a.state? j :=
  Array.getElem?_modify

@[simp] theorem size_modifyState (a : Automaton) (id : StateId) (f : State → State) :
    (a.modifyState id f).size = a.size := Array.size_modify ..

/-- The automaton with one more state, which has no edges. -/
def extended (a : Automaton) : Automaton := { a with states := a.states.push {} }

@[simp] theorem size_extended (a : Automaton) : a.extended.size = a.size + 1 := Array.size_push ..

theorem state?_extended (a : Automaton) (id : StateId) :
    a.extended.state? id = if id = a.size then some {} else a.state? id := Array.getElem?_push

/-- Whatever becomes of a step, the automaton that it leaves is well formed, has the states it had
before and can still be extended if it could before. -/
structure Grows (a b : Automaton) : Prop where
  wellFormed : b.WellFormed
  size_le : a.size ≤ b.size
  deterministic : b.deterministic = a.deterministic
  config : b.config = a.config

namespace Grows

theorem refl (h : a.WellFormed) : a.Grows a := ⟨h, Nat.le_refl _, rfl, rfl⟩

theorem trans (h : a.Grows b) (h' : b.Grows c) : a.Grows c where
  wellFormed := h'.wellFormed
  size_le := Nat.le_trans h.size_le h'.size_le
  deterministic := h'.deterministic.trans h.deterministic
  config := h'.config.trans h.config

theorem owns (h : a.Grows b) {f : Fragment} (hf : a.owns f) : b.owns f := owns_of_size_le hf h.size_le

theorem modifyState (h : a.WellFormed) (id : StateId) {f : State → State}
    (hf : ∀ q, q.Sound a.size a.terminals → (f q).Sound a.size a.terminals) :
    a.Grows (a.modifyState id f) where
  wellFormed := {
    initial_lt := by rw [size_modifyState]; exact h.initial_lt
    sound := fun j q hq => by
      rw [size_modifyState]
      rw [state?_modifyState] at hq
      split at hq
      · obtain ⟨q', hq', rfl⟩ := Option.map_eq_some_iff.1 hq
        exact hf q' (h.sound j q' hq')
      · exact h.sound j q hq
    owned := fun name f hf => by
      obtain ⟨hentry, hexit⟩ := owns_iff.1 (h.owned name f hf)
      exact owns_iff.2 (by rw [size_modifyState]; exact ⟨hentry, hexit⟩)
    eof_first := h.eof_first
    size_le := by rw [size_modifyState]; exact h.size_le }
  size_le := by rw [size_modifyState]
  deterministic := rfl
  config := rfl

theorem extended (h : a.WellFormed) (hlimit : a.size < a.config.stateLimit) :
    a.Grows a.extended where
  wellFormed := {
    initial_lt := by rw [size_extended]; exact Nat.lt_succ_of_lt h.initial_lt
    sound := fun j q hq => by
      rw [size_extended]
      rw [state?_extended] at hq
      split at hq
      · obtain rfl := Option.some.inj hq
        exact .empty
      · exact (h.sound j q hq).mono (Nat.le_succ _) (Nat.le_refl _)
    owned := fun name f hf => by
      obtain ⟨hentry, hexit⟩ := owns_iff.1 (h.owned name f hf)
      exact owns_iff.2 (by
        rw [size_extended]; exact ⟨Nat.lt_succ_of_lt hentry, Nat.lt_succ_of_lt hexit⟩)
    eof_first := h.eof_first
    size_le := by
      rw [size_extended]
      exact Nat.le_trans hlimit (Nat.le_max_right ..) }
  size_le := by rw [size_extended]; exact Nat.le_succ _
  deterministic := rfl
  config := rfl

end Grows

theorem edge_none_iff {p q : StateId} :
    a.Edge p none q ↔ ∃ state, a.state? p = some state ∧ q ∈ state.epsilon := by
  rw [edge_none, epsilonOf]
  cases a.state? p <;> simp

theorem edge_some_iff {p q : StateId} :
    a.Edge p (some s) q ↔ ∃ state, a.state? p = some state ∧ state.transition s = some q := by
  rw [edge_some, transition?, Option.bind_eq_some_iff]

/-- No edge leaves the state. -/
def Idle (a : Automaton) (p : StateId) : Prop := ∀ l q, ¬ a.Edge p l q

theorem idle_of_size_le {p : StateId} (h : a.size ≤ p) : a.Idle p := by
  have hnone := state?_eq_none_iff.2 h
  intro l q edge
  cases l with
  | none =>
    obtain ⟨state, hstate, -⟩ := edge_none_iff.1 edge
    simp [hnone] at hstate
  | some s =>
    obtain ⟨state, hstate, -⟩ := edge_some_iff.1 edge
    simp [hnone] at hstate

theorem Idle.transition?_eq_none {p : StateId} (h : a.Idle p) (s : Symbol) :
    a.transition? p s = none := Option.eq_none_iff_forall_ne_some.2 fun q => h (some s) q

theorem terminal?_eq_none {p : StateId} (h : a.size ≤ p) : a.terminal? p = none := by
  rw [terminal?, state?_eq_none_iff.2 h, Option.bind_none]

/-- The second automaton has the edges of the first one and some more, and accepts the same in the
same states. -/
structure Adds (a b : Automaton) (new : Graph) : Prop where
  edge : b.Edge = a.Edge ⊔ new
  terminal : b.terminal? = a.terminal?
  initial : b.initial = a.initial
  terminals : b.terminals = a.terminals
  definitions : b.definitions = a.definitions

namespace Adds

variable {new new' : Graph}

theorem edge_iff (h : a.Adds b new) {p q : StateId} {l : Option Symbol} :
    b.Edge p l q ↔ a.Edge p l q ∨ new p l q := by
  rw [h.edge]
  rfl

theorem idle (h : a.Adds b new) {p : StateId} (hp : a.Idle p) (hnew : ∀ l q, ¬ new p l q) :
    b.Idle p := fun l q edge => (h.edge_iff.1 edge).elim (hp l q) (hnew l q)

theorem refl (a : Automaton) : a.Adds a ⊥ := ⟨(sup_bot_eq _).symm, rfl, rfl, rfl, rfl⟩

theorem trans (h : a.Adds b new) (h' : b.Adds c new') : a.Adds c (new ⊔ new') where
  edge := by rw [h'.edge, h.edge, sup_assoc]
  terminal := h'.terminal.trans h.terminal
  initial := h'.initial.trans h.initial
  terminals := h'.terminals.trans h.terminals
  definitions := h'.definitions.trans h.definitions

/-- An edge that is there already can be added. -/
theorem present (h : a.Edge source (some s) target) : a.Adds a (arc source (some s) target) where
  edge := by
    refine (sup_eq_left.2 ?_).symm
    intro p l q hresult
    obtain ⟨rfl, rfl, rfl⟩ := hresult
    exact h
  terminal := rfl
  initial := rfl
  terminals := rfl
  definitions := rfl

theorem extended (a : Automaton) : a.Adds a.extended ⊥ where
  edge := by
    rw [sup_bot_eq]
    funext p l q
    have hnone : a.state? a.size = none := state?_eq_none_iff.2 (Nat.le_refl _)
    cases l with
    | none =>
      rw [edge_none, edge_none, epsilonOf, epsilonOf, state?_extended]
      split <;> simp_all
    | some s =>
      rw [edge_some, edge_some, transition?, transition?, state?_extended]
      split <;> simp_all [State.transition]
  terminal := by
    funext p
    have hnone : a.state? a.size = none := state?_eq_none_iff.2 (Nat.le_refl _)
    rw [terminal?, terminal?, state?_extended]
    split <;> simp_all
  initial := rfl
  terminals := rfl
  definitions := rfl

/-- A state may be changed as long as it keeps the terminal it accepts. -/
private theorem modifyState {f : State → State} (hf : ∀ q, (f q).terminal = q.terminal)
    (hedge : (a.modifyState source f).Edge = a.Edge ⊔ new) :
    a.Adds (a.modifyState source f) new where
  edge := hedge
  terminal := by
    funext p
    rw [terminal?, terminal?, state?_modifyState]
    split
    · cases a.state? p <;> simp [hf]
    · rfl
  initial := rfl
  terminals := rfl
  definitions := rfl

theorem addEpsilon (hsource : source < a.size) :
    a.Adds (a.modifyState source (·.addEpsilon target)) (arc source none target) := by
  refine modifyState (fun _ => rfl) ?_
  obtain ⟨state, hstate⟩ := exists_state? hsource
  funext p l q
  refine propext ?_
  show _ ↔ a.Edge p l q ∨ p = source ∧ l = none ∧ q = target
  cases l with
  | none =>
    rw [edge_none_iff, edge_none_iff, state?_modifyState]
    grind [State.mem_epsilon_addEpsilon]
  | some s =>
    rw [edge_some_iff, edge_some_iff, state?_modifyState]
    grind [State.addEpsilon, State.transition]

theorem setTransition (hsource : source < a.size) (hnone : a.transition? source s = none) :
    a.Adds (a.modifyState source (·.setTransition s target)) (arc source (some s) target) := by
  refine modifyState (fun _ => rfl) ?_
  obtain ⟨state, hstate⟩ := exists_state? hsource
  have hs : state.transition s = none := by simpa [transition?, hstate] using hnone
  funext p l q
  refine propext ?_
  show _ ↔ a.Edge p l q ∨ p = source ∧ l = some s ∧ q = target
  cases l with
  | none =>
    rw [edge_none_iff, edge_none_iff, state?_modifyState]
    grind [State.setTransition]
  | some t =>
    rw [edge_some_iff, edge_some_iff, state?_modifyState]
    grind [State.transition_setTransition]

end Adds

end Automaton

end TableLexer
