import Mathlib.Logic.Relation
import TableLexer.Automaton.Basic
import TableLexer.Proofs.Automaton.Path
import TableLexer.Proofs.Automaton.State
import TableLexer.Proofs.Registry

/-! The invariant of the arena of states, which every automaton that can be built has. -/
namespace TableLexer

/-- A state that fits an arena of `size` states and a registry: its edges lead to states of the
arena, and it is final exactly if it accepts a terminal, which is registered and not the end of
input. -/
structure State.Sound (size : Nat) (terminals : Registry) (q : State) : Prop where
  successors_lt : ∀ id ∈ q.successors, id < size
  ascending : State.Ascending q.transitions
  final_iff : q.isFinal = q.terminal.isSome
  terminal_known : ∀ id, q.terminal = some id → id ≠ eof ∧ id < terminals.size

namespace State.Sound

variable {size size' : Nat} {terminals terminals' : Registry} {q : State}

theorem empty : State.Sound size terminals {} where
  successors_lt id h := by simp [successors] at h
  ascending := List.Pairwise.nil
  final_iff := rfl
  terminal_known id h := by simp at h

theorem mono (h : q.Sound size terminals) (hsize : size ≤ size')
    (hterminals : terminals.size ≤ terminals'.size) : q.Sound size' terminals' where
  successors_lt id hid := Nat.lt_of_lt_of_le (h.successors_lt id hid) hsize
  ascending := h.ascending
  final_iff := h.final_iff
  terminal_known id hid :=
    ⟨(h.terminal_known id hid).1, Nat.lt_of_lt_of_le (h.terminal_known id hid).2 hterminals⟩

theorem addEpsilon (h : q.Sound size terminals) {target : StateId} (ht : target < size) :
    (q.addEpsilon target).Sound size terminals where
  successors_lt id hid := by
    rcases List.mem_append.1 hid with hid | hid
    · exact h.successors_lt id (List.mem_append_left _ hid)
    · rcases mem_epsilon_addEpsilon.1 hid with rfl | hid
      · exact ht
      · exact h.successors_lt id (List.mem_append_right _ hid)
  ascending := h.ascending
  final_iff := h.final_iff
  terminal_known := h.terminal_known

theorem setTransition (h : q.Sound size terminals) (s : Symbol) {target : StateId}
    (ht : target < size) : (q.setTransition s target).Sound size terminals where
  successors_lt id hid := by
    rcases (mem_successors (h.ascending.insertEdge s target)).1 hid with ⟨t, hid⟩ | hid
    · rw [transition_setTransition] at hid
      split at hid
      · obtain rfl : target = id := Option.some.inj hid
        exact ht
      · exact h.successors_lt id ((mem_successors h.ascending).2 (.inl ⟨t, hid⟩))
    · exact h.successors_lt id (List.mem_append_right _ hid)
  ascending := h.ascending.insertEdge s target
  final_iff := h.final_iff
  terminal_known := h.terminal_known

theorem markFinal (h : q.Sound size terminals) {id : TerminalId} (hid : id ≠ eof)
    (hlt : id < terminals.size) : (q.markFinal (some id)).Sound size terminals where
  successors_lt := h.successors_lt
  ascending := h.ascending
  final_iff := rfl
  terminal_known id' hid' := by
    obtain rfl : id = id' := Option.some.inj hid'
    exact ⟨hid, hlt⟩

theorem restricted (h : q.Sound size terminals) {rename : StateId → Option StateId}
    (hlt : ∀ old new, rename old = some new → new < size') :
    (q.restricted rename).Sound size' terminals where
  successors_lt id hid := by
    rcases (mem_successors (h.ascending.filterMap rename)).1 hid with ⟨t, hid⟩ | hid
    · rw [transition_restricted h.ascending, Option.bind_eq_some_iff] at hid
      obtain ⟨old, _, hnew⟩ := hid
      exact hlt old id hnew
    · obtain ⟨old, _, hnew⟩ := mem_epsilon_restricted.1 hid
      exact hlt old id hnew
  ascending := h.ascending.filterMap rename
  final_iff := h.final_iff
  terminal_known := h.terminal_known

end State.Sound

namespace Automaton

/-- The invariant of the arena. -/
structure WellFormed (a : Automaton) : Prop where
  initial_lt : a.initial < a.size
  sound : ∀ id q, a.state? id = some q → q.Sound a.size a.terminals
  owned : ∀ name f, a.definitions.lookup name = some f → a.owns f
  eof_first : a.terminals.name? eof = some eofName
  size_le : a.size ≤ max 1 a.config.stateLimit

theorem owns_iff {a : Automaton} {f : Fragment} : a.owns f ↔ f.entry < a.size ∧ f.exit < a.size := by
  simp [owns]

theorem owns_of_size_le {a b : Automaton} {f : Fragment} (hf : a.owns f) (hle : a.size ≤ b.size) : b.owns f := by
  obtain ⟨hentry, hexit⟩ := owns_iff.1 hf
  exact owns_iff.2 ⟨Nat.lt_of_lt_of_le hentry hle, Nat.lt_of_lt_of_le hexit hle⟩

theorem state?_eq_none_iff {a : Automaton} {id : StateId} : a.state? id = none ↔ a.size ≤ id :=
  Array.getElem?_eq_none_iff

theorem lt_size_of_state? {a : Automaton} {id : StateId} {q : State} (h : a.state? id = some q) :
    id < a.size := (Array.getElem?_eq_some_iff.1 h).1

theorem exists_state? {a : Automaton} {id : StateId} (h : id < a.size) : ∃ q, a.state? id = some q :=
  ⟨_, Array.getElem?_eq_getElem h⟩

theorem wellFormed_start (config : BuildConfig) : ({ config } : Automaton).WellFormed where
  initial_lt := by simp [size]
  sound id q h := by
    have hlt := lt_size_of_state? h
    obtain rfl : id = 0 := by simpa [size] using hlt
    obtain rfl : {} = q := by simpa [state?] using h
    exact .empty
  owned name f h := by simp at h
  eof_first := rfl
  size_le := Nat.le_max_left ..

/-- No epsilon edge leads out of the arena. -/
def EpsilonInBounds (a : Automaton) : Prop := ∀ q ∈ a.states, ∀ target ∈ q.epsilon, target < a.size

theorem EpsilonInBounds.target_lt {a : Automaton} (h : a.EpsilonInBounds) {p q : StateId} (hq : q ∈ a.epsilonOf p) :
    q < a.size := by
  rw [epsilonOf] at hq
  cases hp : a.state? p with
  | none => simp [hp] at hq
  | some state => exact h state (Array.mem_of_getElem? hp) q (by simpa [hp] using hq)

theorem WellFormed.epsilonInBounds {a : Automaton} (h : a.WellFormed) : a.EpsilonInBounds := by
  intro q hq target htarget
  obtain ⟨id, hid⟩ := Array.mem_iff_getElem?.1 hq
  exact (h.sound id q hid).successors_lt target (List.mem_append_right _ htarget)

theorem WellFormed.edge_lt {a : Automaton} (h : a.WellFormed) {p q : StateId} {l : Option Symbol}
    (edge : a.Edge p l q) : q < a.size := by
  cases l with
  | none => exact h.epsilonInBounds.target_lt edge
  | some s =>
    obtain ⟨state, hstate, hq⟩ := Option.bind_eq_some_iff.1 edge
    have hsound := h.sound p state hstate
    exact hsound.successors_lt q ((State.mem_successors hsound.ascending).2 (.inl ⟨s, hq⟩))

theorem WellFormed.path_lt {a : Automaton} (h : a.WellFormed) {p q : StateId} {w : List Symbol}
    (hpath : Path a.Edge p w q) (hp : p < a.size) : q < a.size := by
  induction hpath with
  | refl _ => exact hp
  | step edge _ ih => exact ih (h.edge_lt edge)

end Automaton

end TableLexer
