import Mathlib.Data.List.Induction
import Mathlib.Order.Bounds.Basic
import TableLexer.Proofs.Automaton.Arena
import TableLexer.Proofs.Reachable
import TableLexer.Proofs.StateSet

/-! Following all states at once finds exactly the ends of the paths that spell the word. -/
namespace TableLexer

namespace Automaton

variable {a : Automaton} {set : StateSet} {p q : StateId} {s : Symbol} {w : List Symbol}

theorem EpsilonInBounds.mem_epsilonClosure (h : a.EpsilonInBounds) (hs : set.Over a.size) :
    q ∈ a.epsilonClosure set ↔ ∃ p ∈ set, Path a.Edge p [] q := by
  have hstarts : ∀ p ∈ set.toList, p < a.size := fun p hp => hs.bound p (StateSet.mem_toList.1 hp)
  have hnext : ∀ p < a.size, ∀ m ∈ a.epsilonOf p, m < a.size := fun _ _ _ => h.target_lt
  rw [epsilonClosure, StateSet.mem_ofList, hs.capacity, mem_reachable hstarts hnext]
  simp only [Path.nil_iff, edge_none, StateSet.mem_toList]
  constructor
  · exact fun h => h.1
  · intro hpath
    obtain ⟨p, hp, hpath⟩ := hpath
    refine ⟨⟨p, hp, hpath⟩, ?_⟩
    induction hpath with
    | refl => exact hs.bound p hp
    | tail _ hstep _ => exact h.target_lt hstep

private theorem mem_epsilonClosure (h : a.WellFormed) (hs : set.Over a.size) :
    q ∈ a.epsilonClosure set ↔ ∃ p ∈ set, Path a.Edge p [] q := h.epsilonInBounds.mem_epsilonClosure hs

theorem over_epsilonClosure (hs : set.Over a.size) : (a.epsilonClosure set).Over a.size := by
  rw [epsilonClosure, hs.capacity]
  exact StateSet.over_ofList ..

theorem over_start : a.start.Over a.size := over_epsilonClosure (StateSet.over_ofList ..)

theorem over_step : (a.step set s).Over a.size := over_epsilonClosure (StateSet.over_ofList ..)

theorem mem_start (h : a.WellFormed) : q ∈ a.start ↔ Path a.Edge a.initial [] q := by
  rw [start, mem_epsilonClosure h (StateSet.over_ofList ..)]
  simp [StateSet.mem_ofList, h.initial_lt]

theorem mem_step (h : a.WellFormed) :
    q ∈ a.step set s ↔ ∃ p ∈ set, ∃ m, a.Edge p (some s) m ∧ Path a.Edge m [] q := by
  rw [step, mem_epsilonClosure h (StateSet.over_ofList ..)]
  simp only [StateSet.mem_ofList, List.mem_filterMap, StateSet.mem_toList]
  constructor
  · intro hedge
    obtain ⟨m, ⟨⟨p, hp, edge⟩, _⟩, hpath⟩ := hedge
    exact ⟨p, hp, m, edge, hpath⟩
  · intro hedge
    obtain ⟨p, hp, m, edge, hpath⟩ := hedge
    exact ⟨m, ⟨⟨p, hp, edge⟩, h.edge_lt edge⟩, hpath⟩

theorem after_concat (a : Automaton) (w : List Symbol) (s : Symbol) :
    a.after (w ++ [s]) = a.step (a.after w) s := by
  simp [after]

/-- The states that an automaton can be in after a word are those to which a path spells it. -/
theorem mem_after (h : a.WellFormed) : q ∈ a.after w ↔ Path a.Edge a.initial w q := by
  induction w using List.reverseRecOn generalizing q with
  | nil => exact mem_start h
  | append_singleton w s ih =>
    rw [after_concat, mem_step h, Path.concat_iff]
    constructor
    · intro hedge
      obtain ⟨p, hp, m, edge, hpath⟩ := hedge
      exact ⟨p, m, ih.1 hp, edge, hpath⟩
    · intro hedge
      obtain ⟨p, m, hp, edge, hpath⟩ := hedge
      exact ⟨p, ih.2 hp, m, edge, hpath⟩

/-- The terminal that a state accepts. -/
def terminal? (a : Automaton) (q : StateId) : Option TerminalId := (a.state? q).bind (·.terminal)

theorem mem_terminalsOf {id : TerminalId} :
    id ∈ a.terminalsOf set ↔ ∃ q ∈ set, a.terminal? q = some id := by
  simp only [terminalsOf, List.mem_filterMap, StateSet.mem_toList, terminal?]

/-- Some path spells the word and ends in a state that accepts the terminal. -/
def Spells (a : Automaton) (w : List Symbol) (id : TerminalId) : Prop :=
  ∃ q, Path a.Edge a.initial w q ∧ a.terminal? q = some id

theorem mem_terminalsOf_after (h : a.WellFormed) {id : TerminalId} :
    id ∈ a.terminalsOf (a.after w) ↔ a.Spells w id := by
  simp only [mem_terminalsOf, mem_after h, Spells]

/-- A word belongs to the first terminal that some path spells it for. -/
theorem accepts_eq_some_iff (h : a.WellFormed) {id : TerminalId} :
    a.accepts w = some id ↔ IsLeast {id | a.Spells w id} id := by
  rw [accepts, List.min?_eq_some_iff]
  simp only [mem_terminalsOf_after h, IsLeast, lowerBounds, Set.mem_ofPred_eq]

theorem accepts_eq_none_iff (h : a.WellFormed) : a.accepts w = none ↔ ∀ id, ¬ a.Spells w id := by
  rw [accepts, List.min?_eq_none_iff, List.eq_nil_iff_forall_not_mem]
  simp only [mem_terminalsOf_after h]

theorem isSome_accepts_iff (h : a.WellFormed) : (a.accepts w).isSome ↔ ∃ id, a.Spells w id := by
  rw [← not_iff_not, Bool.not_eq_true, Option.isSome_eq_false_iff, Option.isNone_iff_eq_none,
    accepts_eq_none_iff h, not_exists]

end Automaton

end TableLexer
