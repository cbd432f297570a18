import Mathlib.Data.List.Shortlex
import TableLexer.Proofs.Automaton.Canonical

/-! Breadth first numbering is the order of the least words that lead to the states: shorter words come first,
and of equally long ones those whose symbols come first. -/
namespace TableLexer

/-- The order of words by their lengths, and of equally long ones by their symbols. -/
abbrev Before : List Symbol → List Symbol → Prop := List.Shortlex (· < ·)

namespace Before

variable {u v w : List Symbol} {s t : Symbol}

theorem wellFounded : WellFounded Before := List.Shortlex.wf wellFounded_lt

private theorem trichotomous (u v : List Symbol) : Before u v ∨ u = v ∨ Before v u := by
  by_contra hnone
  obtain ⟨huv, hne, hvu⟩ : ¬ Before u v ∧ u ≠ v ∧ ¬ Before v u := by simpa [not_or] using hnone
  exact hne (Std.Trichotomous.trichotomous u v huv hvu)

theorem asymm (h : Before u v) : ¬ Before v u := Std.Asymm.asymm u v h

theorem trans (h : Before u v) (h' : Before v w) : Before u w := by
  rcases trichotomous u w with huw | rfl | hwu
  · exact huw
  · exact absurd h' h.asymm
  · exact absurd hwu (wellFounded.asymmetric₃ u v w h h')

/-- Among words with a property one comes before all others. -/
theorem exists_least {P : List Symbol → Prop} (h : ∃ w, P w) : ∃ w, P w ∧ ∀ v, P v → v ≠ w → Before w v := by
  refine ⟨wellFounded.min {w | P w} h, wellFounded.min_mem _ h, fun v hv hne => ?_⟩
  rcases trichotomous (wellFounded.min {w | P w} h) v with hlt | heq | hgt
  · exact hlt
  · exact absurd heq.symm hne
  · exact absurd hgt (wellFounded.not_lt_min _ hv)

/-- Whatever symbols follow, the longer words come in the same order. -/
private theorem concat (h : Before u v) : Before (u ++ [s]) (v ++ [t]) := by
  rcases List.shortlex_def.1 h with hlength | ⟨hlength, hlex⟩
  · exact .of_length_lt (by simpa using hlength)
  · refine .of_lex (by simpa using hlength) ?_
    clear h
    induction hlex with
    | nil => simp at hlength
    | cons _ ih => exact .cons (ih (by simpa using hlength))
    | rel hlt => exact .rel hlt

private theorem concat_of_lt (u : List Symbol) (h : s < t) : Before (u ++ [s]) (u ++ [t]) :=
  List.Shortlex.append_left ((List.shortlex_singleton_iff s t).2 h) u

private theorem nil_concat (u : List Symbol) (s : Symbol) : Before [] (u ++ [s]) := .of_length_lt (by simp)

end Before

namespace Automaton

variable {d : Automaton} {i j p : StateId} {s : Symbol} {v : List Symbol}

/-- What is numbered before the target of an edge is the initial state or has been found by an edge before:
one of a state before, or one on a symbol before. -/
theorem BreadthFirst.found_before (h : d.BreadthFirst) (hd : d.WellFormed) (hij : i < j)
    (hj : d.transition? p s = some j) :
    i = d.initial ∨ ∃ q t, d.transition? q t = some i ∧ (q < p ∨ q = p ∧ t < s) := by
  obtain ⟨state, hstate, hs⟩ := Option.bind_eq_some_iff.1 hj
  have hascending := (hd.sound p state hstate).ascending
  obtain ⟨before, after, hrow⟩ := List.append_of_mem (hascending.lookup_eq_some_iff.1 hs)
  obtain ⟨count, hnumbered⟩ := h.foundBy_numbered (p + 1)
  rw [foundBy_succ hstate, hrow, List.map_append, List.map_cons, ← List.append_assoc,
    List.append_cons] at hnumbered
  obtain ⟨_, hbefore⟩ := hnumbered.of_append
  obtain ⟨known, hknown, hlast⟩ := Numbered.concat_iff.1 hbefore
  have hjle : j ≤ known := by
    rcases hlast with ⟨hlt, -⟩ | ⟨heq, -⟩
    · exact Nat.le_of_lt hlt
    · exact Nat.le_of_eq heq
  have hi : i ∈ d.foundBy p ++ before.map (·.2) := hknown.mem_iff.2 (Nat.lt_of_lt_of_le hij hjle)
  rcases List.mem_append.1 hi with hi | hi
  · rcases (mem_foundBy hd).1 hi with rfl | ⟨q, hq, t, ht⟩
    · exact .inl rfl
    · exact .inr ⟨q, t, ht, .inl hq⟩
  · obtain ⟨⟨t, _⟩, hedge, rfl⟩ := List.mem_map.1 hi
    have hmem : (t, _) ∈ state.transitions := hrow ▸ List.mem_append_left _ hedge
    have ht := hascending.lookup_eq_some_iff.2 hmem
    refine .inr ⟨p, t, Option.bind_eq_some_iff.2 ⟨state, hstate, ht⟩, .inr ⟨rfl, ?_⟩⟩
    rw [State.Ascending, hrow] at hascending
    exact (List.pairwise_append.1 hascending).2.2 _ hedge _ List.mem_cons_self

/-- To a state with a lower number leads a word that comes before. -/
theorem BreadthFirst.exists_before (h : d.BreadthFirst) (hd : d.WellFormed) (hij : i < j)
    (hj : d.run? d.initial v = some j) : ∃ u, Before u v ∧ d.run? d.initial u = some i := by
  induction v using List.reverseRecOn generalizing i j with
  | nil =>
    obtain rfl := Option.some.inj hj
    exact absurd (h.initial_eq ▸ hij) (Nat.not_lt_zero i)
  | append_singleton v s ih =>
    rw [run?_concat] at hj
    obtain ⟨p, hp, hs⟩ := Option.bind_eq_some_iff.1 hj
    rcases h.found_before hd hij hs with rfl | ⟨q, t, ht, hqp | ⟨rfl, hts⟩⟩
    · exact ⟨[], .nil_concat v s, run?_nil⟩
    · obtain ⟨u, hu, hq⟩ := ih hqp hp
      exact ⟨u ++ [t], hu.concat, by rw [run?_concat, hq, Option.bind_some, ht]⟩
    · exact ⟨v ++ [t], .concat_of_lt v hts, by rw [run?_concat, hp, Option.bind_some, ht]⟩

/-- Some word leads to every state. -/
theorem BreadthFirst.exists_run (h : d.BreadthFirst) (hd : d.WellFormed) (hi : i < d.size) :
    ∃ u, d.run? d.initial u = some i := by
  induction i using Nat.strong_induction_on with
  | h i ih =>
    rcases (mem_foundBy hd).1 (h.found i hi) with rfl | ⟨q, hq, t, ht⟩
    · exact ⟨[], run?_nil⟩
    · obtain ⟨u, hu⟩ := ih q hq (hq.trans hi)
      exact ⟨u ++ [t], by rw [run?_concat, hu, Option.bind_some, ht]⟩

end Automaton

end TableLexer
