import Mathlib.Logic.Relator
import TableLexer.Proofs.Automaton.BreadthFirst

/-! Breadth first numbering leaves no choice: automata without states that are alike, whose initial states are
alike, are the same state by state. -/
namespace TableLexer

/-- Two continuations of a numbering whose numbers are related one to one are the same. -/
theorem Numbered.eq_of_related {R : Nat → Nat → Prop} (hR : Relator.BiUnique R) {before left right : List Nat}
    {m n : Nat} (hleft : Numbered (before ++ left) m) (hright : Numbered (before ++ right) n)
    (hbefore : ∀ i ∈ before, R i i) (hrel : List.Forall₂ R left right) :
    left = right ∧ ∀ i ∈ before ++ left, R i i := by
  induction hrel generalizing before with
  | nil => exact ⟨rfl, by simpa using hbefore⟩
  | @cons i j left right hij _ ih =>
    rw [← List.singleton_append, ← List.append_assoc] at hleft hright
    obtain rfl : i = j := by
      obtain ⟨_, hi⟩ := hleft.of_append
      obtain ⟨_, hj⟩ := hright.of_append
      obtain ⟨known, hknown, hi⟩ := concat_iff.1 hi
      obtain ⟨known', hknown', hj⟩ := concat_iff.1 hj
      obtain rfl := hknown.count_unique hknown'
      have hseen (k : Nat) (hk : k < known) : R k k := hbefore k (hknown.mem_iff.2 hk)
      rcases hi with ⟨hi, -⟩ | ⟨hi, -⟩
      · exact hR.2 (hseen i hi) hij
      · rcases hj with ⟨hj, -⟩ | ⟨hj, -⟩
        · exact hR.1 hij (hseen j hj)
        · exact hi.trans hj.symm
    have hbefore' : ∀ k ∈ before ++ [i], R k k := by
      simpa [or_imp, forall_and] using ⟨hbefore, hij⟩
    obtain ⟨rfl, hall⟩ := ih hleft hright hbefore'
    exact ⟨rfl, by simpa using hall⟩

namespace Automaton

variable {m n : Automaton}

/-- A deterministic automaton no two states of which are alike, numbered breadth first. -/
structure Canonical (a : Automaton) : Prop where
  wellFormed : a.WellFormed
  noEpsilon : a.NoEpsilon
  breadthFirst : a.BreadthFirst
  reduced : ∀ p < a.size, ∀ q < a.size, a.Alike p a q → p = q

theorem BreadthFirst.foundBy_numbered (h : m.BreadthFirst) (k : Nat) : ∃ count, Numbered (m.foundBy k) count := by
  have hall := h.numbered
  rw [foundBy_size, ← List.take_append_drop k m.rows, targetsOf_append, ← List.cons_append] at hall
  exact hall.of_append

theorem BreadthFirst.initial_eq (h : m.BreadthFirst) : m.initial = 0 := by
  obtain ⟨count, hcount⟩ := h.foundBy_numbered 0
  obtain ⟨known, hknown, hinitial⟩ := Numbered.concat_iff.1 (show Numbered ([] ++ [m.initial]) count from hcount)
  obtain rfl : known = 0 := Nat.le_zero.1 hknown.count_le
  rcases hinitial with ⟨hinitial, -⟩ | ⟨hinitial, -⟩
  · exact absurd hinitial (Nat.not_lt_zero _)
  · exact hinitial

theorem foundBy_succ {k : Nat} {state : State} (hstate : m.state? k = some state) :
    m.foundBy (k + 1) = m.foundBy k ++ state.transitions.map (·.2) := by
  have hrow : m.rows[k]? = some state.transitions := by rw [getElem?_rows, hstate, Option.map_some]
  rw [foundBy, List.take_add_one, hrow, Option.toList_some, targetsOf_append, targetsOf_singleton]
  rfl

section canonical

variable (hm : m.Canonical) (hn : n.Canonical)
include hm hn

private theorem Counterparts.biUnique : Relator.BiUnique (m.Counterparts n) := by
  constructor
  · intro p q r hp hq
    exact hm.reduced p hp.1 q hq.1 (hp.2.2.trans hq.2.2.symm)
  · intro p q r hq hr
    exact hn.reduced q hq.2.1 r hr.2.1 (hq.2.2.symm.trans hr.2.2)

variable (hinitial : m.Alike m.initial n n.initial)
include hinitial

/-- Going through as many states of both, the same is found in the same order, and is alike. -/
private theorem foundBy_eq {k : Nat} (hk : k ≤ m.size) :
    k ≤ n.size ∧ m.foundBy k = n.foundBy k ∧ ∀ i ∈ m.foundBy k, m.Counterparts n i i := by
  induction k with
  | zero =>
    have hzero : m.initial = n.initial := hm.breadthFirst.initial_eq.trans hn.breadthFirst.initial_eq.symm
    refine ⟨Nat.zero_le _, congrArg ([·]) hzero, fun i hi => ?_⟩
    obtain rfl : i = m.initial := List.mem_singleton.1 hi
    exact ⟨hm.wellFormed.initial_lt, hzero ▸ hn.wellFormed.initial_lt, by rwa [← hzero] at hinitial⟩
  | succ k ih =>
    obtain ⟨-, hsame, hcounterparts⟩ := ih (Nat.le_of_succ_le hk)
    have hfound := hcounterparts k (hm.breadthFirst.found k hk)
    obtain ⟨p, hp⟩ := exists_state? hfound.1
    obtain ⟨q, hq⟩ := exists_state? hfound.2.1
    obtain ⟨count, hleft⟩ := hm.breadthFirst.foundBy_numbered (k + 1)
    obtain ⟨count', hright⟩ := hn.breadthFirst.foundBy_numbered (k + 1)
    rw [foundBy_succ hp] at hleft ⊢
    rw [foundBy_succ hq, ← hsame] at hright ⊢
    have hrow : List.Forall₂ (m.Counterparts n) (p.transitions.map (·.2)) (q.transitions.map (·.2)) := by
      have hp' := (hm.wellFormed.sound k p hp).ascending
      have hq' := (hn.wellFormed.sound k q hq).ascending
      exact hp'.forall₂_targets hq' (hfound.state_transition hm.wellFormed hn.wellFormed hp hq)
    obtain ⟨hrow, hall⟩ := hleft.eq_of_related (Counterparts.biUnique hm hn) hright hcounterparts hrow
    exact ⟨hfound.2.1, by rw [hrow], hall⟩

private theorem counterparts_self {i : StateId} (hi : i < m.size) : m.Counterparts n i i :=
  (foundBy_eq hm hn hinitial (Nat.le_refl _)).2.2 i (hm.breadthFirst.numbered.mem_iff.2 hi)

private theorem state_eq {i : StateId} {p q : State} (hp : m.state? i = some p) (hq : n.state? i = some q) : p = q := by
  have hi := counterparts_self hm hn hinitial (lt_size_of_state? hp)
  have hp' := hm.wellFormed.sound i p hp
  have hq' := hn.wellFormed.sound i q hq
  have hverdict : (p.isFinal, p.terminal) = (q.isFinal, q.terminal) := by
    simpa [verdict, hp, hq] using hi.2.2.verdict_eq
  have htransitions : p.transitions = q.transitions := by
    refine hp'.ascending.ext hq'.ascending fun s => ?_
    have hs := hi.state_transition hm.wellFormed hn.wellFormed hp hq s
    have hself (r : StateId) (hr : p.transition s = some r) : m.Counterparts n r r :=
      counterparts_self hm hn hinitial (hm.wellFormed.edge_lt (edge_some_iff.2 ⟨p, hp, hr⟩))
    show p.transition s = q.transition s
    generalize p.transition s = left at hs hself ⊢
    generalize q.transition s = right at hs ⊢
    cases hs with
    | none => rfl
    | some h => exact congrArg some ((Counterparts.biUnique hm hn).2 (hself _ rfl) h)
  obtain ⟨hfinal, hterminal⟩ := Prod.mk.inj hverdict
  have hepsilon := (hm.noEpsilon i p hp).trans (hn.noEpsilon i q hq).symm
  cases p
  cases q
  simp_all

/-- Canonical automata whose initial states are alike are the same state by state. -/
theorem Canonical.states_eq : m.states = n.states := by
  have hle := (foundBy_eq hm hn hinitial (Nat.le_refl _)).1
  have hge := (foundBy_eq hn hm hinitial.symm (Nat.le_refl _)).1
  have hsize : m.states.size = n.states.size := Nat.le_antisymm hle hge
  refine Array.ext hsize fun i hi hi' => ?_
  exact state_eq hm hn hinitial (Array.getElem?_eq_getElem hi) (Array.getElem?_eq_getElem hi')

end canonical

end Automaton

end TableLexer
