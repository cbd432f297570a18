import Mathlib.Data.Set.Card
import TableLexer.Proofs.Automaton.StateLimit
import TableLexer.Proofs.Builder.Public

/-! A deterministic automaton has one state for every set of states that the given automaton can be in. If the
state limit does not allow for so many, the subset construction is given up, and only then is it given up for
that reason. -/
namespace TableLexer

namespace Automaton

variable {a d : Automaton} {set : StateSet} {found found' : Discovery}
  {rows rows' : Array (List (Symbol × StateId))} {e : ConstructionError}

theorem over_after (a : Automaton) (w : List Symbol) : (a.after w).Over a.size := by
  rcases List.eq_nil_or_concat w with rfl | ⟨w, s, rfl⟩
  · exact over_start
  · rw [List.concat_eq_append, after_concat]
    exact over_step

private theorem Within.over (h : a.Within set) : set.Over a.size := by
  obtain ⟨w, rfl, -⟩ := h
  exact a.over_after w

/-- There are no more sets within reach than there are sets of states. -/
private theorem finite_within (a : Automaton) : {set | a.Within set}.Finite := by
  refine Set.Finite.of_injOn (f := fun set => set.toList.toFinset) (t := ((Finset.range a.size).powerset : Set _))
    (fun set hset => ?_) (fun set hset other hother heq => ?_) (Finset.finite_toSet _)
  · rw [Finset.mem_coe, Finset.mem_powerset]
    intro q hq
    exact Finset.mem_range.2 (hset.over.bound q (StateSet.mem_toList.1 (List.mem_toFinset.1 hq)))
  · refine hset.over.ext hother.over fun q => ?_
    rw [← StateSet.mem_toList, ← StateSet.mem_toList, ← List.mem_toFinset, ← List.mem_toFinset]
    exact iff_of_eq (congrArg (q ∈ ·) heq)

/-- The sets in a list without repetitions are no more than those within reach. -/
theorem length_le_ncard {sets : List StateSet} (hnodup : sets.Nodup) (hwithin : ∀ set ∈ sets, a.Within set) :
    sets.length ≤ {set | a.Within set}.ncard := by
  rw [← List.toFinset_card_of_nodup hnodup, ← Set.ncard_coe_finset]
  refine Set.ncard_le_ncard (fun set hset => ?_) a.finite_within
  exact hwithin set (List.mem_toFinset.1 (Finset.mem_coe.1 hset))

theorem overflows_iff : a.Overflows ↔ max 1 a.config.stateLimit < {set | a.Within set}.ncard := by
  constructor
  · intro h
    obtain ⟨sets, hnodup, hwithin, hlength⟩ := h
    exact Nat.lt_of_lt_of_le hlength (length_le_ncard hnodup hwithin)
  · intro h
    refine ⟨a.finite_within.toFinset.toList, Finset.nodup_toList _, fun set hset => ?_, ?_⟩
    · exact a.finite_within.mem_toFinset.1 (Finset.mem_toList.1 hset)
    · rwa [Finset.length_toList, ← Set.ncard_eq_toFinset_card _ a.finite_within]

section discovered

variable (ha : a.WellFormed)
include ha

/-- Once no subset is left whose edges have not been determined, all sets within reach have been found: the
start is among them, and the symbols lead from each of them to others. -/
theorem mem_subsets_iff (hfirst : (Discovery.first a).Extends found) (hreached : found.Reached a)
    (hrows : a.Rows found.subsets rows) (hsize : rows.size = found.subsets.size) :
    set ∈ found.subsets.toList ↔ a.Within set := by
  constructor
  · exact hreached.within set
  · intro h
    obtain ⟨w, rfl, q, hq⟩ := h
    suffices ∃ i : Nat, found.subsets[i]? = some (a.after w) by
      obtain ⟨i, hi⟩ := this
      exact Array.mem_toList_iff.2 (Array.mem_of_getElem? hi)
    induction w using List.reverseRecOn generalizing q with
    | nil => exact ⟨0, hfirst 0 _ rfl⟩
    | append_singleton w s ih =>
      rw [after_concat, mem_step ha] at hq
      obtain ⟨p, hp, m, edge, -⟩ := hq
      obtain ⟨i, hi⟩ := ih p hp
      have hlt : i < rows.size := hsize ▸ (Array.getElem?_eq_some_iff.1 hi).1
      obtain ⟨set, hset, hrow⟩ := hrows i rows[i] (Array.getElem?_eq_getElem hlt)
      obtain rfl := Option.some.inj (hi.symm.trans hset)
      obtain ⟨j, hj⟩ := hrow.complete s ⟨p, hp, m, edge⟩
      exact ⟨j, by rw [after_concat]; exact (hrow.sound s j hj).2⟩

/-- What has been discovered in the end: a subset for every set within reach. -/
theorem size_subsets (h : (a.discover (max 1 a.config.stateLimit) #[]).run (.first a) = .ok (rows, found)) :
    rows.size = found.subsets.size ∧ found.subsets.size = {set | a.Within set}.ncard := by
  obtain ⟨-, hfirst, hrows, hsize⟩ := discover_spec ha (Discovery.first_valid ha) (fun i row hi => by simp at hi)
    (by simp) h
  have hreached := discover_progresses ha (max 1 a.config.stateLimit) #[] (Discovery.first_reached ha)
  rw [h] at hreached
  have hsets : {set | a.Within set} = (found.subsets.toList.toFinset : Set StateSet) := by
    ext set
    rw [Finset.mem_coe, List.mem_toFinset]
    exact (mem_subsets_iff ha hfirst hreached hrows hsize).symm
  refine ⟨hsize, ?_⟩
  rw [hsets, Set.ncard_coe_finset, List.toFinset_card_of_nodup hreached.valid.nodup, Array.length_toList]

/-- The discovery is given up exactly if there are too many sets within reach. -/
theorem discover_eq_error_iff : (a.discover (max 1 a.config.stateLimit) #[]).run (.first a) = .error e ↔
    e = .stateLimit a.config.stateLimit ∧ a.Overflows := by
  have hprogresses := discover_progresses ha (max 1 a.config.stateLimit) #[] (Discovery.first_reached ha)
  cases hrun : (a.discover (max 1 a.config.stateLimit) #[]).run (.first a) with
  | error e' =>
    rw [hrun] at hprogresses
    obtain ⟨rfl, hoverflows⟩ := hprogresses
    exact ⟨fun h => ⟨(Except.error.inj h).symm, hoverflows⟩, fun h => congrArg _ h.1.symm⟩
  | ok result =>
    rw [hrun] at hprogresses
    have hreached : result.2.Reached a := hprogresses
    refine iff_of_false (by simp) fun h => ?_
    have hle := hreached.valid.size_le
    have hlt := overflows_iff.1 h.2
    rw [← (size_subsets ha hrun).2] at hlt
    omega

end discovered

/-- Nothing is left to be discovered: the search has been given up, or the edges of all subsets that have been
found are known. -/
def Exhausted : Except ConstructionError (Array (List (Symbol × StateId)) × Discovery) → Prop
  | .error _ => True
  | .ok (rows, found) => rows.size = found.subsets.size

private theorem run_discover_of_none (a : Automaton) (fuel : Nat) (h : found.subsets[rows.size]? = none) :
    (a.discover (fuel + 1) rows).run found = .ok (rows, found) := by
  rw [discover, StateT.run_bind, StateT.run_get, pure_bind, h]
  rfl

private theorem run_discover_of_some (a : Automaton) (fuel : Nat) (h : found.subsets[rows.size]? = some set) :
    (a.discover (fuel + 1) rows).run found =
      (a.edges set).run found >>= fun result => (a.discover fuel (rows.push result.1)).run result.2 := by
  rw [discover, StateT.run_bind, StateT.run_get, pure_bind, h]
  rfl

/-- More rounds find nothing more. -/
private theorem discover_add {fuel : Nat} (h : Exhausted ((a.discover fuel rows).run found)) (more : Nat) :
    (a.discover (fuel + more) rows).run found = (a.discover fuel rows).run found := by
  induction fuel generalizing rows found with
  | zero =>
    have hnone : found.subsets[rows.size]? = none := Array.getElem?_eq_none (Nat.le_of_eq (Eq.symm h))
    cases more with
    | zero => rfl
    | succ more =>
      rw [Nat.zero_add, run_discover_of_none a more hnone]
      rfl
  | succ fuel ih =>
    rw [Nat.succ_add_eq_add_succ, Nat.add_succ]
    cases hset : found.subsets[rows.size]? with
    | none => rw [run_discover_of_none a _ hset, run_discover_of_none a _ hset]
    | some set =>
      rw [run_discover_of_some a fuel hset] at h ⊢
      rw [run_discover_of_some a _ hset]
      cases hedges : (a.edges set).run found with
      | error e => rfl
      | ok result =>
        rw [hedges] at h
        exact ih h

/-- As many rounds as there are sets within reach exhaust the search, whatever the state limit is. -/
theorem discover_exhausted (ha : a.WellFormed) {fuel : Nat} (hreached : found.Reached a)
    (hle : rows.size ≤ found.subsets.size) (hfuel : {set | a.Within set}.ncard ≤ fuel + rows.size) :
    Exhausted ((a.discover fuel rows).run found) := by
  induction fuel generalizing rows found with
  | zero =>
    have hcount := length_le_ncard hreached.valid.nodup hreached.within
    rw [Array.length_toList] at hcount
    show rows.size = found.subsets.size
    omega
  | succ fuel ih =>
    cases hset : found.subsets[rows.size]? with
    | none =>
      rw [run_discover_of_none a fuel hset]
      exact Nat.le_antisymm hle (Array.getElem?_eq_none_iff.1 hset)
    | some set =>
      rw [run_discover_of_some a fuel hset]
      have hwithin := hreached.within set (Array.mem_toList_iff.2 (Array.mem_of_getElem? hset))
      have hprogresses : a.Progresses ((a.edges set).run found) :=
        filterMapM_edge?_progresses ha Symbol.all hreached hwithin
      cases hedges : (a.edges set).run found with
      | error e => trivial
      | ok result =>
        rw [hedges] at hprogresses
        have hnext : result.2.Reached a := hprogresses
        have hkept := (edges_spec ha hreached.valid hedges).2.1 _ _ hset
        have hlt := (Array.getElem?_eq_some_iff.1 hkept).1
        refine ih hnext ?_ ?_
        · rw [Array.size_push]
          exact hlt
        · rw [Array.size_push]
          omega

/-- The search does not depend on how many rounds it is given, once these are as many as there are sets within
reach. -/
theorem discover_eq_of_ncard_le (ha : a.WellFormed) {fuel : Nat} (hfuel : {set | a.Within set}.ncard ≤ fuel) :
    (a.discover fuel #[]).run (.first a) = (a.discover (max 1 a.config.stateLimit) #[]).run (.first a) := by
  have hexhausted : Exhausted ((a.discover fuel #[]).run (.first a)) :=
    discover_exhausted ha (Discovery.first_reached ha) (Nat.zero_le _) hfuel
  have hlimited : Exhausted ((a.discover (max 1 a.config.stateLimit) #[]).run (.first a)) := by
    cases hrun : (a.discover (max 1 a.config.stateLimit) #[]).run (.first a) with
    | error e => trivial
    | ok result => exact (size_subsets ha hrun).1
  rw [← discover_add hexhausted (max 1 a.config.stateLimit), Nat.add_comm, discover_add hlimited]

/-- What is refused for its acceptance is refused for being ambiguous. -/
private theorem acceptance_eq_error (h : a.acceptance set = .error e) : ∃ x y, e = .ambiguous x y := by
  unfold acceptance at h
  dsimp only at h
  split at h
  · simp at h
  · split at h
    · exact ⟨_, _, (Except.error.inj h).symm⟩
    · simp at h

private theorem subsetState_eq_error {row : List (Symbol × StateId)} (h : a.subsetState set row = .error e) :
    ∃ x y, e = .ambiguous x y := by
  rcases except_bind_eq_error_iff.1 h with hterminal | ⟨terminal, -, hstate⟩
  · exact acceptance_eq_error hterminal
  · cases hstate

section construction

variable (ha : a.WellFormed)
include ha

/-- Nothing but the number of sets within reach exceeds the state limit. -/
theorem subsetConstruction_eq_stateLimit_iff {limit : Nat} :
    a.subsetConstruction = .error (.stateLimit limit) ↔ limit = a.config.stateLimit ∧ a.Overflows := by
  rw [subsetConstruction_eq ha, except_bind_eq_error_iff, discover_eq_error_iff ha, ConstructionError.stateLimit.injEq]
  refine or_iff_left fun h => ?_
  obtain ⟨result, -, h⟩ := h
  rcases except_bind_eq_error_iff.1 h with hstates | ⟨states, -, hfrozen⟩
  · obtain ⟨i, pair, -, herror, -⟩ := exists_of_mapM_eq_error hstates
    obtain ⟨x, y, hxy⟩ := subsetState_eq_error herror
    cases hxy
  · cases hfrozen

theorem size_subsetConstruction (h : a.subsetConstruction = .ok d) : d.size = {set | a.Within set}.ncard := by
  obtain ⟨rows, found, states, hdiscover, hstates, rfl⟩ := exists_of_subsetConstruction ha h
  exact (represents_of_discover ha hdiscover hstates).size_eq.trans (size_subsets ha hdiscover).2

end construction

/-- The number of the sets that an automaton can be in decides whether the state limit is exceeded, before it
matters whether words are ambiguous, and it is the number of states of the deterministic automaton. The search
for these sets ends: it takes no more rounds than there are sets, and in the end the edges of every set that has
been found are known. -/
theorem determinize_counts (ha : a.WellFormed) (hmutable : a.deterministic = false) :
    {set | a.Within set}.Finite ∧
      (∀ limit, a.determinize = .error (.stateLimit limit) ↔
        limit = a.config.stateLimit ∧ max 1 a.config.stateLimit < {set | a.Within set}.ncard) ∧
      (∀ d, a.determinize = .ok d → d.size = {set | a.Within set}.ncard) ∧
      (∀ fuel, {set | a.Within set}.ncard ≤ fuel →
        Exhausted ((a.discover fuel #[]).run (.first a)) ∧
          (a.discover fuel #[]).run (.first a) = (a.discover (max 1 a.config.stateLimit) #[]).run (.first a)) := by
  rw [determinize_eq_subsetConstruction hmutable]
  refine ⟨a.finite_within, fun limit => ?_, fun d hd => size_subsetConstruction ha hd,
    fun fuel hfuel => ⟨?_, discover_eq_of_ncard_le ha hfuel⟩⟩
  · rw [← overflows_iff]
    exact subsetConstruction_eq_stateLimit_iff ha
  · exact discover_exhausted ha (Discovery.first_reached ha) (Nat.zero_le _) hfuel

/-- Three choices of digits. Each digit from 1 to 7 belongs to other ones of them. -/
def digits : Automaton :=
  (Builder.apply (do
    let odd ← Builder.oneOf [⟨.ofChar '1', .ofChar '1'⟩, ⟨.ofChar '3', .ofChar '3'⟩, ⟨.ofChar '5', .ofChar '5'⟩,
      ⟨.ofChar '7', .ofChar '7'⟩]
    let _ ← Builder.append ⟨0, 0⟩ odd
    let paired ← Builder.oneOf [⟨.ofChar '2', .ofChar '3'⟩, ⟨.ofChar '6', .ofChar '7'⟩]
    let _ ← Builder.append ⟨0, 0⟩ paired
    let high ← Builder.oneOf [⟨.ofChar '4', .ofChar '7'⟩]
    Builder.append ⟨0, 0⟩ high) { config := { stateLimit := 7 } }).2

/-- Eight sets of its seven states are within reach: the start, and one for each digit. -/
theorem determinize_counts_digits : digits.WellFormed ∧ digits.deterministic = false ∧
    digits.size = 7 ∧ digits.determinize = .error (.stateLimit 7) ∧ 7 < {set | digits.Within set}.ncard ∧
    {set | digits.Within set}.Finite ∧
      (∀ limit, digits.determinize = .error (.stateLimit limit) ↔
        limit = digits.config.stateLimit ∧ max 1 digits.config.stateLimit < {set | digits.Within set}.ncard) ∧
      (∀ d, digits.determinize = .ok d → d.size = {set | digits.Within set}.ncard) ∧
      (∀ fuel, {set | digits.Within set}.ncard ≤ fuel →
        Exhausted ((digits.discover fuel #[]).run (.first digits)) ∧
          (digits.discover fuel #[]).run (.first digits) =
            (digits.discover (max 1 digits.config.stateLimit) #[]).run (.first digits)) := by
  have hconstructed : digits.Constructed :=
    ⟨_, _, _, .bind (.oneOf _) fun odd => .bind (.append _ odd) fun _ => .bind (.oneOf _) fun paired =>
      .bind (.append _ paired) fun _ => .bind (.oneOf _) fun high => .append _ high, rfl⟩
  obtain ⟨config, hgrows⟩ := hconstructed.grows
  have hlimit : digits.config.stateLimit = 7 := by decide +kernel
  have hfull : digits.determinize = .error (.stateLimit 7) := by decide +kernel
  have hcounts := determinize_counts hgrows.wellFormed hgrows.deterministic
  have hmany := ((hcounts.2.1 7).1 hfull).2
  rw [hlimit] at hmany
  exact ⟨hgrows.wellFormed, hgrows.deterministic, by decide +kernel, hfull, hmany, hcounts⟩

end Automaton

end TableLexer
