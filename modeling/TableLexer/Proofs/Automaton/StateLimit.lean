import Mathlib.Data.Finset.Powerset
import TableLexer.Proofs.Automaton.Subset

/-! When the subset construction is given up for its size: only if more sets of states are within reach than
the state limit allows. Automata in which symbols lead to few states have few such sets. -/
namespace TableLexer

namespace Automaton

variable {a : Automaton} {set : StateSet} {s : Symbol} {found found' : Discovery} {α β : Type}

/-- The automaton is in the states of the set after some word, and in at least one. -/
def Within (a : Automaton) (set : StateSet) : Prop := ∃ w, a.after w = set ∧ ∃ q, q ∈ set

private theorem within_start (ha : a.WellFormed) : a.Within a.start := ⟨[], rfl, a.initial, (mem_start ha).2 (.refl _)⟩

theorem Within.step (h : a.Within set) (ha : a.WellFormed) (hlive : a.Live set s) : a.Within (a.step set s) := by
  obtain ⟨w, hw, -⟩ := h
  obtain ⟨p, hp, q, edge⟩ := hlive
  exact ⟨w ++ [s], by rw [after_concat, hw], q, (mem_step ha).2 ⟨p, hp, q, edge, .refl q⟩⟩

/-- More sets of states are within reach than there may be states. -/
def Overflows (a : Automaton) : Prop :=
  ∃ sets : List StateSet, sets.Nodup ∧ (∀ set ∈ sets, a.Within set) ∧ max 1 a.config.stateLimit < sets.length

/-- Every set within reach, the first one apart, is the closure of some of the states to which symbols lead. -/
theorem Within.cases (h : a.Within set) {targets : Finset StateId}
    (htargets : ∀ p s q, a.Edge p (some s) q → q ∈ targets) : set = a.start ∨
      ∃ ids ⊆ targets, set = a.epsilonClosure (.ofList a.size ids.toList) := by
  obtain ⟨w, rfl, -⟩ := h
  rcases List.eq_nil_or_concat w with rfl | ⟨w, s, rfl⟩
  · exact .inl rfl
  · refine .inr ⟨((a.after w).toList.filterMap (a.transition? · s)).toFinset, fun q hq => ?_, ?_⟩
    · obtain ⟨p, -, edge⟩ := List.mem_filterMap.1 (List.mem_toFinset.1 hq)
      exact htargets p s q edge
    · rw [List.concat_eq_append, after_concat, Automaton.step]
      congr 1
      refine (StateSet.over_ofList ..).ext (StateSet.over_ofList ..) fun q => ?_
      simp only [StateSet.mem_ofList, Finset.mem_toList, List.mem_toFinset]

/-- Where symbols lead to few states, few sets are within reach. -/
theorem not_overflows {targets : Finset StateId} (htargets : ∀ p s q, a.Edge p (some s) q → q ∈ targets)
    (hroom : 2 ^ targets.card < a.config.stateLimit) : ¬ a.Overflows := by
  intro hoverflows
  obtain ⟨sets, hnodup, hwithin, hlength⟩ := hoverflows
  let closed (ids : Finset StateId) : StateSet := a.epsilonClosure (.ofList a.size ids.toList)
  have hsubset : sets.toFinset ⊆ insert a.start (targets.powerset.image closed) := by
    intro set hset
    rcases (hwithin set (List.mem_toFinset.1 hset)).cases htargets with rfl | ⟨ids, hids, rfl⟩
    · exact Finset.mem_insert_self ..
    · exact Finset.mem_insert_of_mem (Finset.mem_image_of_mem closed (Finset.mem_powerset.2 hids))
  have hcard : sets.length ≤ 2 ^ targets.card + 1 := calc
    sets.length = sets.toFinset.card := (List.toFinset_card_of_nodup hnodup).symm
    _ ≤ (insert a.start (targets.powerset.image closed)).card := Finset.card_le_card hsubset
    _ ≤ (targets.powerset.image closed).card + 1 := Finset.card_insert_le ..
    _ ≤ targets.powerset.card + 1 := Nat.succ_le_succ Finset.card_image_le
    _ = 2 ^ targets.card + 1 := by rw [Finset.card_powerset]
  omega

/-- What has been discovered is within reach. -/
structure Discovery.Reached (a : Automaton) (found : Discovery) : Prop where
  valid : found.Valid a
  within : ∀ set ∈ found.subsets.toList, a.Within set
  size_pos : 0 < found.subsets.size

theorem Discovery.Valid.nodup (h : found.Valid a) : found.subsets.toList.Nodup := by
  rw [List.nodup_iff_injective_getElem]
  intro i j heq
  have hnumber (k : Fin found.subsets.toList.length) :
      found.numbers[found.subsets.toList[k.val].words]? = some k.val :=
    (h.numbered _ _).2 ⟨_, by simp, rfl⟩
  have hi := hnumber i
  rw [show found.subsets.toList[i.val] = found.subsets.toList[j.val] from heq, hnumber j] at hi
  exact Fin.ext (Option.some.inj hi).symm

private theorem Discovery.Valid.not_mem (h : found.Valid a) (hnew : found.numbers[set.words]? = none) :
    set ∉ found.subsets.toList := by
  intro hmem
  obtain ⟨i, hi⟩ := List.getElem?_of_mem hmem
  rw [Array.getElem?_toList] at hi
  have hsome := (h.numbered set.words i).2 ⟨set, hi, rfl⟩
  simp [hnew] at hsome

/-- The search has found nothing but sets within reach, or has been given up for their number. -/
def Progresses (a : Automaton) : Except ConstructionError (α × Discovery) → Prop
  | .ok (_, found) => found.Reached a
  | .error e => e = .stateLimit a.config.stateLimit ∧ a.Overflows

theorem Progresses.bind {p : Search α} {next : α → Search β} (h : a.Progresses (p.run found))
    (hnext : ∀ x found', p.run found = .ok (x, found') → found'.Reached a →
      a.Progresses ((next x).run found')) : a.Progresses ((p >>= next).run found) := by
  rw [StateT.run_bind]
  cases hrun : p.run found with
  | error e =>
    rw [hrun] at h
    exact h
  | ok result =>
    rw [hrun] at h
    exact hnext result.1 result.2 hrun h

private theorem numberOf_progresses (h : found.Reached a) (hset : a.Within set) (hover : set.Over a.size) :
    a.Progresses ((a.numberOf set).run found) := by
  rw [run_numberOf]
  split
  · exact h
  · next hnew =>
    have hmem : ∀ other ∈ found.subsets.toList ++ [set], a.Within other :=
      List.forall_mem_append.2 ⟨h.within, List.forall_mem_singleton.2 hset⟩
    split
    · next hfull =>
      have hsize := h.size_pos
      refine ⟨rfl, found.subsets.toList ++ [set], ?_, hmem, ?_⟩
      · exact List.nodup_append.2 ⟨h.valid.nodup, List.nodup_singleton _, fun other hother =>
          List.forall_mem_singleton.2 fun heq => h.valid.not_mem hnew (heq ▸ hother)⟩
      · rw [List.length_append, Array.length_toList, List.length_singleton]
        omega
    · next hroom =>
      refine ⟨h.valid.found hover hnew (Nat.lt_of_not_le hroom), ?_, ?_⟩
      · simpa [Discovery.found] using hmem
      · simp [Discovery.found]

theorem exists_acceptance (hpolicy : a.config.ambiguity = .firstDeclared) (set : StateSet) :
    ∃ terminal, a.acceptance set = .ok terminal := by
  unfold acceptance
  rw [hpolicy]
  dsimp only
  cases (a.terminalsOf set).min? with
  | none => exact ⟨none, rfl⟩
  | some first => exact ⟨some first, rfl⟩

section rounds

variable (ha : a.WellFormed)
include ha

private theorem edge?_progresses (h : found.Reached a) (hset : a.Within set) (s : Symbol) :
    a.Progresses ((a.edge? (a.targets set) s).run found) := by
  unfold edge?
  split
  · exact h
  · next ids hids =>
    have hlive : a.Live set s := by
      rw [← not_not (a := a.Live set s), ← targets_eq_nil_iff ha]
      exact hids
    obtain ⟨htarget, hrem⟩ := closure_targets ha h.valid.remembered set s
    have hclosed : a.Progresses (α := StateSet) (.ok (a.step set s,
        { found with closures := (a.closure found.closures ((a.targets set).getD s.val [])).2 })) :=
      ⟨h.valid.remember hrem, h.within, h.size_pos⟩
    rw [← htarget] at hclosed
    refine Progresses.bind (p := modifyGet _) hclosed fun target found' hrun hfound' => ?_
    obtain ⟨rfl, -⟩ := Prod.mk.inj (Except.ok.inj hrun)
    refine (numberOf_progresses hfound' ?_ ?_).bind fun i found'' _ hfound'' => hfound''
    · exact htarget ▸ hset.step ha hlive
    · exact htarget ▸ over_step

theorem filterMapM_edge?_progresses (symbols : List Symbol) (h : found.Reached a) (hset : a.Within set) :
    a.Progresses ((symbols.filterMapM (a.edge? (a.targets set))).run found) := by
  induction symbols generalizing found with
  | nil => exact h
  | cons s symbols ih =>
    rw [List.filterMapM_cons]
    refine (edge?_progresses ha h hset s).bind fun edge found' _ hfound' => ?_
    cases edge with
    | none => exact ih hfound'
    | some edge => exact (ih hfound').bind fun _ _ _ hfound'' => hfound''

/-- Every round goes on from a set that has been found. -/
theorem discover_progresses (fuel : Nat) (rows : Array (List (Symbol × StateId))) (h : found.Reached a) :
    a.Progresses ((a.discover fuel rows).run found) := by
  induction fuel generalizing rows found with
  | zero => exact h
  | succ fuel ih =>
    rw [discover]
    refine Progresses.bind (p := get) h fun _ found' hget hfound' => ?_
    obtain ⟨rfl, rfl⟩ := Prod.mk.inj (Except.ok.inj hget)
    split
    · exact hfound'
    · next set hset =>
      have hwithin := hfound'.within set (Array.mem_toList_iff.2 (Array.mem_of_getElem? hset))
      exact (filterMapM_edge?_progresses ha Symbol.all hfound' hwithin).bind fun row _ _ hnext => ih _ hnext

theorem Discovery.first_reached : (Discovery.first a).Reached a where
  valid := first_valid ha
  within := by simpa [first] using within_start ha
  size_pos := by simp [first]

/-- Only the number of sets is in the way of the discovery. -/
theorem exists_discover (hfew : ¬ a.Overflows) :
    ∃ rows found, (a.discover (max 1 a.config.stateLimit) #[]).run (.first a) = .ok (rows, found) := by
  have hdiscover := discover_progresses ha (max 1 a.config.stateLimit) #[] (Discovery.first_reached ha)
  cases hrun : (a.discover (max 1 a.config.stateLimit) #[]).run (.first a) with
  | error e =>
    rw [hrun] at hdiscover
    exact absurd hdiscover.2 hfew
  | ok result => exact ⟨result.1, result.2, rfl⟩

/-- Under the policy that the first declaration counts, only the number of sets is in the way of the subset
construction. -/
theorem exists_subsetConstruction (hpolicy : a.config.ambiguity = .firstDeclared) (hfew : ¬ a.Overflows) :
    ∃ d, a.subsetConstruction = .ok d := by
  obtain ⟨rows, found, hdiscover⟩ := exists_discover ha hfew
  obtain ⟨states, hstates⟩ : ∃ states, (found.subsets.zip rows).toList.mapM
      (fun pair => a.subsetState pair.1 pair.2) = .ok states := by
    refine exists_mapM_ok fun pair _ => ?_
    obtain ⟨terminal, hterminal⟩ := exists_acceptance hpolicy pair.1
    exact ⟨_, except_bind_eq_ok_iff.2 ⟨terminal, hterminal, rfl⟩⟩
  rw [subsetConstruction_eq ha]
  exact ⟨a.frozen states.toArray 0, except_bind_eq_ok_iff.2
    ⟨(rows, found), hdiscover, except_bind_eq_ok_iff.2 ⟨states, hstates, rfl⟩⟩⟩

/-- Under that policy an automaton in which symbols lead to few states has a deterministic one. -/
theorem exists_determinize (hpolicy : a.config.ambiguity = .firstDeclared) {targets : Finset StateId}
    (htargets : ∀ p s q, a.Edge p (some s) q → q ∈ targets) (hroom : 2 ^ targets.card < a.config.stateLimit) :
    ∃ d, a.determinize = .ok d := by
  unfold determinize
  split
  · exact ⟨a, rfl⟩
  · exact exists_subsetConstruction ha hpolicy (not_overflows htargets hroom)

/-- Under that policy a small automaton has a deterministic one. -/
theorem exists_determinize_of_size (hpolicy : a.config.ambiguity = .firstDeclared)
    (hroom : 2 ^ a.size < a.config.stateLimit) : ∃ d, a.determinize = .ok d :=
  exists_determinize ha hpolicy (fun _ _ _ edge => Finset.mem_range.2 (ha.edge_lt edge))
    (by rwa [Finset.card_range])

end rounds

end Automaton

end TableLexer
