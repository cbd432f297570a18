import TableLexer.Proofs.Automaton.Shortlex
import TableLexer.Proofs.Automaton.StateLimit
import TableLexer.Proofs.Builder.Public

/-! The strict policy refuses an automaton exactly if some word belongs to two terminals, for the first such
word and its first two terminals. All other automata it determinizes as the other policy does. -/
namespace TableLexer

namespace Automaton

variable {a e : Automaton} {set : StateSet} {w : List Symbol} {first second : TerminalId}

/-- Paths that spell the word end in states of two terminals. -/
def Ambiguous (a : Automaton) (w : List Symbol) : Prop := ∃ i j, i ≠ j ∧ a.Spells w i ∧ a.Spells w j

/-- The ambiguous word that comes before all others. -/
def LeastAmbiguous (a : Automaton) (w : List Symbol) : Prop :=
  a.Ambiguous w ∧ ∀ v, a.Ambiguous v → v ≠ w → Before w v

private theorem exists_leastAmbiguous (h : ∃ w, a.Ambiguous w) : ∃ w, a.LeastAmbiguous w := Before.exists_least h

theorem LeastAmbiguous.not_before (h : a.LeastAmbiguous w) {v : List Symbol} (hv : a.Ambiguous v) :
    ¬ Before v w := by
  intro hbefore
  by_cases heq : v = w
  · subst heq
    exact hbefore.asymm hbefore
  · exact hbefore.asymm (h.2 v hv heq)

/-- The same automaton under the policy that the first declaration counts. -/
def relaxed (a : Automaton) : Automaton := { a with config := { a.config with ambiguity := .firstDeclared } }

private theorem WellFormed.relaxed (h : a.WellFormed) : a.relaxed.WellFormed :=
  ⟨h.initial_lt, h.sound, h.owned, h.eof_first, h.size_le⟩

/-- The policy has no part in finding subsets. -/
private theorem discover_relaxed (a : Automaton) (fuel : Nat) (rows : Array (List (Symbol × StateId))) :
    a.relaxed.discover fuel rows = a.discover fuel rows := by
  induction fuel generalizing rows with
  | zero => rfl
  | succ fuel ih =>
    rw [discover, discover]
    refine bind_congr fun found => ?_
    cases found.subsets[rows.size]? with
    | none => rfl
    | some set => exact bind_congr (m := Search) (x := a.edges set) fun row => ih (rows.push row)

/-- The first two terminals that the states of a set accept. -/
structure Rivals (a : Automaton) (set : StateSet) (first second : TerminalId) : Prop where
  first_least : IsLeast {id | id ∈ a.terminalsOf set} first
  second_least : IsLeast {id | id ∈ a.terminalsOf set ∧ id ≠ first} second

private theorem acceptance_of_rivals (hstrict : a.config.ambiguity = .strict) (h : a.Rivals set first second) :
    a.acceptance set =
      .error (.ambiguous ((a.terminals.name? first).getD "") ((a.terminals.name? second).getD "")) := by
  have hfirst : (a.terminalsOf set).min? = some first := List.min?_eq_some_iff.2 h.first_least
  have hsecond : ((a.terminalsOf set).filter (· ≠ first)).min? = some second := by
    refine List.min?_eq_some_iff.2 ⟨?_, fun id hid => ?_⟩
    · simpa using h.second_least.1
    · exact h.second_least.2 (by simpa using hid)
  unfold acceptance
  simp only [hfirst, hstrict, hsecond]

private theorem acceptance_relaxed (a : Automaton) (set : StateSet) :
    a.relaxed.acceptance set = .ok (a.terminalsOf set).min? := by
  obtain ⟨terminal, h⟩ := exists_acceptance (a := a.relaxed) rfl set
  rw [h, ← acceptance_eq_ok h]
  rfl

/-- The policies accept the same, unless the states of the set accept two terminals. -/
private theorem acceptance_eq_relaxed (h : ∀ first second, ¬ a.Rivals set first second) :
    a.acceptance set = a.relaxed.acceptance set := by
  rw [acceptance_relaxed]
  unfold acceptance
  dsimp only
  cases hfirst : (a.terminalsOf set).min? with
  | none => rfl
  | some first =>
    cases hsecond : ((a.terminalsOf set).filter (· ≠ first)).min? with
    | none => cases a.config.ambiguity <;> simp only [hsecond]
    | some second =>
      obtain ⟨hmem, hle⟩ := List.min?_eq_some_iff.1 hsecond
      refine absurd ⟨List.min?_eq_some_iff.1 hfirst, ?_, fun id hid => hle id ?_⟩ (h first second)
      · simpa using hmem
      · simpa using hid

/-- The error that names two terminals. -/
def rivalry (a : Automaton) (first second : TerminalId) : ConstructionError :=
  .ambiguous ((a.terminals.name? first).getD "") ((a.terminals.name? second).getD "")

private theorem subsetState_eq_relaxed (h : ∀ first second, ¬ a.Rivals set first second)
    (row : List (Symbol × StateId)) : a.subsetState set row = a.relaxed.subsetState set row := by
  rw [subsetState, subsetState, acceptance_eq_relaxed h]
  rfl

private theorem exists_subsetState_relaxed (a : Automaton) (set : StateSet) (row : List (Symbol × StateId)) :
    ∃ q, a.relaxed.subsetState set row = .ok q := by
  rw [subsetState, acceptance_relaxed]
  exact ⟨_, rfl⟩

/-- Under the strict policy a set is refused for its rivals, and for nothing else. -/
theorem subsetState_eq_error_iff (hstrict : a.config.ambiguity = .strict) {row : List (Symbol × StateId)}
    {error : ConstructionError} : a.subsetState set row = .error error ↔
      ∃ first second, a.Rivals set first second ∧ error = a.rivalry first second := by
  constructor
  · intro herror
    by_contra hnone
    have hrivals (first second : TerminalId) : ¬ a.Rivals set first second := by
      intro hrivals
      rw [subsetState, acceptance_of_rivals hstrict hrivals] at herror
      exact hnone ⟨first, second, hrivals, (Except.error.inj herror).symm⟩
    obtain ⟨q, hq⟩ := a.exists_subsetState_relaxed set row
    rw [subsetState_eq_relaxed hrivals, hq] at herror
    simp at herror
  · intro h
    obtain ⟨first, second, hrivals, rfl⟩ := h
    rw [subsetState, acceptance_of_rivals hstrict hrivals]
    rfl

private theorem Rivals.ambiguous (ha : a.WellFormed) (h : a.Rivals (a.after w) first second) : a.Ambiguous w :=
  ⟨first, second, h.second_least.1.2.symm, (mem_terminalsOf_after ha).1 h.first_least.1,
    (mem_terminalsOf_after ha).1 h.second_least.1.1⟩

private theorem Ambiguous.exists_rivals (ha : a.WellFormed) (h : a.Ambiguous w) :
    ∃ first second, a.Rivals (a.after w) first second := by
  obtain ⟨i, j, hne, hi, hj⟩ := h
  rw [← mem_terminalsOf_after ha] at hi hj
  obtain ⟨first, hfirst⟩ : ∃ first, IsLeast {id | id ∈ a.terminalsOf (a.after w)} first :=
    ⟨_, Nat.isLeast_find ⟨i, hi⟩⟩
  obtain ⟨other, hother⟩ : ∃ id, id ∈ a.terminalsOf (a.after w) ∧ id ≠ first := by
    by_cases heq : i = first
    · exact ⟨j, hj, fun hjfirst => hne (heq.trans hjfirst.symm)⟩
    · exact ⟨i, hi, heq⟩
  exact ⟨first, _, hfirst, Nat.isLeast_find ⟨other, hother⟩⟩

private theorem not_rivals_of_ok (hstrict : a.config.ambiguity = .strict) {row : List (Symbol × StateId)}
    {state : State} (h : a.subsetState set row = .ok state) : ¬ a.Rivals set first second := by
  intro hrivals
  rw [(subsetState_eq_error_iff hstrict).2 ⟨first, second, hrivals, rfl⟩] at h
  simp at h

/-- An ambiguous word leads to a subset with rivals. -/
theorem Represents.exists_of_ambiguous {subsets : Array StateSet} (h : e.Represents a.relaxed subsets)
    (ha : a.WellFormed) (hw : a.Ambiguous w) : ∃ i first second, e.run? e.initial w = some i ∧
      subsets[i]? = some (a.after w) ∧ a.Rivals (a.after w) first second := by
  obtain ⟨first, second, hrivals⟩ := hw.exists_rivals ha
  rcases h.run ha.relaxed w with ⟨-, hempty⟩ | ⟨i, hi, hset, -⟩
  · obtain ⟨q, hq, -⟩ := mem_terminalsOf.1 hrivals.first_least.1
    exact absurd hq (hempty q)
  · exact ⟨i, first, second, hi, hset, hrivals⟩

/-- The first subset with rivals is that of the least ambiguous word. -/
theorem Represents.leastAmbiguous {subsets : Array StateSet} (h : e.Represents a.relaxed subsets)
    (ha : a.WellFormed) (he : e.BreadthFirst) {i : StateId} (hi : subsets[i]? = some set)
    (hrivals : a.Rivals set first second)
    (hbefore : ∀ j < i, ∀ earlier, subsets[j]? = some earlier → ∀ p q, ¬ a.Rivals earlier p q) :
    ∃ w, a.LeastAmbiguous w ∧ a.after w = set := by
  have hwf := h.wellFormed ha.relaxed
  -- The words that lead to the subset are ambiguous.
  have hleads (u : List Symbol) (hu : e.run? e.initial u = some i) : a.after u = set := by
    rcases h.run ha.relaxed u with ⟨hnone, -⟩ | ⟨j, hj, hset, -⟩
    · simp [hnone] at hu
    · obtain rfl := Option.some.inj (hu.symm.trans hj)
      exact Option.some.inj (hset.symm.trans hi)
  have hambiguous (u : List Symbol) (hu : e.run? e.initial u = some i) : a.Ambiguous u :=
    Rivals.ambiguous ha (hleads u hu ▸ hrivals)
  obtain ⟨u, hu⟩ := he.exists_run hwf (h.size_eq ▸ (Array.getElem?_eq_some_iff.1 hi).1)
  obtain ⟨w, hw⟩ := exists_leastAmbiguous ⟨u, hambiguous u hu⟩
  obtain ⟨j, p, q, hj, hset, hpq⟩ := h.exists_of_ambiguous ha hw.1
  refine ⟨w, hw, ?_⟩
  rcases Nat.lt_trichotomy i j with hlt | rfl | hgt
  · obtain ⟨v, hv, hvi⟩ := he.exists_before hwf hlt hj
    exact absurd hv (hw.not_before (hambiguous v hvi))
  · exact hleads w hj
  · exact absurd hpq (hbefore j hgt _ hset p q)

section discovered

variable {rows : Array (List (Symbol × StateId))} {found : Discovery} (ha : a.WellFormed)
  (hdiscover : (a.discover (max 1 a.config.stateLimit) #[]).run (.first a) = .ok (rows, found))
include ha hdiscover

/-- Every subset that has been found has its row. -/
private theorem exists_row {i : Nat} (hset : found.subsets[i]? = some set) :
    ∃ row, (found.subsets.zip rows).toList[i]? = some (set, row) := by
  obtain ⟨-, -, -, hsize⟩ := discover_spec ha (Discovery.first_valid ha) (fun i row hi => by simp at hi) (by simp)
    hdiscover
  have hi : i < rows.size := hsize ▸ (Array.getElem?_eq_some_iff.1 hset).1
  refine ⟨rows[i], ?_⟩
  rw [Array.toList_zip, List.getElem?_zip_eq_some]
  exact ⟨by simpa using hset, by simp [hi]⟩

/-- The other policy finds the same subsets, and makes states of all of them. -/
private theorem exists_relaxed : ∃ states,
    (found.subsets.zip rows).toList.mapM (fun pair => a.relaxed.subsetState pair.1 pair.2) = .ok states ∧
      a.relaxed.subsetConstruction = .ok (a.relaxed.frozen states.toArray 0) ∧
      (a.relaxed.frozen states.toArray 0).Represents a.relaxed found.subsets := by
  have hrelaxed : (a.relaxed.discover (max 1 a.config.stateLimit) #[]).run (.first a) = .ok (rows, found) := by
    rw [discover_relaxed, hdiscover]
  obtain ⟨states, hstates⟩ : ∃ states, (found.subsets.zip rows).toList.mapM
      (fun pair => a.relaxed.subsetState pair.1 pair.2) = .ok states :=
    exists_mapM_ok fun pair _ => a.exists_subsetState_relaxed pair.1 pair.2
  refine ⟨states, hstates, ?_, represents_of_discover ha.relaxed hrelaxed hstates⟩
  rw [subsetConstruction_eq ha.relaxed]
  exact except_bind_eq_ok_iff.2 ⟨(rows, found), hrelaxed, except_bind_eq_ok_iff.2 ⟨states, hstates, rfl⟩⟩

variable (hstrict : a.config.ambiguity = .strict)
include hstrict

/-- The first subset that is refused is that of the least ambiguous word, and refused for its rivals. -/
private theorem leastAmbiguous_of_error {error : ConstructionError}
    (hmap : (found.subsets.zip rows).toList.mapM (fun pair => a.subsetState pair.1 pair.2) = .error error) :
    ∃ w first second, a.LeastAmbiguous w ∧ a.Rivals (a.after w) first second ∧ error = a.rivalry first second := by
  obtain ⟨states, -, he, hrepresents⟩ := exists_relaxed ha hdiscover
  obtain ⟨i, ⟨set, row⟩, hpair, herror, hbefore⟩ := exists_of_mapM_eq_error hmap
  obtain ⟨first, second, hrivals, rfl⟩ := (subsetState_eq_error_iff hstrict).1 herror
  rw [Array.toList_zip, List.getElem?_zip_eq_some, Array.getElem?_toList] at hpair
  have hundisputed : ∀ j < i, ∀ earlier, found.subsets[j]? = some earlier → ∀ p q, ¬ a.Rivals earlier p q := by
    intro j hj earlier hearlier p q hpq
    obtain ⟨row, hrow⟩ := exists_row ha hdiscover hearlier
    obtain ⟨state, hstate⟩ := hbefore j hj _ hrow
    exact not_rivals_of_ok hstrict hstate hpq
  obtain ⟨w, hw, rfl⟩ := hrepresents.leastAmbiguous ha (subsetConstruction_breadthFirst ha.relaxed he) hpair.1 hrivals
    hundisputed
  exact ⟨w, first, second, hw, hrivals, rfl⟩

/-- If no subset is refused, none has rivals, so that the policies agree. -/
private theorem not_ambiguous_of_ok {states : List State}
    (hmap : (found.subsets.zip rows).toList.mapM (fun pair => a.subsetState pair.1 pair.2) = .ok states) :
    (∀ w, ¬ a.Ambiguous w) ∧
      (found.subsets.zip rows).toList.mapM (fun pair => a.relaxed.subsetState pair.1 pair.2) = .ok states := by
  have hundisputed (pair : StateSet × List (Symbol × StateId)) (hpair : pair ∈ (found.subsets.zip rows).toList)
      (p q : TerminalId) : ¬ a.Rivals pair.1 p q := by
    obtain ⟨state, hstate⟩ := exists_ok_of_mapM_ok hmap hpair
    exact not_rivals_of_ok hstrict hstate
  constructor
  · intro w hw
    obtain ⟨_, -, -, hrepresents⟩ := exists_relaxed ha hdiscover
    obtain ⟨i, p, q, -, hset, hpq⟩ := hrepresents.exists_of_ambiguous ha hw
    obtain ⟨row, hrow⟩ := exists_row ha hdiscover hset
    exact hundisputed _ (List.mem_of_getElem? hrow) p q hpq
  · rw [← hmap]
    exact (mapM_congr fun pair hpair => subsetState_eq_relaxed (hundisputed pair hpair) pair.2).symm

end discovered

section strict

variable (ha : a.WellFormed) (hstrict : a.config.ambiguity = .strict) (hfew : ¬ a.Overflows)
include ha hstrict hfew

/-- Under the strict policy the subset construction gives what it gives under the other one, or it reports the
rivals of the least ambiguous word. -/
theorem subsetConstruction_strict :
    ((∀ w, ¬ a.Ambiguous w) ∧ ∃ d e, a.subsetConstruction = .ok d ∧ a.relaxed.subsetConstruction = .ok e ∧
      d.states = e.states ∧ d.initial = e.initial) ∨
    ∃ w first second, a.LeastAmbiguous w ∧ a.Rivals (a.after w) first second ∧
      a.subsetConstruction = .error (a.rivalry first second) := by
  obtain ⟨rows, found, hdiscover⟩ := exists_discover ha hfew
  have hstrictly : a.subsetConstruction =
      (found.subsets.zip rows).toList.mapM (fun pair => a.subsetState pair.1 pair.2) >>= fun states =>
        .ok (a.frozen states.toArray 0) := by
    rw [subsetConstruction_eq ha, hdiscover]
    rfl
  cases hmap : (found.subsets.zip rows).toList.mapM (fun pair => a.subsetState pair.1 pair.2) with
  | error error =>
    obtain ⟨w, first, second, hw, hrivals, rfl⟩ := leastAmbiguous_of_error ha hdiscover hstrict hmap
    rw [hmap] at hstrictly
    exact .inr ⟨w, first, second, hw, hrivals, hstrictly⟩
  | ok states =>
    obtain ⟨hnone, hsame⟩ := not_ambiguous_of_ok ha hdiscover hstrict hmap
    obtain ⟨states', hstates', he, -⟩ := exists_relaxed ha hdiscover
    obtain rfl := Except.ok.inj (hsame.symm.trans hstates')
    rw [hmap] at hstrictly
    exact .inl ⟨hnone, _, _, hstrictly, he, rfl, rfl⟩

end strict

theorem Rivals.isLeast (ha : a.WellFormed) (h : a.Rivals (a.after w) first second) :
    IsLeast {id | a.Spells w id} first ∧ IsLeast {id | a.Spells w id ∧ id ≠ first} second := by
  simpa only [mem_terminalsOf_after ha] using And.intro h.first_least h.second_least

private theorem Spells.exists_name (ha : a.WellFormed) {id : TerminalId} (h : a.Spells w id) :
    ∃ name, a.terminals.name? id = some name := by
  obtain ⟨q, -, hq⟩ := h
  obtain ⟨state, hstate, hid⟩ := Option.bind_eq_some_iff.1 hq
  exact ⟨_, List.getElem?_eq_getElem ((ha.sound q state hstate).terminal_known id hid).2⟩

/-- If there are not too many sets of states within reach, an automaton is refused under the strict policy
exactly if a word is ambiguous. The error then names the first two terminals of the least ambiguous word, and
otherwise the states are those that the other policy leads to. -/
theorem determinize_strict (hn : a.Constructed) (hstrict : a.config.ambiguity = .strict) (hfew : ¬ a.Overflows) :
    ((∃ x y, a.determinize = .error (.ambiguous x y)) ↔ ∃ w, a.Ambiguous w) ∧
      ((∃ w, a.Ambiguous w) → ∃ w first second x y, a.LeastAmbiguous w ∧
        IsLeast {id | a.Spells w id} first ∧ IsLeast {id | a.Spells w id ∧ id ≠ first} second ∧
        a.terminals.name? first = some x ∧ a.terminals.name? second = some y ∧
        a.determinize = .error (.ambiguous x y)) ∧
      ((∀ w, ¬ a.Ambiguous w) → ∃ d e, a.determinize = .ok d ∧ a.relaxed.determinize = .ok e ∧
        d.states = e.states ∧ d.initial = e.initial) := by
  obtain ⟨config, hgrows⟩ := hn.grows
  have ha := hgrows.wellFormed
  have hdet : a.deterministic = false := hgrows.deterministic
  have hconstruct : a.determinize = a.subsetConstruction := by
    rw [determinize, hdet, if_neg Bool.false_ne_true]
  have hrelaxed : a.relaxed.determinize = a.relaxed.subsetConstruction := by
    rw [determinize, show a.relaxed.deterministic = false from hdet, if_neg Bool.false_ne_true]
  rw [hconstruct, hrelaxed]
  rcases subsetConstruction_strict ha hstrict hfew with
    ⟨hnone, d, e, hd, he, hsame⟩ | ⟨w, first, second, hw, hrivals, herror⟩
  · refine ⟨⟨fun h => ?_, fun h => ?_⟩, fun h => ?_, fun _ => ⟨d, e, hd, he, hsame⟩⟩
    · obtain ⟨x, y, hxy⟩ := h
      simp [hd] at hxy
    · obtain ⟨w, hw⟩ := h
      exact absurd hw (hnone w)
    · obtain ⟨w, hw⟩ := h
      exact absurd hw (hnone w)
  · obtain ⟨hfirst, hsecond⟩ := hrivals.isLeast ha
    obtain ⟨x, hx⟩ := hfirst.1.exists_name ha
    obtain ⟨y, hy⟩ := hsecond.1.1.exists_name ha
    rw [rivalry, hx, hy, Option.getD_some, Option.getD_some] at herror
    refine ⟨⟨fun _ => ⟨w, hw.1⟩, fun _ => ⟨x, y, herror⟩⟩, fun _ => ?_, fun hnone => absurd hw.1 (hnone w)⟩
    exact ⟨w, first, second, x, y, hw, hfirst, hsecond, hx, hy, herror⟩

/-- The keyword `if`, and all words of its letters, under the strict policy. -/
def keyword : Automaton :=
  (Builder.apply (do
    let _ ← Builder.addTerminal "IF" (Builder.string "if")
    Builder.addTerminal "WORD" do
      let letter ← Builder.alternate [← Builder.string "f", ← Builder.string "i"]
      Builder.plus letter) { config := { ambiguity := .strict } }).2

theorem determinize_strict_keyword : keyword.Constructed ∧ keyword.config.ambiguity = .strict ∧
    ¬ keyword.Overflows ∧ (∃ w, keyword.Ambiguous w) ∧ ∃ w first second x y, keyword.LeastAmbiguous w ∧
      IsLeast {id | keyword.Spells w id} first ∧ IsLeast {id | keyword.Spells w id ∧ id ≠ first} second ∧
      keyword.terminals.name? first = some x ∧ keyword.terminals.name? second = some y ∧
      keyword.determinize = .error (.ambiguous x y) := by
  have hconstructed : keyword.Constructed :=
    ⟨_, _, _, .bind (.addTerminal _ (.string _)) fun _ => .addTerminal _ (.bind (.string _) fun _ =>
      .bind (.string _) fun _ => .bind (.alternate _) fun _ => .plus _), rfl⟩
  obtain ⟨config, hgrows⟩ := hconstructed.grows
  have hfew : ¬ keyword.Overflows := by
    have htargets (p : StateId) (s : Symbol) (q : StateId) (edge : keyword.Edge p (some s) q) :
        q ∈ Finset.range keyword.size := Finset.mem_range.2 (hgrows.wellFormed.edge_lt edge)
    refine not_overflows htargets ?_
    rw [Finset.card_range]
    decide +kernel
  obtain ⟨-, herror, -⟩ := determinize_strict hconstructed (by decide +kernel) hfew
  have hif : keyword.terminalsOf (keyword.after [.ofChar 'i', .ofChar 'f']) = [1, 2] := by decide +kernel
  have hambiguous : ∃ w, keyword.Ambiguous w := by
    refine ⟨[.ofChar 'i', .ofChar 'f'], 1, 2, by decide, ?_, ?_⟩
    · exact (mem_terminalsOf_after hgrows.wellFormed).1 (by simp [hif])
    · exact (mem_terminalsOf_after hgrows.wellFormed).1 (by simp [hif])
  exact ⟨hconstructed, by decide +kernel, hfew, hambiguous, herror hambiguous⟩

end Automaton

end TableLexer
