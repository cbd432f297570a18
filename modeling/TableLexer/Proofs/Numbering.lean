import TableLexer.Proofs.Ambiguity
import TableLexer.Proofs.Automaton.Embedding
import TableLexer.Proofs.Determinization
import TableLexer.Proofs.StateCount

/-! The numbers of the states of a deterministic automaton are the order of the least words that lead to them.
They do not depend on the numbers of the states that it has been made from. -/
namespace TableLexer

/-- Two functions that put together the same arguments have as many values. -/
private theorem ncard_image_eq {α β : Type} {S : Set α} {f g : α → β} (h : ∀ x y, f x = f y ↔ g x = g y) :
    (f '' S).ncard = (g '' S).ncard := by
  have hfactors : g.FactorsThrough f := fun x y => (h x y).1
  rw [← hfactors.extend_comp id, Set.image_comp]
  refine (Set.InjOn.ncard_image ?_).symm
  rintro _ ⟨x, -, rfl⟩ _ ⟨y, -, rfl⟩ heq
  rw [hfactors.extend_apply, hfactors.extend_apply] at heq
  exact (h x y).2 heq

namespace Automaton

variable {a b d e : Automaton} {rename : StateId → StateId} {i j p q : StateId} {u v w : List Symbol}

/-- The word that comes before all others that lead to a state. -/
def LeastTo (d : Automaton) (i : StateId) (u : List Symbol) : Prop :=
  d.run? d.initial u = some i ∧ ∀ v, d.run? d.initial v = some i → v ≠ u → Before u v

private theorem BreadthFirst.exists_leastTo (h : d.BreadthFirst) (hd : d.WellFormed) (hi : i < d.size) :
    ∃ u, d.LeastTo i u := Before.exists_least (h.exists_run hd hi)

private theorem BreadthFirst.before_of_lt (h : d.BreadthFirst) (hd : d.WellFormed) (hu : d.LeastTo i u)
    (hv : d.LeastTo j v) (hij : i < j) : Before u v := by
  obtain ⟨u', hbefore, hu'⟩ := h.exists_before hd hij hv.1
  by_cases heq : u' = u
  · exact heq ▸ hbefore
  · exact (hu.2 u' hu' heq).trans hbefore

/-- States are in the order of the least words that lead to them. -/
theorem BreadthFirst.lt_iff_before (h : d.BreadthFirst) (hd : d.WellFormed) (hu : d.LeastTo i u)
    (hv : d.LeastTo j v) : i < j ↔ Before u v := by
  refine ⟨h.before_of_lt hd hu hv, fun hbefore => ?_⟩
  rcases Nat.lt_trichotomy i j with hij | rfl | hji
  · exact hij
  · by_cases heq : u = v
    · subst heq
      exact absurd hbefore hbefore.asymm
    · exact absurd (hv.2 u hu.1 heq) hbefore.asymm
  · exact absurd (h.before_of_lt hd hv hu hji) hbefore.asymm

/-- In automata whose states are numbered as they are found, and in which the same words lead to one state,
these states have the same numbers. -/
theorem BreadthFirst.run?_eq (hd : d.BreadthFirst) (he : e.BreadthFirst) (hdwf : d.WellFormed)
    (hewf : e.WellFormed) (hsome : ∀ w, (d.run? d.initial w).isSome ↔ (e.run? e.initial w).isSome)
    (hsame : ∀ u v, d.run? d.initial u = d.run? d.initial v ↔ e.run? e.initial u = e.run? e.initial v)
    (w : List Symbol) : d.run? d.initial w = e.run? e.initial w := by
  induction w using Before.wellFounded.induction with
  | h w ih =>
    cases hi : d.run? d.initial w with
    | none =>
      have hnone := mt (hsome w).2 (by simp [hi])
      exact (Option.not_isSome_iff_eq_none.1 hnone).symm
    | some i =>
      obtain ⟨j, hj⟩ := Option.isSome_iff_exists.1 ((hsome w).1 (by simp [hi]))
      -- A word before this one would lead to the lower of two numbers in both automata.
      rcases Nat.lt_trichotomy i j with hij | rfl | hji
      · obtain ⟨v, hbefore, hv⟩ := he.exists_before hewf hij hj
        have heq := (hsame v w).1 ((ih v hbefore).trans (hv.trans hi.symm))
        rw [hv, hj] at heq
        exact absurd (Option.some.inj heq) (Nat.ne_of_lt hij)
      · exact hj.symm
      · obtain ⟨v, hbefore, hv⟩ := hd.exists_before hdwf hji hi
        have heq := (hsame v w).2 ((ih v hbefore).symm.trans (hv.trans hj.symm))
        rw [hv, hi] at heq
        exact absurd (Option.some.inj heq) (Nat.ne_of_lt hji)

private theorem BreadthFirst.size_le (hd : d.BreadthFirst) (hdwf : d.WellFormed) (hewf : e.WellFormed)
    (hrun : ∀ w, d.run? d.initial w = e.run? e.initial w) : d.size ≤ e.size := by
  refine Nat.le_of_not_lt fun hlt => ?_
  obtain ⟨w, hw⟩ := hd.exists_run hdwf hlt
  exact absurd (hewf.run?_lt hewf.initial_lt ((hrun w).symm.trans hw)) (Nat.lt_irrefl _)

/-- Automata without epsilon edges that accept the same, and in which words lead to the same states, are the
same state by state. -/
theorem BreadthFirst.states_eq (hd : d.BreadthFirst) (he : e.BreadthFirst) (hdwf : d.WellFormed)
    (hewf : e.WellFormed) (hdsilent : d.NoEpsilon) (hesilent : e.NoEpsilon)
    (hrun : ∀ w, d.run? d.initial w = e.run? e.initial w)
    (haccepts : ∀ w, d.accepts w = e.accepts w) : d.states = e.states := by
  refine Array.ext (Nat.le_antisymm (hd.size_le hdwf hewf hrun) (he.size_le hewf hdwf fun w => (hrun w).symm))
    fun i hi hi' => ?_
  have hp : d.state? i = some d.states[i] := Array.getElem?_eq_getElem hi
  have hq : e.state? i = some e.states[i] := Array.getElem?_eq_getElem hi'
  generalize d.states[i] = state at hp
  generalize e.states[i] = state' at hq
  have hsound := hdwf.sound i state hp
  have hsound' := hewf.sound i state' hq
  obtain ⟨w, hw⟩ := hd.exists_run hdwf hi
  have htransitions : state.transitions = state'.transitions := by
    refine hsound.ascending.ext hsound'.ascending fun s => ?_
    have hnext := hrun (w ++ [s])
    rw [run?_concat, run?_concat, ← hrun w, hw, Option.bind_some, Option.bind_some] at hnext
    simpa [transition?, hp, hq, State.transition] using hnext
  have hterminal : state.terminal = state'.terminal := by
    have hsame := haccepts w
    rw [hdsilent.accepts_eq hdwf, hesilent.accepts_eq hewf, ← hrun w, hw] at hsame
    simpa [terminal?, hp, hq] using hsame
  have hfinal : state.isFinal = state'.isFinal := by
    rw [hsound.final_iff, hsound'.final_iff, hterminal]
  have hepsilon := (hdsilent i state hp).trans (hesilent i state' hq).symm
  cases state
  cases state'
  simp_all

theorem after_eq_iff (ha : a.WellFormed) :
    a.after u = a.after v ↔ ∀ q, Path a.Edge a.initial u q ↔ Path a.Edge a.initial v q := by
  simp only [← mem_after ha]
  exact ⟨fun h q => by rw [h], (a.over_after u).ext (a.over_after v)⟩

/-- Words lead to one state of the deterministic automaton exactly if they lead to the same states of the one
that it represents. -/
theorem Represents.run?_eq_iff {subsets : Array StateSet} (h : d.Represents a subsets) (ha : a.WellFormed) :
    d.run? d.initial u = d.run? d.initial v ↔
      ∀ q, Path a.Edge a.initial u q ↔ Path a.Edge a.initial v q := by
  rw [← after_eq_iff ha]
  rcases h.run ha u with ⟨hu, hempty⟩ | ⟨i, hu, hi, p, hp⟩ <;>
    rcases h.run ha v with ⟨hv, hempty'⟩ | ⟨j, hv, hj, q, hq⟩ <;> rw [hu, hv]
  · refine iff_of_true rfl ((a.over_after u).ext (a.over_after v) fun q => ?_)
    exact iff_of_false (hempty q) (hempty' q)
  · exact iff_of_false (by simp) fun heq => hempty q (heq ▸ hq)
  · exact iff_of_false (by simp) fun heq => hempty' p (heq ▸ hp)
  · rw [Option.some.injEq]
    constructor
    · intro heq
      subst heq
      exact Option.some.inj (hi.symm.trans hj)
    · intro heq
      rw [← heq] at hj
      exact h.distinct i j _ hi hj

/-- The states that some path leads to are found in another automaton under other names. Whatever else there is
in either of them is out of reach. -/
structure Renumbers (rename : StateId → StateId) (a b : Automaton) : Prop where
  injective : Set.InjOn rename {p | ∃ w, Path a.Edge a.initial w p}
  initial : b.initial = rename a.initial
  edge : ∀ p w, Path a.Edge a.initial w p → ∀ l q, b.Edge (rename p) l q ↔ ∃ m, a.Edge p l m ∧ rename m = q
  terminal : ∀ p w, Path a.Edge a.initial w p → b.terminal? (rename p) = a.terminal? p

/-- An automaton that is a part of another one is found in it under other names. -/
theorem Embeds.renumbers {part : Set StateId} (h : Embeds rename part a b) (ha : a.WellFormed)
    (hpart : a.initial ∈ part) (hinitial : b.initial = rename a.initial) : Renumbers rename a b := by
  have hreach {p : StateId} {w : List Symbol} (hpath : Path a.Edge a.initial w p) : p ∈ part :=
    (Path.transport (fun p hp _ _ edge => ⟨h.edge_mem ha hp edge, edge⟩) hpart hpath).1
  refine ⟨h.strictMono.injective.injOn, hinitial, fun p w hpath l q => h.edge_iff (hreach hpath),
    fun p w hpath => ?_⟩
  rw [terminal?, h.state p (hreach hpath), terminal?]
  cases a.state? p <;> rfl

namespace Renumbers

variable (h : Renumbers rename a b)
include h

theorem path_iff : Path b.Edge b.initial w q ↔ ∃ p, Path a.Edge a.initial w p ∧ rename p = q := by
  rw [h.initial]
  refine Path.rename_iff (S := {p | ∃ w, Path a.Edge a.initial w p}) (fun p hp l q edge => ?_)
    (fun p hp l q => ?_) ⟨[], .refl _⟩
  · obtain ⟨w, hw⟩ := hp
    exact ⟨_, hw.trans (.single edge)⟩
  · obtain ⟨w, hw⟩ := hp
    exact h.edge p w hw l q

theorem exists_path_iff : (∃ q, Path b.Edge b.initial w q) ↔ ∃ p, Path a.Edge a.initial w p := by
  simp only [h.path_iff]
  exact ⟨fun ⟨_, p, hp, _⟩ => ⟨p, hp⟩, fun ⟨p, hp⟩ => ⟨_, p, hp, rfl⟩⟩

theorem path_rename_iff (hp : Path a.Edge a.initial v p) :
    Path b.Edge b.initial w (rename p) ↔ Path a.Edge a.initial w p := by
  rw [h.path_iff]
  constructor
  · intro hresult
    obtain ⟨q, hq, heq⟩ := hresult
    exact h.injective ⟨w, hq⟩ ⟨v, hp⟩ heq ▸ hq
  · exact fun hpath => ⟨p, hpath, rfl⟩

/-- The same words lead to the same states. -/
theorem same_iff : (∀ q, Path b.Edge b.initial u q ↔ Path b.Edge b.initial v q) ↔
    ∀ p, Path a.Edge a.initial u p ↔ Path a.Edge a.initial v p := by
  constructor
  · intro hsame p
    constructor
    · exact fun hu => (h.path_rename_iff hu).1 ((hsame _).1 ((h.path_rename_iff hu).2 hu))
    · exact fun hv => (h.path_rename_iff hv).1 ((hsame _).2 ((h.path_rename_iff hv).2 hv))
  · intro hsame q
    simp only [h.path_iff, hsame]

theorem spells_iff {id : TerminalId} : b.Spells w id ↔ a.Spells w id := by
  simp only [Spells, h.path_iff]
  constructor
  · intro hresult
    obtain ⟨_, ⟨p, hp, rfl⟩, hid⟩ := hresult
    exact ⟨p, hp, h.terminal p w hp ▸ hid⟩
  · intro hresult
    obtain ⟨p, hp, hid⟩ := hresult
    exact ⟨rename p, ⟨p, hp, rfl⟩, (h.terminal p w hp).trans hid⟩

theorem accepts_eq (ha : a.WellFormed) (hb : b.WellFormed) (w : List Symbol) : b.accepts w = a.accepts w := by
  refine Option.ext fun id => ?_
  simp only [accepts_eq_some_iff ha, accepts_eq_some_iff hb, h.spells_iff]

theorem ambiguous_iff : b.Ambiguous w ↔ a.Ambiguous w := by
  simp only [Ambiguous, h.spells_iff]

/-- As many sets are within reach. -/
theorem ncard_within_eq (ha : a.WellFormed) (hb : b.WellFormed) :
    {set | b.Within set}.ncard = {set | a.Within set}.ncard := by
  have himage {c : Automaton} (hc : c.WellFormed) :
      {set | c.Within set} = c.after '' {w | ∃ q, Path c.Edge c.initial w q} := by
    ext set
    constructor
    · intro hset
      obtain ⟨w, hw, q, hq⟩ := hset
      exact ⟨w, ⟨q, (mem_after hc).1 (hw ▸ hq)⟩, hw⟩
    · intro hset
      obtain ⟨w, ⟨q, hq⟩, hw⟩ := hset
      exact ⟨w, hw, q, hw ▸ (mem_after hc).2 hq⟩
  rw [himage ha, himage hb]
  simp only [h.exists_path_iff]
  refine ncard_image_eq fun u v => ?_
  rw [after_eq_iff ha, after_eq_iff hb, h.same_iff]

end Renumbers

/-- The subset construction succeeds if there are not too many sets within reach, and no ambiguous word under
the strict policy. -/
theorem exists_subsetConstruction_of_unambiguous (ha : a.WellFormed) (hfew : ¬ a.Overflows)
    (hnone : a.config.ambiguity = .strict → ∀ w, ¬ a.Ambiguous w) : ∃ d, a.subsetConstruction = .ok d := by
  cases hpolicy : a.config.ambiguity with
  | firstDeclared => exact exists_subsetConstruction ha hpolicy hfew
  | strict =>
    rcases subsetConstruction_strict ha hpolicy hfew with ⟨-, d, -, hd, -⟩ | ⟨w, -, -, hw, -⟩
    · exact ⟨d, hd⟩
    · exact absurd hw.1 (hnone hpolicy w)

private theorem not_ambiguous_of_subsetConstruction (ha : a.WellFormed) (hstrict : a.config.ambiguity = .strict)
    (h : a.subsetConstruction = .ok d) (w : List Symbol) : ¬ a.Ambiguous w := by
  have hfew : ¬ a.Overflows := by
    intro hoverflows
    rw [(subsetConstruction_eq_stateLimit_iff ha).2 ⟨rfl, hoverflows⟩] at h
    simp at h
  rcases subsetConstruction_strict ha hstrict hfew with ⟨hnone, -⟩ | ⟨_, _, _, -, -, herror⟩
  · exact hnone w
  · rw [herror] at h
    simp at h

/-- An automaton that only has other numbers leads to the same states, in the same order. -/
theorem Renumbers.exists_subsetConstruction (h : Renumbers rename a b) (ha : a.WellFormed) (hb : b.WellFormed)
    (hpolicy : b.config.ambiguity = a.config.ambiguity) (hd : a.subsetConstruction = .ok d)
    (hroom : d.size ≤ max 1 b.config.stateLimit) : ∃ e, b.subsetConstruction = .ok e ∧ e.states = d.states := by
  obtain ⟨e, he⟩ : ∃ e, b.subsetConstruction = .ok e := by
    refine exists_subsetConstruction_of_unambiguous hb ?_ fun hstrict w hw => ?_
    · rw [overflows_iff, h.ncard_within_eq ha hb, ← size_subsetConstruction ha hd]
      exact Nat.not_lt.2 hroom
    · exact not_ambiguous_of_subsetConstruction ha (hpolicy ▸ hstrict) hd w (h.ambiguous_iff.1 hw)
  obtain ⟨subsets, hdrep⟩ := subsetConstruction_represents ha hd
  obtain ⟨subsets', herep⟩ := subsetConstruction_represents hb he
  have hdordered := subsetConstruction_breadthFirst ha hd
  have heordered := subsetConstruction_breadthFirst hb he
  have hdwf := hdrep.wellFormed ha
  have hewf := herep.wellFormed hb
  have hrun (w : List Symbol) : e.run? e.initial w = d.run? d.initial w := by
    refine heordered.run?_eq hdordered hewf hdwf (fun w => ?_) (fun u v => ?_) w
    · rw [hdrep.isSome_run?_iff ha, herep.isSome_run?_iff hb, h.exists_path_iff]
    · rw [hdrep.run?_eq_iff ha, herep.run?_eq_iff hb, h.same_iff]
  refine ⟨e, he, heordered.states_eq hdordered hewf hdwf herep.noEpsilon hdrep.noEpsilon hrun fun w => ?_⟩
  rw [herep.accepts_eq hb, hdrep.accepts_eq ha, h.accepts_eq ha hb]

/-- The subset construction fails for the same reason if only numbers differ. -/
theorem Renumbers.subsetConstruction_eq_error (h : Renumbers rename a b) (ha : a.WellFormed) (hb : b.WellFormed)
    (hconfig : b.config = a.config) (hterminals : b.terminals = a.terminals) {error : ConstructionError}
    (herror : a.subsetConstruction = .error error) : b.subsetConstruction = .error error := by
  have hoverflows : b.Overflows ↔ a.Overflows := by
    rw [overflows_iff, overflows_iff, h.ncard_within_eq ha hb, hconfig]
  by_cases hmany : a.Overflows
  · obtain rfl : .stateLimit a.config.stateLimit = error :=
      Except.error.inj (((subsetConstruction_eq_stateLimit_iff ha).2 ⟨rfl, hmany⟩).symm.trans herror)
    exact (subsetConstruction_eq_stateLimit_iff hb).2 ⟨hconfig ▸ rfl, hoverflows.2 hmany⟩
  · have hstrict : a.config.ambiguity = .strict := by
      cases hpolicy : a.config.ambiguity with
      | strict => rfl
      | firstDeclared =>
        obtain ⟨d, hd⟩ := Automaton.exists_subsetConstruction ha hpolicy hmany
        simp [hd] at herror
    rcases subsetConstruction_strict ha hstrict hmany with ⟨-, d, -, hd, -⟩ | ⟨w, first, second, hw, hrivals, hresult⟩
    · simp [hd] at herror
    rcases subsetConstruction_strict hb (hconfig ▸ hstrict) (mt hoverflows.1 hmany) with
      ⟨hnone, -⟩ | ⟨w', first', second', hw', hrivals', hresult'⟩
    · exact absurd (h.ambiguous_iff.2 hw.1) (hnone w)
    -- The least ambiguous word is the same one, and so are the first two terminals that it is spelled for.
    obtain rfl : w' = w := by
      by_contra hne
      exact hw'.not_before (h.ambiguous_iff.2 hw.1) (hw.2 w' (h.ambiguous_iff.1 hw'.1) hne)
    have hleast := hrivals.isLeast ha
    have hleast' := hrivals'.isLeast hb
    simp only [h.spells_iff] at hleast'
    obtain rfl := hleast'.1.unique hleast.1
    obtain rfl := hleast'.2.unique hleast.2
    rw [hresult', rivalry, hterminals, ← rivalry, ← hresult, herror]

/-- The whole outcome of the subset construction is the same if only numbers differ. -/
theorem Renumbers.subsetConstruction_eq (h : Renumbers rename a b) (ha : a.WellFormed) (hb : b.WellFormed)
    (hconfig : b.config = a.config) (hterminals : b.terminals = a.terminals) :
    b.subsetConstruction = a.subsetConstruction := by
  cases hd : a.subsetConstruction with
  | error error => exact h.subsetConstruction_eq_error ha hb hconfig hterminals hd
  | ok d =>
    obtain ⟨subsets, hdrep⟩ := subsetConstruction_represents ha hd
    have hroom : d.size ≤ max 1 b.config.stateLimit := by
      rw [hdrep.size_eq, hconfig]
      exact hdrep.size_le
    obtain ⟨e, he, hstates⟩ := h.exists_subsetConstruction ha hb (congrArg _ hconfig) hd hroom
    obtain ⟨subsets', herep⟩ := subsetConstruction_represents hb he
    rw [he, herep.eq_frozen, hdrep.eq_frozen, frozen, frozen, hstates, hconfig, hterminals]

/-- The numbers of the states of a deterministic automaton are canonical: some word leads to each of them from
state 0, they are in the order of the least such words, and words lead to one of them exactly if they lead to the
same states of the given automaton. An automaton in which the same states are within reach under other numbers
leads to the same states, unless its own state limit does not allow for so many. -/
theorem determinize_numbers (ha : a.WellFormed) (hmutable : a.deterministic = false)
    (h : a.determinize = .ok d) : d.initial = 0 ∧ (∀ i < d.size, ∃ u, d.LeastTo i u) ∧
      (∀ i j u v, d.LeastTo i u → d.LeastTo j v → (i < j ↔ Before u v)) ∧
      (∀ u v, d.run? d.initial u = d.run? d.initial v ↔
        ∀ q, Path a.Edge a.initial u q ↔ Path a.Edge a.initial v q) ∧
      ∀ b rename, b.WellFormed → b.deterministic = false → Renumbers rename a b →
        b.config.ambiguity = a.config.ambiguity → d.size ≤ max 1 b.config.stateLimit →
          ∃ e, b.determinize = .ok e ∧ e.states = d.states := by
  rw [determinize_eq_subsetConstruction hmutable] at h
  obtain ⟨subsets, hrep⟩ := subsetConstruction_represents ha h
  have hordered := subsetConstruction_breadthFirst ha h
  have hd := hrep.wellFormed ha
  refine ⟨hrep.initial_eq, fun i hi => hordered.exists_leastTo hd hi,
    fun i j u v hu hv => hordered.lt_iff_before hd hu hv, fun u v => hrep.run?_eq_iff ha, ?_⟩
  intro b rename hb hbmutable hrenumbers hpolicy hroom
  rw [determinize_eq_subsetConstruction hbmutable]
  exact hrenumbers.exists_subsetConstruction ha hb hpolicy h hroom

/-- One or more letters `a`, declared after a definition that nothing uses. -/
def lettersBehindSpare : Automaton :=
  (Builder.apply (do
    Builder.addDefinition "SPARE" (Builder.string "xy")
    Builder.addTerminal "LETTERS" (Builder.literal (.ofChar 'a') >>= Builder.plus)) {}).2

/-- The states of the definition come before all states but the initial one. -/
def behindSpare (p : Nat) : Nat := if p = 0 then 0 else p + 3

private theorem strictMono_behindSpare : StrictMono behindSpare := by
  intro p q hlt
  unfold behindSpare
  split <;> split <;> omega

private theorem renumbers_letters : Renumbers behindSpare letters lettersBehindSpare := by
  obtain ⟨config, hgrows⟩ := constructed_letters.grows
  have hembeds : Embeds behindSpare {p | p < letters.size} letters lettersBehindSpare := by
    refine ⟨strictMono_behindSpare, fun p _ q hq => successorsOf_lt hgrows.wellFormed hq, ?_⟩
    show ∀ p < letters.size, _
    decide +kernel
  exact hembeds.renumbers hgrows.wellFormed hgrows.wellFormed.initial_lt (by decide +kernel)

theorem determinize_numbers_letters : letters.WellFormed ∧ letters.deterministic = false ∧
    ∃ d, letters.determinize = .ok d ∧ (d.initial = 0 ∧ (∀ i < d.size, ∃ u, d.LeastTo i u) ∧
      (∀ i j u v, d.LeastTo i u → d.LeastTo j v → (i < j ↔ Before u v)) ∧
      (∀ u v, d.run? d.initial u = d.run? d.initial v ↔
        ∀ q, Path letters.Edge letters.initial u q ↔ Path letters.Edge letters.initial v q)) ∧
      ∃ e, lettersBehindSpare.determinize = .ok e ∧ e.states = d.states := by
  obtain ⟨config, hgrows⟩ := constructed_letters.grows
  have hspare : lettersBehindSpare.Constructed :=
    ⟨{}, _, _, .bind (.addDefinition _ (.string _)) fun _ => .addTerminal _ (.bind (.literal _) fun _ => .plus _), rfl⟩
  obtain ⟨config', hgrows'⟩ := hspare.grows
  obtain ⟨d, hd⟩ : ∃ d, letters.determinize = .ok d :=
    exists_determinize_of_size hgrows.wellFormed (by decide +kernel) (by decide +kernel)
  have hsize : d.size ≤ max 1 lettersBehindSpare.config.stateLimit := by
    rw [determinize_eq_subsetConstruction hgrows.deterministic] at hd
    obtain ⟨subsets, hrep⟩ := subsetConstruction_represents hgrows.wellFormed hd
    rw [hrep.size_eq, show lettersBehindSpare.config = letters.config by decide +kernel]
    exact hrep.size_le
  obtain ⟨hinitial, hleast, hbefore, hsame, hnumbers⟩ :=
    determinize_numbers hgrows.wellFormed hgrows.deterministic hd
  exact ⟨hgrows.wellFormed, hgrows.deterministic, d, hd, ⟨hinitial, hleast, hbefore, hsame⟩,
    hnumbers lettersBehindSpare _ hgrows'.wellFormed hgrows'.deterministic renumbers_letters (by decide +kernel) hsize⟩

end Automaton

end TableLexer
