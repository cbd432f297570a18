import TableLexer.Proofs.Automaton.Alike
import TableLexer.Proofs.Automaton.Subset

/-! Subset construction and merging number states as they are found from the initial one, breadth first. -/
namespace TableLexer

/-- The targets of lists of edges, in order. -/
def targetsOf (rows : List (List (Symbol × StateId))) : List StateId := rows.flatMap (·.map (·.2))

@[simp] theorem targetsOf_append (rows rows' : List (List (Symbol × StateId))) :
    targetsOf (rows ++ rows') = targetsOf rows ++ targetsOf rows' := List.flatMap_append

@[simp] theorem targetsOf_singleton (row : List (Symbol × StateId)) : targetsOf [row] = row.map (·.2) :=
  List.flatMap_singleton ..

namespace Automaton

variable {a d : Automaton}

/-- The edges of the states, in order. -/
def rows (a : Automaton) : List (List (Symbol × StateId)) := a.states.toList.map (·.transitions)

/-- The states that are found, each time they are found, by going through the edges of the first states. -/
def foundBy (a : Automaton) (n : Nat) : List StateId := a.initial :: targetsOf (a.rows.take n)

/-- States have the numbers in which they are found from the initial one, and none is gone through before it
is found. -/
structure BreadthFirst (a : Automaton) : Prop where
  numbered : Numbered (a.foundBy a.size) a.size
  found : ∀ i < a.size, i ∈ a.foundBy i

theorem getElem?_rows (a : Automaton) (i : Nat) : a.rows[i]? = (a.state? i).map (·.transitions) := by
  simp [rows, state?]

theorem foundBy_size (a : Automaton) : a.foundBy a.size = a.initial :: targetsOf a.rows := by
  rw [foundBy, List.take_of_length_le (by simp [rows, size])]

/-- The first states lead to what is found by going through their edges. -/
theorem mem_foundBy (ha : a.WellFormed) {i n : Nat} :
    i ∈ a.foundBy n ↔ i = a.initial ∨ ∃ j < n, ∃ s, a.transition? j s = some i := by
  rw [foundBy, List.mem_cons, targetsOf, List.mem_flatMap]
  refine or_congr_right ?_
  constructor
  · intro h
    obtain ⟨row, hrow, hi⟩ := h
    obtain ⟨j, hj⟩ := List.mem_iff_getElem?.1 hrow
    obtain ⟨⟨s, _⟩, hedge, rfl⟩ := List.mem_map.1 hi
    rw [List.getElem?_take, Option.ite_none_right_eq_some, getElem?_rows] at hj
    obtain ⟨hlt, hj⟩ := hj
    obtain ⟨state, hstate, rfl⟩ := Option.map_eq_some_iff.1 hj
    refine ⟨j, hlt, s, ?_⟩
    rw [transition?, hstate]
    exact (ha.sound j state hstate).ascending.lookup_eq_some_iff.2 hedge
  · intro h
    obtain ⟨j, hj, s, hs⟩ := h
    obtain ⟨state, hstate, hs⟩ := Option.bind_eq_some_iff.1 hs
    refine ⟨state.transitions, List.mem_iff_getElem?.2 ⟨j, ?_⟩, List.mem_map.2 ⟨(s, i), ?_, rfl⟩⟩
    · rw [List.getElem?_take, if_pos hj, getElem?_rows, hstate, Option.map_some]
    · exact (ha.sound j state hstate).ascending.lookup_eq_some_iff.1 hs

section subsets

variable {set : StateSet} {s : Symbol} {found found' : Discovery} {before : List StateId}

/-- A subset is numbered by when it is asked for first. -/
private theorem numberOf_numbered (hfound : found.Valid a) (h : Numbered before found.subsets.size) {i : StateId}
    (hrun : (a.numberOf set).run found = .ok (i, found')) : Numbered (before ++ [i]) found'.subsets.size := by
  rw [run_numberOf] at hrun
  split at hrun
  · next id hid =>
    obtain ⟨rfl, rfl⟩ := Prod.mk.inj (Except.ok.inj hrun)
    obtain ⟨set', hset', -⟩ := (hfound.numbered _ _).1 hid
    exact h.known (Array.getElem?_eq_some_iff.1 hset').1
  · split at hrun
    · simp at hrun
    · obtain ⟨rfl, rfl⟩ := Prod.mk.inj (Except.ok.inj hrun)
      rw [Discovery.found, Array.size_push]
      exact h.next

private theorem edge?_numbered (ha : a.WellFormed) (hfound : found.Valid a) (h : Numbered before found.subsets.size)
    {edge : Option (Symbol × StateId)}
    (hrun : (a.edge? (a.targets set) s).run found = .ok (edge, found')) :
    Numbered (before ++ edge.toList.map (·.2)) found'.subsets.size := by
  unfold edge? at hrun
  split at hrun
  · obtain ⟨rfl, rfl⟩ := Prod.mk.inj (Except.ok.inj hrun)
    simpa using h
  · obtain ⟨-, hrem⟩ := closure_targets ha hfound.remembered set s
    obtain ⟨target, found₁, hclosure, hrun⟩ := stateT_bind_eq_ok_iff.1 hrun
    obtain ⟨rfl, rfl⟩ := Prod.mk.inj (Except.ok.inj hclosure)
    obtain ⟨i, found₂, hnumber, hrun⟩ := stateT_bind_eq_ok_iff.1 hrun
    obtain ⟨rfl, rfl⟩ := Prod.mk.inj (Except.ok.inj hrun)
    exact numberOf_numbered (hfound.remember hrem) h hnumber

private theorem filterMapM_edge?_numbered (ha : a.WellFormed) {symbols : List Symbol} (hfound : found.Valid a)
    (h : Numbered before found.subsets.size) {row : List (Symbol × StateId)}
    (hrun : (symbols.filterMapM (a.edge? (a.targets set))).run found = .ok (row, found')) :
    Numbered (before ++ row.map (·.2)) found'.subsets.size := by
  induction symbols generalizing found before row with
  | nil =>
    obtain ⟨rfl, rfl⟩ := Prod.mk.inj (Except.ok.inj hrun)
    simpa using h
  | cons s symbols ih =>
    rw [List.filterMapM_cons] at hrun
    obtain ⟨edge, found₁, hedge, hrun⟩ := stateT_bind_eq_ok_iff.1 hrun
    have hnext := edge?_numbered ha hfound h hedge
    have hfound₁ := (edge?_spec ha hfound hedge).1
    cases edge with
    | none =>
      rw [Option.toList_none, List.map_nil, List.append_nil] at hnext
      exact ih hfound₁ hnext hrun
    | some edge =>
      obtain ⟨rest, found₂, hrest, hrun⟩ := stateT_bind_eq_ok_iff.1 hrun
      obtain ⟨rfl, rfl⟩ := Prod.mk.inj (Except.ok.inj hrun)
      simpa using ih hfound₁ hnext hrest

/-- The subsets are numbered in the order in which the rows name them, and every row is that of a subset that
the rows before it name. -/
theorem discover_numbered (ha : a.WellFormed) {fuel : Nat} {rows rows' : Array (List (Symbol × StateId))}
    (hfound : found.Valid a) (h : Numbered (0 :: targetsOf rows.toList) found.subsets.size)
    (hrows : ∀ i < rows.size, i ∈ 0 :: targetsOf (rows.toList.take i))
    (hrun : (a.discover fuel rows).run found = .ok (rows', found')) :
    Numbered (0 :: targetsOf rows'.toList) found'.subsets.size ∧
      ∀ i < rows'.size, i ∈ 0 :: targetsOf (rows'.toList.take i) := by
  induction fuel generalizing rows found with
  | zero =>
    obtain ⟨rfl, rfl⟩ := Prod.mk.inj (Except.ok.inj hrun)
    exact ⟨h, hrows⟩
  | succ fuel ih =>
    rw [discover] at hrun
    obtain ⟨found₁, found₂, hget, hrun⟩ := stateT_bind_eq_ok_iff.1 hrun
    obtain ⟨rfl, rfl⟩ := Prod.mk.inj (Except.ok.inj hget)
    split at hrun
    · obtain ⟨rfl, rfl⟩ := Prod.mk.inj (Except.ok.inj hrun)
      exact ⟨h, hrows⟩
    · next set hset =>
      obtain ⟨row, found₃, hedges, hrun⟩ := stateT_bind_eq_ok_iff.1 hrun
      have hrow := filterMapM_edge?_numbered ha hfound h hedges
      refine ih (edges_spec ha hfound hedges).1 ?_ ?_ hrun
      · rw [Array.toList_push, targetsOf_append, targetsOf_singleton]
        exact hrow
      · intro i hi
        rw [Array.size_push] at hi
        rw [Array.toList_push, List.take_append_of_le_length (by simpa using Nat.le_of_lt_succ hi)]
        by_cases hlast : i = rows.size
        · rw [List.take_of_length_le (by simp [hlast]), h.mem_iff, hlast]
          exact (Array.getElem?_eq_some_iff.1 hset).1
        · exact hrows i (by omega)

theorem subsetConstruction_breadthFirst (ha : a.WellFormed) (h : a.subsetConstruction = .ok d) :
    d.BreadthFirst := by
  obtain ⟨rows, found, list, hdiscover, hlist, rfl⟩ := exists_of_subsetConstruction ha h
  have hfirst := Discovery.first_valid ha
  obtain ⟨-, -, -, hsize⟩ := discover_spec ha hfirst (fun i row hi => by simp at hi) (by simp) hdiscover
  obtain ⟨hnumbered, hfound⟩ := discover_numbered ha hfirst
    (by simpa [targetsOf, Discovery.first] using Numbered.nil.next) (by simp) hdiscover
  have hrows : (a.frozen list.toArray 0).rows = rows.toList := by
    have hall : List.Forall₂ (fun q pair => q.transitions = pair.2) list (found.subsets.zip rows).toList :=
      (mapM_eq_ok_iff.1 hlist).flip.imp fun _ _ h => (subsetState_eq_ok h).1
    have hsnd : (found.subsets.zip rows).toList.map Prod.snd = rows.toList := by
      rw [Array.toList_zip, List.map_snd_zip (by simp [hsize])]
    rw [← hsnd]
    simpa [← List.forall₂_eq_eq_eq, Automaton.rows, frozen] using hall
  have hlength : (a.frozen list.toArray 0).size = rows.size := by
    simpa [Automaton.rows, frozen, size] using congrArg List.length hrows
  constructor
  · rw [foundBy_size, hrows, hlength, hsize]
    exact hnumbered
  · intro i hi
    rw [foundBy, hrows]
    exact hfound i (hlength ▸ hi)

end subsets

section merged

variable (hd : d.WellFormed)
include hd

private theorem blocks_eq_map : d.blocks = (List.range d.size).map d.blockOf := by
  have hlength := (partitions_blocks hd).length_eq
  refine List.ext_getElem? fun i => ?_
  by_cases hi : i < d.size
  · simp [getElem?_blocks hd hi, hi]
  · rw [List.getElem?_eq_none (by omega), List.getElem?_eq_none (by simpa using hi)]

/-- States of one block have the same edges once these are renamed. -/
private theorem renamed_transitions_eq {p q : StateId} {state state' : State} (hp : d.state? p = some state)
    (hq : d.state? q = some state') (hblock : d.blockOf p = d.blockOf q) :
    (state.renamed d.blockOf).transitions = (state'.renamed d.blockOf).transitions := by
  have hsound := hd.sound p state hp
  have hsound' := hd.sound q state' hq
  refine State.Ascending.ext (hsound.ascending.filterMap _) (hsound'.ascending.filterMap _) fun s => ?_
  have hsame := same_transition hd (lt_size_of_state? hp) (lt_size_of_state? hq) hblock s
  rw [transition?, transition?, hp, hq, Option.bind_some, Option.bind_some] at hsame
  calc (state.renamed d.blockOf).transition s
    _ = (state.transition s).map d.blockOf := by
      rw [State.renamed, State.transition_restricted hsound.ascending, Option.map_eq_bind]
    _ = (state'.transition s).map d.blockOf := hsame
    _ = (state'.renamed d.blockOf).transition s := by
      rw [State.renamed, State.transition_restricted hsound'.ascending, Option.map_eq_bind]

/-- The targets of a state's edges, given by their blocks. -/
def targetBlocks (d : Automaton) (q : State) : List Nat := (q.renamed d.blockOf).transitions.map (·.2)

omit hd in
private theorem map_blockOf_foundBy (d : Automaton) :
    (d.foundBy d.size).map d.blockOf = [d.blockOf d.initial] ++ d.states.toList.flatMap d.targetBlocks := by
  rw [foundBy_size, targetsOf, rows, List.flatMap_map, List.map_cons, List.map_flatMap, List.singleton_append]
  refine congrArg (d.blockOf d.initial :: d.states.toList.flatMap ·) (funext fun q => ?_)
  simp [targetBlocks, State.renamed, State.restricted]

omit hd in
private theorem foundBy_merged (d : Automaton) : d.merged.foundBy d.merged.size =
    [d.blockOf d.initial] ++ (firstOfEach d.states.toList d.blocks).toList.flatMap d.targetBlocks := by
  rw [foundBy_size, targetsOf, rows, List.flatMap_map]
  simp only [merged, frozen, Array.toList_map, List.flatMap_map]
  rfl

private theorem targetBlocks_eq {n : Nat} {x y : State} (hx : (x, n) ∈ d.states.toList.zip d.blocks)
    (hy : (y, n) ∈ d.states.toList.zip d.blocks) : d.targetBlocks x = d.targetBlocks y := by
  obtain ⟨p, hp⟩ := List.mem_iff_getElem?.1 hx
  obtain ⟨q, hq⟩ := List.mem_iff_getElem?.1 hy
  obtain ⟨hx, hpn⟩ := List.getElem?_zip_eq_some.1 hp
  obtain ⟨hy, hqn⟩ := List.getElem?_zip_eq_some.1 hq
  rw [Array.getElem?_toList] at hx hy
  rw [getElem?_blocks hd (lt_size_of_state? hx)] at hpn
  rw [getElem?_blocks hd (lt_size_of_state? hy)] at hqn
  have hblock := Option.some.inj (hpn.trans hqn.symm)
  exact congrArg (List.map (·.2)) (renamed_transitions_eq hd hx hy hblock)

/-- Merging keeps the order: the blocks are numbered as the first of their states are. -/
theorem merged_breadthFirst (h : d.BreadthFirst) : d.merged.BreadthFirst := by
  constructor
  · have hblocks := numbered_blocks hd
    have himage : Numbered ((d.foundBy d.size).map d.blockOf) d.merged.size :=
      h.numbered.map (blocks_eq_map hd ▸ hblocks)
    rw [map_blockOf_foundBy] at himage
    rw [foundBy_merged]
    exact firstOfEach_flatMap hblocks (length_states hd) (fun n x y => targetBlocks_eq hd) himage
  · intro n hn
    obtain ⟨i, hi, hbefore⟩ := (numbered_blocks hd).exists_first hn
    have hlt : i < d.size := (partitions_blocks hd).length_eq ▸ (List.getElem?_eq_some_iff.1 hi).1
    obtain rfl := Option.some.inj ((getElem?_blocks hd hlt).symm.trans hi)
    rw [mem_foundBy (merged_wellFormed hd)]
    rcases (mem_foundBy hd).1 (h.found i hlt) with rfl | ⟨j, hj, s, hs⟩
    · exact .inl rfl
    · have hj' := hj.trans hlt
      refine .inr ⟨d.blockOf j, hbefore j hj _ (getElem?_blocks hd hj'), s, ?_⟩
      rw [(merged_mirrors hd).transition j hj' s, hs, Option.map_some]

end merged

end Automaton

end TableLexer
