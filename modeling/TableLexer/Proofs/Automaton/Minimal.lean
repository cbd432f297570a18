import TableLexer.Automaton.Minimal
import TableLexer.Proofs.Automaton.Deterministic
import TableLexer.Proofs.FirstOccurrence
import TableLexer.Proofs.Outcome
import TableLexer.Proofs.Symbol

/-! Merging the blocks of a partition that is refined until it is stable changes nothing but the
names of the states. -/
namespace TableLexer

namespace Automaton

/-- The targets of a state's edges, given by their blocks. -/
def blockTargets (blocks : List Nat) (targets : List (Option StateId)) : List (Option Nat) :=
  targets.map (Option.map (blocks.toArray.getD · 0))

/-- States of one block lead to the same blocks. -/
def Stable (targets : List (List (Option StateId))) (blocks : List Nat) : Prop :=
  ∀ i j : Nat, blocks[i]? = blocks[j]? →
    (targets[i]?).map (blockTargets blocks) = (targets[j]?).map (blockTargets blocks)

section refine

variable {targets : List (List (Option StateId))} {blocks finer : List Nat} {count : Nat}

/-- What a round makes of some blocks: those of states in the same block that lead to the same blocks. -/
theorem round_eq_iff (hlength : blocks.length = targets.length) (i j : Nat) :
    (classify (blocks.zipWith (blockKey blocks.toArray) targets)).1[i]? =
        (classify (blocks.zipWith (blockKey blocks.toArray) targets)).1[j]? ↔
      blocks[i]? = blocks[j]? ∧
        (targets[i]?).map (blockTargets blocks) = (targets[j]?).map (blockTargets blocks) := by
  rw [classify_eq_iff, List.getElem?_zipWith, List.getElem?_zipWith]
  by_cases hi : i < targets.length <;> by_cases hj : j < targets.length
  · simp [hi, hj, hlength, blockKey, blockTargets]
  · simp [hi, hj, hlength]
  · simp [hi, hj, hlength]
  · simp [hi, hj, hlength]

theorem length_round (hlength : blocks.length = targets.length) :
    (classify (blocks.zipWith (blockKey blocks.toArray) targets)).1.length = targets.length := by
  rw [length_classify, List.length_zipWith, hlength, Nat.min_self]

/-- What every round keeps is kept to the end. -/
theorem refine_keeps (holds : List Nat → Prop) (hround : ∀ blocks, holds blocks →
      holds (classify (blocks.zipWith (blockKey blocks.toArray) targets)).1) (fuel : Nat) (count : Nat)
    (h : holds blocks) : holds (refine targets fuel blocks count) := by
  induction fuel generalizing blocks count with
  | zero => exact h
  | succ fuel ih =>
    unfold refine
    dsimp only
    split
    · exact hround blocks h
    · exact ih _ (hround blocks h)

/-- If the blocks of the targets agree for one partition, they agree for a coarser one. -/
theorem blockTargets_congr (hlength : finer.length = blocks.length) (hrefines : Refines finer blocks)
    {left right : List (Option StateId)}
    (hleft : ∀ id, some id ∈ left → id < finer.length) (hright : ∀ id, some id ∈ right → id < finer.length)
    (h : blockTargets finer left = blockTargets finer right) :
    blockTargets blocks left = blockTargets blocks right := by
  obtain ⟨f, hf⟩ := hrefines.exists_map hlength
  have hmap (ids : List (Option StateId)) (hids : ∀ id, some id ∈ ids → id < finer.length) :
      blockTargets blocks ids = (blockTargets finer ids).map (Option.map f) := by
    unfold blockTargets
    rw [List.map_map]
    refine List.map_congr_left fun id hid => ?_
    cases id with
    | none => rfl
    | some id =>
      have hlt := hids id hid
      have hfid := hf id _ (List.getElem?_eq_getElem hlt)
      simp [Array.getD_eq_getD_getElem?, hfid, hlt]
  rw [hmap left hleft, hmap right hright, h]

/-- The blocks that no further round would split. -/
theorem refine_spec (fuel : Nat) (hblocks : Numbered blocks count) (hlength : blocks.length = targets.length)
    (hlt : ∀ ids ∈ targets, ∀ id, some id ∈ ids → id < targets.length)
    (hfuel : targets.length < count + fuel) :
    (refine targets fuel blocks count).length = targets.length ∧
      (∃ n, Numbered (refine targets fuel blocks count) n) ∧
      Refines (refine targets fuel blocks count) blocks ∧ Stable targets (refine targets fuel blocks count) := by
  induction fuel generalizing blocks count with
  | zero =>
    have := hblocks.count_le
    omega
  | succ fuel ih =>
    unfold refine
    have hround := round_eq_iff hlength
    have hfiner := length_round hlength
    have hnumbered := classify_numbered (blocks.zipWith (blockKey blocks.toArray) targets)
    generalize classify (blocks.zipWith (blockKey blocks.toArray) targets) = result at *
    obtain ⟨finer, finerCount⟩ := result
    dsimp only at *
    have hrefines : Refines finer blocks := fun i j heq => ((hround i j).1 heq).1
    have hsame : finer.length = blocks.length := hfiner.trans hlength.symm
    split
    · next hcount =>
      subst hcount
      have hback := hnumbered.refines_of_refines hblocks hsame hrefines
      refine ⟨hfiner, ⟨_, hnumbered⟩, hrefines, fun i j heq => ?_⟩
      have htargets := ((hround i j).1 heq).2
      cases hi : targets[i]? with
      | none => simpa [hi, eq_comm] using htargets
      | some left =>
        cases hj : targets[j]? with
        | none => simp [hi, hj] at htargets
        | some right =>
          have hmem (k : Nat) (ids : List (Option StateId)) (hk : targets[k]? = some ids) (id : StateId)
              (hid : some id ∈ ids) : id < blocks.length := hlength ▸ hlt ids (List.mem_of_getElem? hk) id hid
          have heq : blockTargets blocks left = blockTargets blocks right := by simpa [hi, hj] using htargets
          exact congrArg some (blockTargets_congr hsame.symm hback (hmem i left hi) (hmem j right hj) heq)
    · next hcount =>
      have hle := hnumbered.count_le_of_refines hblocks hsame hrefines
      obtain ⟨hlength', hnumbered', hrefines', hstable⟩ := ih hnumbered hfiner (by omega)
      exact ⟨hlength', hnumbered', hrefines'.trans hrefines, hstable⟩

end refine

section used

variable {used : Array Bool} {edges : List (Symbol × StateId)} {states : List State}

private def markSymbols (used : Array Bool) (edges : List (Symbol × StateId)) : Array Bool :=
  edges.foldl (fun used (s, _) => used.set! s.val true) used

private theorem markSymbols_spec (hsize : used.size = 256) : (markSymbols used edges).size = 256 ∧
    ∀ s : Symbol, (markSymbols used edges).getD s.val false = true ↔
      used.getD s.val false = true ∨ ∃ id, (s, id) ∈ edges := by
  induction edges generalizing used with
  | nil => simp [markSymbols, hsize]
  | cons edge edges ih =>
    obtain ⟨t, target⟩ := edge
    have hset : (used.set! t.val true).size = 256 := by simp [hsize]
    obtain ⟨hsize', hmark⟩ := ih hset
    refine ⟨hsize', fun s => (hmark s).trans ?_⟩
    have ht : t.val < used.size := by simp [hsize]
    simp only [Array.getD_eq_getD_getElem?, Array.set!_eq_setIfInBounds, Array.getElem?_setIfInBounds]
    by_cases hs : t = s
    · subst hs
      simp [ht]
    · have hval : t.val ≠ s.val := fun h => hs (Fin.ext h)
      simp [hval, Ne.symm hs]

private theorem foldl_markSymbols (hsize : used.size = 256) (s : Symbol) :
    (states.foldl (fun used q => markSymbols used q.transitions) used).getD s.val false = true ↔
      used.getD s.val false = true ∨ ∃ q ∈ states, ∃ id, (s, id) ∈ q.transitions := by
  induction states generalizing used with
  | nil => simp
  | cons q states ih =>
    obtain ⟨hsize', hmark⟩ := @markSymbols_spec used q.transitions hsize
    rw [List.foldl_cons, ih hsize', hmark]
    simp only [List.mem_cons, exists_eq_or_imp, or_assoc]

end used

variable {d : Automaton}

private theorem mem_usedSymbols {s : Symbol} :
    s ∈ d.usedSymbols ↔ ∃ q ∈ d.states.toList, ∃ id, (s, id) ∈ q.transitions := by
  have hmark := @foldl_markSymbols (Array.replicate 256 false) d.states.toList Array.size_replicate s
  rw [usedSymbols, List.mem_filter, ← Array.foldl_toList]
  simpa [Symbol.mem_all, markSymbols] using hmark

/-- The blocks that the states of a deterministic automaton fall into. -/
def blocks (d : Automaton) : List Nat :=
  let states := d.states.toList
  let (blocks, count) := classify (states.map acceptanceKey)
  refine (states.map fun q => d.usedSymbols.map q.transition) states.length blocks count

/-- The block of a state. -/
def blockOf (d : Automaton) (id : StateId) : Nat := d.blocks.toArray.getD id 0

/-- The automaton whose states are the blocks. -/
def merged (d : Automaton) : Automaton :=
  d.frozen ((firstOfEach d.states.toList d.blocks).map (·.renamed d.blockOf)) (d.blockOf d.initial)

theorem blocks_eq (d : Automaton) : d.blocks =
    refine (d.states.toList.map fun q => d.usedSymbols.map q.transition) d.states.toList.length
      (classify (d.states.toList.map acceptanceKey)).1 (classify (d.states.toList.map acceptanceKey)).2 := rfl

theorem minimize_eq (hd : d.deterministic = true) : d.minimize = .ok d.merged := by
  unfold minimize
  rw [determinize, if_pos hd]
  rfl

/-- What holds of the blocks: they tell states apart that accept differently, and are stable. -/
structure Partitions (d : Automaton) (blocks : List Nat) : Prop where
  length_eq : blocks.length = d.size
  numbered : ∃ n, Numbered blocks n
  same_terminal : ∀ (i j : Nat) (p q : State), d.state? i = some p → d.state? j = some q →
    blocks[i]? = blocks[j]? → p.isFinal = q.isFinal ∧ p.terminal = q.terminal
  stable : Stable (d.states.toList.map fun q => d.usedSymbols.map q.transition) blocks

theorem mem_states_iff {q : State} : q ∈ d.states.toList ↔ ∃ i, d.state? i = some q := by
  simp [state?, Array.mem_iff_getElem?]

private theorem acceptanceKey_inj {p q : State} (h : acceptanceKey p = acceptanceKey q) :
    p.isFinal = q.isFinal ∧ p.terminal = q.terminal := by
  have h : p.isFinal.toNat = q.isFinal.toNat ∧ p.terminal = q.terminal := by simpa [acceptanceKey] using h
  refine ⟨?_, h.2⟩
  cases hp : p.isFinal <;> cases hq : q.isFinal <;> simp_all

private theorem WellFormed.target_lt (hd : d.WellFormed) {symbols : List Symbol} :
    ∀ ids ∈ d.states.toList.map (fun q => symbols.map q.transition), ∀ id, some id ∈ ids → id < d.size := by
  intro ids hids id hid
  obtain ⟨q, hq, rfl⟩ := List.mem_map.1 hids
  obtain ⟨s, -, hs⟩ := List.mem_map.1 hid
  obtain ⟨i, hi⟩ := mem_states_iff.1 hq
  have hsound := hd.sound i q hi
  exact hsound.successors_lt id ((State.mem_successors hsound.ascending).2 (.inl ⟨s, hs⟩))

theorem partitions_blocks (hd : d.WellFormed) : d.Partitions d.blocks := by
  have hnumbered := classify_numbered (d.states.toList.map acceptanceKey)
  have hlength := length_classify (d.states.toList.map acceptanceKey)
  have hkeys := classify_eq_iff (d.states.toList.map acceptanceKey)
  rw [blocks_eq]
  generalize classify (d.states.toList.map acceptanceKey) = result at *
  obtain ⟨first, count⟩ := result
  have hsize : d.states.toList.length = d.size := by simp [size]
  rw [List.length_map, hsize] at hlength
  have hpos : 0 < count := by
    have hzero : 0 < first.length := by
      rw [hlength]
      exact Nat.zero_lt_of_lt hd.initial_lt
    exact Nat.zero_lt_of_lt (hnumbered.lt_count (List.getElem?_eq_getElem hzero))
  have htargets : (d.states.toList.map fun q => d.usedSymbols.map q.transition).length = d.size := by
    rw [List.length_map, hsize]
  obtain ⟨hlength', hnumbered', hrefines, hstable⟩ :=
    refine_spec d.states.toList.length hnumbered (hlength.trans htargets.symm)
      (by rw [htargets]; exact hd.target_lt) (by omega)
  refine ⟨hlength'.trans htargets, hnumbered', fun i j p q hp hq heq => ?_, hstable⟩
  have hsame := (hkeys i j).1 (hrefines i j heq)
  have hkey (k : Nat) (r : State) (hr : d.state? k = some r) :
      (d.states.toList.map acceptanceKey)[k]? = some (acceptanceKey r) := by
    rw [List.getElem?_map, Array.getElem?_toList, show d.states[k]? = some r from hr]
    rfl
  rw [hkey i p hp, hkey j q hq] at hsame
  exact acceptanceKey_inj (Option.some.inj hsame)

/-- An automaton that does in the place of a state what another one does in the state. -/
structure Mirrors (m d : Automaton) (place : StateId → StateId) : Prop where
  initial : m.initial = place d.initial
  terminals : m.terminals = d.terminals
  transition : ∀ q < d.size, ∀ s, m.transition? (place q) s = (d.transition? q s).map place
  terminal : ∀ q < d.size, m.terminal? (place q) = d.terminal? q

theorem Mirrors.refl (a : Automaton) : a.Mirrors a id where
  initial := rfl
  terminals := rfl
  transition q _ s := by rw [Option.map_id]; rfl
  terminal q _ := rfl

section merged

variable (hd : d.WellFormed)
include hd

theorem getElem?_blocks {q : StateId} (hq : q < d.size) : d.blocks[q]? = some (d.blockOf q) := by
  have hlt : q < d.blocks.length := by rwa [(partitions_blocks hd).length_eq]
  simp [blockOf, Array.getD_eq_getD_getElem?, hlt]

theorem length_states : d.states.toList.length = d.blocks.length := by
  rw [(partitions_blocks hd).length_eq]
  simp [size]

theorem numbered_blocks : Numbered d.blocks d.merged.size := by
  obtain ⟨count, hcount⟩ := (partitions_blocks hd).numbered
  have hsize := (firstOfEach_spec hcount (length_states hd)).1
  have hmerged : d.merged.size = count := by simpa [merged, frozen, size] using hsize
  rwa [hmerged]

/-- The state of a block is made of some state of the block. -/
theorem exists_representative {n : Nat} (hn : n < d.merged.size) :
    ∃ (p : StateId) (state : State), d.state? p = some state ∧ d.blockOf p = n ∧
      d.merged.state? n = some (state.renamed d.blockOf) := by
  obtain ⟨p, hp, hitem⟩ := (firstOfEach_spec (numbered_blocks hd) (length_states hd)).2 n hn
  have hlt : p < d.size := (partitions_blocks hd).length_eq ▸ (List.getElem?_eq_some_iff.1 hp).1
  obtain ⟨state, hstate⟩ := exists_state? hlt
  refine ⟨p, state, hstate, Option.some.inj ((getElem?_blocks hd hlt).symm.trans hp), ?_⟩
  rw [Array.getElem?_toList, show d.states[p]? = some state from hstate] at hitem
  simp [merged, frozen, state?, hitem]

theorem size_merged_le : d.merged.size ≤ d.size := by
  rw [← (partitions_blocks hd).length_eq]
  exact (numbered_blocks hd).count_le

theorem blockOf_lt (q : StateId) : d.blockOf q < d.merged.size := by
  have hlt (p : StateId) (hp : p < d.size) : d.blockOf p < d.merged.size :=
    (numbered_blocks hd).lt_count (getElem?_blocks hd hp)
  by_cases hq : q < d.size
  · exact hlt q hq
  · have hnone : d.blocks.length ≤ q := by
      rw [(partitions_blocks hd).length_eq]
      exact Nat.not_lt.1 hq
    have hzero : d.blockOf q = 0 := by simp [blockOf, Array.getD_eq_getD_getElem?, hnone]
    rw [hzero]
    exact Nat.zero_lt_of_lt (hlt d.initial hd.initial_lt)

theorem merged_wellFormed : d.merged.WellFormed where
  initial_lt := blockOf_lt hd d.initial
  sound n q hq := by
    obtain ⟨p, state, hstate, -, hmerged⟩ := exists_representative hd (lt_size_of_state? hq)
    obtain rfl := Option.some.inj (hmerged.symm.trans hq)
    refine (hd.sound p state hstate).restricted fun old new hnew => ?_
    obtain rfl := Option.some.inj hnew
    exact blockOf_lt hd old
  owned name f hf := by simp [merged, frozen] at hf
  eof_first := hd.eof_first
  size_le := Nat.le_trans (size_merged_le hd) hd.size_le

/-- States of one block have the same edges but for the names of the blocks. -/
theorem same_transition {p q : StateId} (hp : p < d.size) (hq : q < d.size)
    (hblock : d.blockOf p = d.blockOf q) (s : Symbol) :
    (d.transition? p s).map d.blockOf = (d.transition? q s).map d.blockOf := by
  obtain ⟨state, hstate⟩ := exists_state? hp
  obtain ⟨state', hstate'⟩ := exists_state? hq
  simp only [transition?, hstate, hstate', Option.bind_some]
  by_cases hs : s ∈ d.usedSymbols
  · have heq : d.blocks[p]? = d.blocks[q]? := by rw [getElem?_blocks hd hp, getElem?_blocks hd hq, hblock]
    have hstable := (partitions_blocks hd).stable p q heq
    simp only [List.getElem?_map, Array.getElem?_toList, show d.states[p]? = some state from hstate,
      show d.states[q]? = some state' from hstate', Option.map_some, Option.some.injEq, blockTargets,
      List.map_map, List.map_inj_left] at hstable
    exact hstable s hs
  · have hnone (i : StateId) (r : State) (hr : d.state? i = some r) : r.transition s = none := by
      rw [Option.eq_none_iff_forall_ne_some]
      intro id hid
      have hmem := ((hd.sound i r hr).ascending.lookup_eq_some_iff).1 hid
      exact hs (mem_usedSymbols.2 ⟨r, mem_states_iff.2 ⟨i, hr⟩, id, hmem⟩)
    rw [hnone p state hstate, hnone q state' hstate']

/-- States of one block accept alike. -/
theorem same_acceptance {p q : StateId} (hp : p < d.size) (hq : q < d.size) (hblock : d.blockOf p = d.blockOf q) :
    ∃ state state', d.state? p = some state ∧ d.state? q = some state' ∧ state.isFinal = state'.isFinal ∧
      state.terminal = state'.terminal := by
  obtain ⟨state, hstate⟩ := exists_state? hp
  obtain ⟨state', hstate'⟩ := exists_state? hq
  have heq : d.blocks[p]? = d.blocks[q]? := by rw [getElem?_blocks hd hp, getElem?_blocks hd hq, hblock]
  exact ⟨state, state', hstate, hstate', (partitions_blocks hd).same_terminal p q state state' hstate hstate' heq⟩

private theorem same_terminal {p q : StateId} (hp : p < d.size) (hq : q < d.size)
    (hblock : d.blockOf p = d.blockOf q) : d.terminal? p = d.terminal? q := by
  obtain ⟨state, state', hstate, hstate', -, hterminal⟩ := same_acceptance hd hp hq hblock
  simp [terminal?, hstate, hstate', hterminal]

/-- Merging the states of every block does not change what the states do. -/
theorem merged_mirrors : d.merged.Mirrors d d.blockOf where
  initial := rfl
  terminals := rfl
  transition q hq s := by
    obtain ⟨p, state, hstate, hblock, hmerged⟩ := exists_representative hd (blockOf_lt hd q)
    have hp := lt_size_of_state? hstate
    rw [← same_transition hd hp hq hblock s, transition?, hmerged, transition?, hstate, Option.bind_some,
      Option.bind_some, State.renamed, State.transition_restricted (hd.sound p state hstate).ascending]
    cases state.transition s <;> rfl
  terminal q hq := by
    obtain ⟨p, state, hstate, hblock, hmerged⟩ := exists_representative hd (blockOf_lt hd q)
    rw [← same_terminal hd (lt_size_of_state? hstate) hq hblock, terminal?, hmerged, terminal?, hstate]
    rfl

end merged

end Automaton

end TableLexer
