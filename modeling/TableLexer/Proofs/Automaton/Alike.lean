import TableLexer.Proofs.Automaton.Change
import TableLexer.Proofs.Automaton.Minimal

/-! Merging puts together exactly those states that no word can tell apart. -/
namespace TableLexer

namespace Automaton

/-- Whether a state is final, and the terminal it accepts. -/
def verdict (a : Automaton) (q : StateId) : Option (Bool × Option TerminalId) :=
  (a.state? q).map fun state => (state.isFinal, state.terminal)

/-- No word tells two states apart: from both or from neither there is a run on it, and the ends of the
two runs accept the same. -/
def Alike (d : Automaton) (p : StateId) (e : Automaton) (q : StateId) : Prop :=
  ∀ w, (d.run? p w).map d.verdict = (e.run? q w).map e.verdict

variable {c d e : Automaton} {p q r : StateId}

namespace Alike

theorem symm (h : d.Alike p e q) : e.Alike q d p := fun w => (h w).symm

theorem trans (h : c.Alike p d q) (h' : d.Alike q e r) : c.Alike p e r := fun w => (h w).trans (h' w)

theorem verdict_eq (h : d.Alike p e q) : d.verdict p = e.verdict q := Option.some.inj (h [])

/-- States that are alike lead to states that are alike. -/
theorem transition (h : d.Alike p e q) (s : Symbol) :
    Option.Rel (fun p q => d.Alike p e q) (d.transition? p s) (e.transition? q s) := by
  have hstep (w : List Symbol) : ((d.transition? p s).bind (d.run? · w)).map d.verdict =
      ((e.transition? q s).bind (e.run? · w)).map e.verdict := h (s :: w)
  cases hp : d.transition? p s with
  | none =>
    cases hq : e.transition? q s with
    | none => exact .none
    | some q' => simpa [hp, hq] using hstep []
  | some p' =>
    cases hq : e.transition? q s with
    | none => simpa [hp, hq] using hstep []
    | some q' => exact .some fun w => by simpa [hp, hq] using hstep w

end Alike

theorem WellFormed.run?_lt (hd : d.WellFormed) {w : List Symbol} (hp : p < d.size) (h : d.run? p w = some q) :
    q < d.size := by
  induction w generalizing p with
  | nil =>
    obtain rfl := Option.some.inj h
    exact hp
  | cons s w ih =>
    obtain ⟨p', hp', hrest⟩ := Option.bind_eq_some_iff.1 h
    exact ih (hd.edge_lt (edge_some.2 hp')) hrest

/-- A run in an automaton that mirrors another one goes through the places of the states of a run there. -/
theorem Mirrors.run? {place : StateId → StateId} (h : c.Mirrors d place) (hd : d.WellFormed) (w : List Symbol)
    (hp : p < d.size) : c.run? (place p) w = (d.run? p w).map place := by
  induction w generalizing p with
  | nil => rfl
  | cons s w ih =>
    rw [run?_cons, run?_cons, h.transition p hp s]
    cases hs : d.transition? p s with
    | none => rfl
    | some p' => exact ih (hd.edge_lt (edge_some.2 hs))

/-- States of two automata that are alike. -/
def Counterparts (d e : Automaton) (p q : StateId) : Prop := p < d.size ∧ q < e.size ∧ d.Alike p e q

namespace Counterparts

/-- What counterparts lead to are counterparts. -/
theorem transition (hd : d.WellFormed) (he : e.WellFormed) (h : d.Counterparts e p q) (s : Symbol) :
    Option.Rel (d.Counterparts e) (d.transition? p s) (e.transition? q s) := by
  have halike := h.2.2.transition s
  have hleft (r : StateId) (hr : d.transition? p s = some r) : r < d.size := hd.edge_lt (edge_some.2 hr)
  have hright (r : StateId) (hr : e.transition? q s = some r) : r < e.size := he.edge_lt (edge_some.2 hr)
  generalize d.transition? p s = left at halike hleft ⊢
  generalize e.transition? q s = right at halike hright ⊢
  cases halike with
  | none => exact .none
  | some halike => exact .some ⟨hleft _ rfl, hright _ rfl, halike⟩

theorem state_transition (hd : d.WellFormed) (he : e.WellFormed) {state state' : State}
    (h : d.Counterparts e p q) (hp : d.state? p = some state) (hq : e.state? q = some state') (s : Symbol) :
    Option.Rel (d.Counterparts e) (state.transition s) (state'.transition s) := by
  simpa [transition?, hp, hq] using h.transition hd he s

end Counterparts

section coarse

variable {targets : List (List (Option StateId))} {blocks : List Nat} {count : Nat}
  {R : StateId → StateId → Prop}

private theorem blockTargets_eq_of_related {left right : List (Option StateId)}
    (hblocks : ∀ i j : Nat, R i j → blocks[i]? = blocks[j]?)
    (h : List.Forall₂ (Option.Rel R) left right) :
    blockTargets blocks left = blockTargets blocks right := by
  induction h with
  | nil => rfl
  | cons hhead _ ih =>
    refine List.cons_eq_cons.2 ⟨?_, ih⟩
    cases hhead with
    | none => rfl
    | some h => simp [Array.getD_eq_getD_getElem?, hblocks _ _ h]

/-- States that are in the same block, and lead to such states however often they are followed, are never
split. -/
theorem refine_eq_of_related (fuel : Nat) (hlength : blocks.length = targets.length)
    (hblocks : ∀ i j : Nat, R i j → blocks[i]? = blocks[j]?)
    (htargets : ∀ i j : Nat, R i j →
      Option.Rel (List.Forall₂ (Option.Rel R)) targets[i]? targets[j]?) {i j : Nat} (h : R i j) :
    (refine targets fuel blocks count)[i]? = (refine targets fuel blocks count)[j]? := by
  refine (refine_keeps (fun blocks => blocks.length = targets.length ∧ ∀ i j : Nat, R i j → blocks[i]? = blocks[j]?)
    (fun blocks hkept => ?_) fuel count ⟨hlength, hblocks⟩).2 i j h
  obtain ⟨hlength, hblocks⟩ := hkept
  refine ⟨length_round hlength, fun i j h => (round_eq_iff hlength i j).2 ⟨hblocks i j h, ?_⟩⟩
  have hrelated := htargets i j h
  generalize targets[i]? = left at hrelated ⊢
  generalize targets[j]? = right at hrelated ⊢
  cases hrelated with
  | none => rfl
  | some hrelated => exact congrArg some (blockTargets_eq_of_related hblocks hrelated)

end coarse

section merged

variable (hd : d.WellFormed)
include hd

private theorem same_verdict (hp : p < d.size) (hq : q < d.size) (hblock : d.blockOf p = d.blockOf q) :
    d.verdict p = d.verdict q := by
  obtain ⟨state, state', hstate, hstate', hfinal, hterminal⟩ := same_acceptance hd hp hq hblock
  simp [verdict, hstate, hstate', hfinal, hterminal]

/-- States of one block are alike, as a word leads from both to one block again. -/
theorem alike_of_blockOf_eq (hp : p < d.size) (hq : q < d.size) (hblock : d.blockOf p = d.blockOf q) :
    d.Alike p d q := by
  intro w
  induction w generalizing p q with
  | nil => exact congrArg some (same_verdict hd hp hq hblock)
  | cons s w ih =>
    have hsame := same_transition hd hp hq hblock s
    rw [run?_cons, run?_cons]
    cases hp' : d.transition? p s with
    | none =>
      rw [hp', Option.map_none, eq_comm, Option.map_eq_none_iff] at hsame
      rw [hsame]
    | some p' =>
      rw [hp', Option.map_some, eq_comm, Option.map_eq_some_iff] at hsame
      obtain ⟨q', hq', hblock'⟩ := hsame
      rw [hq']
      exact ih (hd.edge_lt (edge_some.2 hp')) (hd.edge_lt (edge_some.2 hq')) hblock'.symm

/-- States that are alike are in one block, as no round of the refinement tells them apart. -/
theorem blockOf_eq_of_alike (hp : p < d.size) (hq : q < d.size) (h : d.Alike p d q) :
    d.blockOf p = d.blockOf q := by
  suffices d.blocks[p]? = d.blocks[q]? by
    rw [getElem?_blocks hd hp, getElem?_blocks hd hq] at this
    exact Option.some.inj this
  have hkeys := classify_eq_iff (d.states.toList.map acceptanceKey)
  have hlength := length_classify (d.states.toList.map acceptanceKey)
  have hstate (i : StateId) : d.states.toList[i]? = d.state? i := Array.getElem?_toList
  rw [blocks_eq]
  apply refine_eq_of_related (R := d.Counterparts d)
  · rw [hlength, List.length_map, List.length_map]
  · intro i j hrelated
    obtain ⟨state, hi⟩ := exists_state? hrelated.1
    obtain ⟨state', hj⟩ := exists_state? hrelated.2.1
    have hverdict := hrelated.2.2.verdict_eq
    rw [verdict, verdict, hi, hj, Option.map_some, Option.map_some, Option.some.injEq, Prod.mk.injEq] at hverdict
    rw [hkeys, List.getElem?_map, List.getElem?_map, hstate, hstate, hi, hj, Option.map_some, Option.map_some,
      acceptanceKey, acceptanceKey, hverdict.1, hverdict.2]
  · intro i j hrelated
    obtain ⟨state, hi⟩ := exists_state? hrelated.1
    obtain ⟨state', hj⟩ := exists_state? hrelated.2.1
    rw [List.getElem?_map, List.getElem?_map, hstate, hstate, hi, hj]
    apply Option.Rel.some
    rw [List.forall₂_map_left_iff, List.forall₂_map_right_iff, List.forall₂_same]
    intro s _
    exact hrelated.state_transition hd hd hi hj s
  · exact ⟨hp, hq, h⟩

theorem blockOf_eq_iff (hp : p < d.size) (hq : q < d.size) :
    d.blockOf p = d.blockOf q ↔ d.Alike p d q :=
  ⟨alike_of_blockOf_eq hd hp hq, blockOf_eq_of_alike hd hp hq⟩

/-- A state of the merged automaton is alike to every state of its block. -/
theorem merged_alike (hp : p < d.size) : d.merged.Alike (d.blockOf p) d p := by
  intro w
  rw [(merged_mirrors hd).run? hd w hp]
  cases hrun : d.run? p w with
  | none => rfl
  | some q =>
    have hq := hd.run?_lt hp hrun
    obtain ⟨r, state, hstate, hblock, hmerged⟩ := exists_representative hd (blockOf_lt hd q)
    have hverdict : d.merged.verdict (d.blockOf q) = d.verdict r := by
      rw [verdict, hmerged, verdict, hstate]
      rfl
    rw [Option.map_some, Option.map_some, Option.map_some, hverdict]
    exact congrArg some (same_verdict hd (lt_size_of_state? hstate) hq hblock)

/-- No two states of the merged automaton are alike. -/
theorem eq_of_merged_alike (hp : p < d.merged.size) (hq : q < d.merged.size)
    (h : d.merged.Alike p d.merged q) : p = q := by
  obtain ⟨p', state, hstate, rfl, -⟩ := exists_representative hd hp
  obtain ⟨q', state', hstate', rfl, -⟩ := exists_representative hd hq
  have hp' := lt_size_of_state? hstate
  have hq' := lt_size_of_state? hstate'
  exact blockOf_eq_of_alike hd hp' hq' (((merged_alike hd hp').symm.trans h).trans (merged_alike hd hq'))

end merged

end Automaton

end TableLexer
