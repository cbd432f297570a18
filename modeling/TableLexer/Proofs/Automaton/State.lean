import Mathlib.Order.Fin.Basic
import Mathlib.Data.List.Basic
import Mathlib.Data.List.Sort
import TableLexer.Automaton.State
import TableLexer.Proofs.Symbol

/-! The operations on states by what a state does on each symbol and where its epsilon edges lead. -/
namespace TableLexer

namespace State

theorem mem_insertTarget {target id : StateId} {ids : List StateId} :
    id ∈ insertTarget target ids ↔ id = target ∨ id ∈ ids := by
  induction ids with
  | nil => simp [insertTarget]
  | cons other ids ih => grind [insertTarget]

theorem ascending_insertTarget {ids : List StateId} (h : ids.Pairwise (· < ·)) (target : StateId) :
    (insertTarget target ids).Pairwise (· < ·) := by
  induction ids with
  | nil => simp [insertTarget]
  | cons id ids ih =>
    obtain ⟨hhead, htail⟩ := List.pairwise_cons.1 h
    unfold insertTarget
    split
    · next hlt =>
      refine List.pairwise_cons.2 ⟨fun j hj => ?_, h⟩
      rcases List.mem_cons.1 hj with rfl | hj
      · exact hlt
      · exact Nat.lt_trans hlt (hhead j hj)
    · split
      · exact h
      · next hge hne =>
        refine List.pairwise_cons.2 ⟨fun j hj => ?_, ih htail⟩
        rcases mem_insertTarget.1 hj with rfl | hj
        · exact Nat.lt_of_le_of_ne (Nat.le_of_not_lt hge) (Ne.symm hne)
        · exact hhead j hj

private theorem lookup_insertEdge (s t : Symbol) (target : StateId) (edges : List (Symbol × StateId)) :
    (insertEdge s target edges).lookup t = if t = s then some target else edges.lookup t := by
  induction edges with
  | nil => grind [insertEdge]
  | cons edge edges ih => grind [insertEdge]

private theorem mem_insertEdge {s : Symbol} {target : StateId} {edges : List (Symbol × StateId)}
    {edge : Symbol × StateId} (h : edge ∈ insertEdge s target edges) :
    edge = (s, target) ∨ edge ∈ edges := by
  induction edges with
  | nil => simpa [insertEdge] using h
  | cons other edges ih => grind [insertEdge]

/-- No two edges are on the same symbol, and the symbols ascend. -/
def Ascending (edges : List (Symbol × StateId)) : Prop := edges.Pairwise fun e e' => e.1 < e'.1

theorem Ascending.insertEdge {edges : List (Symbol × StateId)} (h : Ascending edges) (s : Symbol)
    (target : StateId) : Ascending (insertEdge s target edges) := by
  induction edges with
  | nil => simp [Ascending, State.insertEdge]
  | cons edge edges ih =>
    obtain ⟨hhead, htail⟩ := List.pairwise_cons.1 h
    unfold State.insertEdge
    split
    · next hlt =>
      refine List.pairwise_cons.2 ⟨fun e he => ?_, h⟩
      rcases List.mem_cons.1 he with rfl | he
      · exact hlt
      · exact lt_trans hlt (hhead e he)
    · next hge =>
      split
      · next heq => exact List.pairwise_cons.2 ⟨fun e he => heq ▸ hhead e he, htail⟩
      · next hne =>
        refine List.pairwise_cons.2 ⟨fun e he => ?_, ih htail⟩
        rcases mem_insertEdge he with rfl | he
        · exact lt_of_le_of_ne (not_lt.1 hge) (Ne.symm hne)
        · exact hhead e he

theorem Ascending.lookup_eq_some_iff {edges : List (Symbol × StateId)} (h : Ascending edges)
    {s : Symbol} {target : StateId} : edges.lookup s = some target ↔ (s, target) ∈ edges := by
  induction edges with
  | nil => simp
  | cons edge edges ih =>
    obtain ⟨hhead, htail⟩ := List.pairwise_cons.1 h
    obtain ⟨t, id⟩ := edge
    rw [List.lookup_cons, List.mem_cons, Prod.mk.injEq]
    by_cases hs : s = t
    · have hnot : (s, target) ∉ edges := fun hmem => absurd (hhead _ hmem) (by simp [hs])
      simp [hs, hs ▸ hnot, eq_comm]
    · have hbeq : (s == t) = false := beq_false_of_ne hs
      simp [hbeq, hs, ih htail]

/-- An ascending list of edges is what it leads to on all symbols, one after the other. -/
theorem Ascending.eq_filterMap {edges : List (Symbol × StateId)} (h : Ascending edges) :
    edges = Symbol.all.filterMap fun s => (edges.lookup s).map (s, ·) := by
  have : Std.Irrefl fun e e' : Symbol × StateId => e.1 < e'.1 := ⟨fun e => lt_irrefl e.1⟩
  have : Std.Antisymm fun e e' : Symbol × StateId => e.1 < e'.1 := ⟨fun e e' h h' => absurd h' h.asymm⟩
  have hall : Ascending (Symbol.all.filterMap fun s => (edges.lookup s).map (s, ·)) := by
    refine List.Pairwise.filterMap _ (fun s s' hlt e he e' he' => ?_) Symbol.ascending_all
    obtain ⟨_, _, rfl⟩ := Option.map_eq_some_iff.1 he
    obtain ⟨_, _, rfl⟩ := Option.map_eq_some_iff.1 he'
    exact hlt
  refine List.Pairwise.eq_of_mem_iff h hall fun edge => ?_
  obtain ⟨s, target⟩ := edge
  simp [← h.lookup_eq_some_iff, Symbol.mem_all]

/-- Lists of edges are equal if they ascend and lead to the same on every symbol. -/
theorem Ascending.ext {edges edges' : List (Symbol × StateId)} (h : Ascending edges) (h' : Ascending edges')
    (hlookup : ∀ s, edges.lookup s = edges'.lookup s) : edges = edges' := by
  rw [h.eq_filterMap, h'.eq_filterMap]
  simp only [hlookup]

/-- If related targets follow on every symbol, the targets of ascending lists of edges are related in order. -/
theorem Ascending.forall₂_targets {R : StateId → StateId → Prop} {edges edges' : List (Symbol × StateId)}
    (h : Ascending edges) (h' : Ascending edges')
    (hlookup : ∀ s, Option.Rel R (edges.lookup s) (edges'.lookup s)) :
    List.Forall₂ R (edges.map (·.2)) (edges'.map (·.2)) := by
  rw [h.eq_filterMap, h'.eq_filterMap, List.map_filterMap, List.map_filterMap]
  induction Symbol.all with
  | nil => exact .nil
  | cons s symbols ih =>
    have hs := hlookup s
    rw [List.filterMap_cons, List.filterMap_cons]
    generalize edges.lookup s = left at hs ⊢
    generalize edges'.lookup s = right at hs ⊢
    cases hs with
    | none => exact ih
    | some hs => exact .cons hs ih

theorem Ascending.filterMap {edges : List (Symbol × StateId)} (h : Ascending edges)
    (rename : StateId → Option StateId) :
    Ascending (edges.filterMap fun (s, target) => (rename target).map (s, ·)) := by
  refine List.Pairwise.filterMap _ (fun e e' hlt f hf f' hf' => ?_) h
  obtain ⟨_, _, rfl⟩ := Option.map_eq_some_iff.1 hf
  obtain ⟨_, _, rfl⟩ := Option.map_eq_some_iff.1 hf'
  exact hlt

theorem transition_setTransition (q : State) (s t : Symbol) (target : StateId) :
    (q.setTransition s target).transition t = if t = s then some target else q.transition t :=
  lookup_insertEdge s t target q.transitions

theorem mem_epsilon_addEpsilon {q : State} {target id : StateId} :
    id ∈ (q.addEpsilon target).epsilon ↔ id = target ∨ id ∈ q.epsilon := mem_insertTarget

theorem transition_restricted {q : State} (h : Ascending q.transitions)
    (rename : StateId → Option StateId) (s : Symbol) :
    (q.restricted rename).transition s = (q.transition s).bind rename := by
  ext target
  simp only [transition, restricted, (h.filterMap rename).lookup_eq_some_iff, List.mem_filterMap,
    Option.bind_eq_some_iff, Option.map_eq_some_iff, Prod.exists, Prod.mk.injEq]
  constructor
  · intro hresult
    obtain ⟨_, old, hmem, _, hnew, rfl, rfl⟩ := hresult
    exact ⟨old, h.lookup_eq_some_iff.2 hmem, hnew⟩
  · intro hresult
    obtain ⟨old, hold, hnew⟩ := hresult
    exact ⟨s, old, h.lookup_eq_some_iff.1 hold, target, hnew, rfl, rfl⟩

theorem mem_epsilon_restricted {q : State} {rename : StateId → Option StateId} {id : StateId} :
    id ∈ (q.restricted rename).epsilon ↔ ∃ old ∈ q.epsilon, rename old = some id := List.mem_filterMap

theorem mem_successors {q : State} {id : StateId} (h : Ascending q.transitions) :
    id ∈ q.successors ↔ (∃ s, q.transition s = some id) ∨ id ∈ q.epsilon := by
  simp only [successors, List.mem_append, List.mem_map, Prod.exists, exists_eq_right, transition,
    h.lookup_eq_some_iff]

theorem mem_successors_addEpsilon {q : State} {target id : StateId}
    (h : id ∈ (q.addEpsilon target).successors) : id ∈ q.successors ∨ id = target := by
  rcases List.mem_append.1 h with h | h
  · exact .inl (List.mem_append_left _ h)
  · exact (mem_epsilon_addEpsilon.1 h).symm.imp_left (List.mem_append_right _)

theorem mem_successors_setTransition {q : State} {s : Symbol} {target id : StateId}
    (h : id ∈ (q.setTransition s target).successors) : id ∈ q.successors ∨ id = target := by
  rcases List.mem_append.1 h with h | h
  · obtain ⟨edge, hedge, rfl⟩ := List.mem_map.1 h
    rcases mem_insertEdge hedge with rfl | hedge
    · exact .inr rfl
    · exact .inl (List.mem_append_left _ (List.mem_map_of_mem hedge))
  · exact .inl (List.mem_append_right _ h)

/-- A restricted state leads only to what has a name. -/
theorem exists_of_mem_restricted {q : State} {within : StateId → Option StateId} {id : StateId}
    (h : id ∈ (q.restricted within).successors) : ∃ old ∈ q.successors, within old = some id := by
  rcases List.mem_append.1 h with h | h
  · obtain ⟨edge, hedge, rfl⟩ := List.mem_map.1 h
    obtain ⟨⟨s, old⟩, hmem, hname⟩ := List.mem_filterMap.1 hedge
    obtain ⟨new, hnew, rfl⟩ := Option.map_eq_some_iff.1 hname
    exact ⟨old, List.mem_append_left _ (List.mem_map.2 ⟨_, hmem, rfl⟩), hnew⟩
  · obtain ⟨old, hmem, hname⟩ := mem_epsilon_restricted.1 h
    exact ⟨old, List.mem_append_right _ hmem, hname⟩

section rename

variable {rename : StateId → StateId}

theorem insertTarget_map (h : StrictMono rename) (target : StateId) (ids : List StateId) :
    insertTarget (rename target) (ids.map rename) = (insertTarget target ids).map rename := by
  induction ids with
  | nil => rfl
  | cons id ids ih =>
    rw [List.map_cons, insertTarget, insertTarget, ih]
    simp only [h.lt_iff_lt, h.injective.eq_iff]
    split_ifs <;> rfl

private theorem insertEdge_map (rename : StateId → StateId) (s : Symbol) (target : StateId)
    (edges : List (Symbol × StateId)) :
    insertEdge s (rename target) (edges.map fun edge => (edge.1, rename edge.2)) =
      (insertEdge s target edges).map fun edge => (edge.1, rename edge.2) := by
  induction edges with
  | nil => rfl
  | cons edge edges ih =>
    rw [List.map_cons, insertEdge, insertEdge, ih]
    split_ifs <;> rfl

theorem renamed_eq (q : State) (rename : StateId → StateId) : q.renamed rename =
    { q with
      transitions := q.transitions.map fun edge => (edge.1, rename edge.2)
      epsilon := q.epsilon.map rename } := by
  simp [renamed, restricted, List.filterMap_eq_map']

theorem renamed_id (q : State) : q.renamed id = q := by
  simp [renamed_eq]

theorem addEpsilon_renamed (h : StrictMono rename) (q : State) (target : StateId) :
    (q.renamed rename).addEpsilon (rename target) = (q.addEpsilon target).renamed rename := by
  simp only [renamed_eq, addEpsilon, insertTarget_map h]

theorem setTransition_renamed (q : State) (rename : StateId → StateId) (s : Symbol) (target : StateId) :
    (q.renamed rename).setTransition s (rename target) = (q.setTransition s target).renamed rename := by
  simp only [renamed_eq, setTransition, insertEdge_map]

theorem transition_renamed (q : State) (rename : StateId → StateId) (s : Symbol) :
    (q.renamed rename).transition s = (q.transition s).map rename := by
  rw [renamed_eq, transition, transition]
  induction q.transitions with
  | nil => rfl
  | cons edge edges ih =>
    rw [List.map_cons, List.lookup_cons, List.lookup_cons, ih]
    split <;> rfl

theorem successors_renamed (q : State) (rename : StateId → StateId) :
    (q.renamed rename).successors = q.successors.map rename := by
  simp [renamed_eq, successors, Function.comp_def]

/-- Renaming before or after what has no name is dropped. -/
theorem restricted_renamed {within within' : StateId → Option StateId} {rename' : StateId → StateId}
    (h : ∀ id, within' (rename id) = (within id).map rename') (q : State) :
    (q.renamed rename).restricted within' = (q.restricted within).renamed rename' := by
  simp only [renamed_eq, restricted, List.filterMap_map, List.map_filterMap, Function.comp_def, h,
    Option.map_map]

end rename

end State

end TableLexer
