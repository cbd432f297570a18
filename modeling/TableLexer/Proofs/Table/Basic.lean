import Mathlib.Data.List.FinRange
import TableLexer.Proofs.Symbol
import TableLexer.Table.Basic

/-! Tables whose rows fill their cells, one row after the other. -/
namespace TableLexer

section rows

variable {α β : Type} {items : List α} {row : α → List β} {n i j : Nat}

theorem length_flatMap_rows (hrow : ∀ item ∈ items, (row item).length = n) :
    (items.flatMap row).length = items.length * n := by
  induction items with
  | nil => simp
  | cons item items ih =>
    obtain ⟨hitem, hitems⟩ := List.forall_mem_cons.1 hrow
    rw [List.flatMap_cons, List.length_append, hitem, ih hitems, List.length_cons, Nat.succ_mul, Nat.add_comm]

/-- A cell of rows that are laid out one after the other. -/
theorem getElem?_flatMap_rows (hrow : ∀ item ∈ items, (row item).length = n) (hj : j < n) :
    (items.flatMap row)[i * n + j]? = (items[i]?).bind fun item => (row item)[j]? := by
  induction items generalizing i with
  | nil => simp
  | cons item items ih =>
    obtain ⟨hitem, hitems⟩ := List.forall_mem_cons.1 hrow
    rw [List.flatMap_cons]
    cases i with
    | zero => simp [List.getElem?_append_left (hitem.symm ▸ hj : j < (row item).length)]
    | succ i =>
      have hindex : (i + 1) * n + j - n = i * n + j := by rw [Nat.succ_mul]; omega
      have hle : (row item).length ≤ (i + 1) * n + j := by rw [hitem, Nat.succ_mul]; omega
      rw [List.getElem?_append_right hle, hitem, hindex, ih hitems, List.getElem?_cons_succ]

/-- The positions of the items that are not a given one. -/
private theorem filterMap_zipIdx [DecidableEq β] (f : Nat → β) (mark : β) (n : Nat) :
    ((List.range n).map f).zipIdx.filterMap (fun (item, i) => if item = mark then none else some i) =
      (List.range n).filter fun i => f i ≠ mark := by
  induction n with
  | zero => rfl
  | succ n ih =>
    rw [List.range_succ, List.map_append, List.zipIdx_append, List.filterMap_append, ih, List.filter_append]
    by_cases hn : f n = mark
    · simp [hn]
    · simp [hn]

end rows

namespace Table

variable {t : Table} {id : StateId} {column : Nat}

/-- The cells are those of one row for each state. -/
def Rectangular (t : Table) : Prop := t.transitions.size = t.states * t.columns

/-- A row of a state ends where the rows of all states do, or before. -/
theorem rowEnd_le (hid : id < t.states) : t.rowStart id + t.columns ≤ t.states * t.columns := by
  rw [rowStart, ← Nat.succ_mul]
  exact Nat.mul_le_mul_right _ hid

theorem cell_of_not_lt (h : ¬ (id < t.states ∧ column < t.columns)) : t.cell id column = noTransition := if_neg h

namespace Rectangular

variable (h : t.Rectangular)
include h

theorem index_lt (hid : id < t.states) (hcolumn : column < t.columns) :
    t.rowStart id + column < t.transitions.size :=
  (Nat.lt_of_lt_of_le (Nat.add_lt_add_left hcolumn _) (rowEnd_le hid)).trans_eq h.symm

theorem getElem?_transitions (hid : id < t.states) (hcolumn : column < t.columns) :
    t.transitions[t.rowStart id + column]? = some (t.cell id column) := by
  have hlt := h.index_lt hid hcolumn
  simp [cell, hid, hcolumn, hlt]

private theorem row_eq (hid : id < t.states) : t.row id = ((List.range t.columns).map (t.cell id)).toArray := by
  have hlast := (rowEnd_le hid).trans_eq h.symm
  refine Array.ext (by simp [row]; omega) fun column hcolumn hcolumn' => ?_
  have hlt : column < t.columns := by simpa using hcolumn'
  have hcell := h.getElem?_transitions hid hlt
  simp only [row]
  rw [Array.getElem_extract, Array.getElem_eq_iff, hcell]
  simp

/-- The live columns of a state are those whose cell holds a target. -/
theorem liveColumns_eq (id : StateId) :
    t.liveColumns id = (List.range t.columns).filter fun column => t.cell id column ≠ noTransition := by
  unfold liveColumns liveOf
  by_cases hid : id < t.states
  · rw [if_pos hid, h.row_eq hid]
    exact filterMap_zipIdx (t.cell id) noTransition t.columns
  · rw [if_neg hid, eq_comm, List.filter_eq_nil_iff]
    intro column _
    simp [cell_of_not_lt fun hlt : id < t.states ∧ column < t.columns => hid hlt.1]

end Rectangular

theorem destination_eq (t : Table) (id : StateId) (column : Nat) : t.destination id column =
    if t.cell id column = noTransition then none else some (stateOf (t.cell id column)) := rfl

end Table

end TableLexer
