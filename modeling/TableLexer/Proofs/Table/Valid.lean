import TableLexer.Proofs.Automaton.Arena
import TableLexer.Proofs.Table.Compressed

/-! Tables whose parts fit together: those of deterministic automata, and what compressing makes of any. -/
namespace TableLexer

namespace Table

variable {t : Table}

/-- What a cell may hold: the mark of no transition, or a state. -/
def CellValid (t : Table) (cell : Int) : Prop := cell ≠ noTransition → 0 ≤ cell ∧ cell < t.states

/-- What it means that nothing is at fault with a table. -/
structure Valid (t : Table) : Prop where
  columns_ne : t.columns ≠ 0
  states_ne : t.states ≠ 0
  size_eq : t.transitions.size = t.cellCount
  initial_lt : t.initial < t.states
  eof_first : t.terminals.name? eof = some eofName
  cell_valid : ∀ cell ∈ t.transitions, t.CellValid cell
  terminal_known : ∀ id, some id ∈ t.finals → id ≠ eof ∧ t.terminals.contains id = true

theorem transitionFault?_eq_none_iff : t.transitionFault? = none ↔ ∀ cell ∈ t.transitions, t.CellValid cell := by
  rw [transitionFault?, Option.map_eq_none_iff, Array.findIdx?_eq_none_iff]
  refine forall₂_congr fun cell _ => ?_
  rw [decide_eq_false_iff_not, CellValid]
  omega

theorem acceptanceFault?_eq_none_iff : t.acceptanceFault? = none ↔
    ∀ id, some id ∈ t.finals → id ≠ eof ∧ t.terminals.contains id = true := by
  rw [acceptanceFault?, List.findSome?_eq_none_iff]
  constructor
  · intro h id hid
    obtain ⟨i, hi⟩ := List.mem_iff_getElem?.1 (Array.mem_toList_iff.2 hid)
    have hnone := h (some id, i) (List.mem_zipIdx_iff_getElem?.2 hi)
    simpa using hnone
  · intro h pair hpair
    obtain ⟨terminal, i⟩ := pair
    cases terminal with
    | none => rfl
    | some id =>
      have hid : some id ∈ t.finals :=
        Array.mem_toList_iff.1 (List.mem_of_getElem? (List.mem_zipIdx_iff_getElem?.1 hpair))
      obtain ⟨hne, hknown⟩ := h id hid
      simp [hne, hknown]

private theorem ite_some_eq_none_iff {α : Type} {p : Prop} [Decidable p] {x : α} {rest : Option α} :
    (if p then some x else rest) = none ↔ ¬ p ∧ rest = none := by
  split <;> simp [*]

theorem fault?_eq_none_iff : t.fault? = none ↔ t.Valid := by
  simp only [fault?, ite_some_eq_none_iff, Option.orElse_eq_orElse, Option.orElse_eq_or, Option.or_eq_none_iff,
    transitionFault?_eq_none_iff, acceptanceFault?_eq_none_iff, not_not, Nat.not_le]
  constructor
  · intro h
    obtain ⟨hcolumns, hstates, hsize, hinitial, heof, hcells, hterminals⟩ := h
    exact ⟨hcolumns, hstates, hsize, hinitial, heof, hcells, hterminals⟩
  · intro h
    exact ⟨h.columns_ne, h.states_ne, h.size_eq, h.initial_lt, h.eof_first, h.cell_valid, h.terminal_known⟩

end Table

namespace Automaton

variable {a : Automaton}

private theorem mem_transitions_table {cell : Int} (h : cell ∈ a.table.transitions) :
    ∃ q s, cell = cellFor (a.transition? q s) := by
  rw [← Array.mem_toList_iff, toList_transitions, List.mem_flatMap] at h
  obtain ⟨state, hstate, hcell⟩ := h
  obtain ⟨q, hq⟩ := mem_states_iff.1 hstate
  obtain ⟨i, hi⟩ := List.mem_iff_getElem?.1 hcell
  have hlt : i < 256 := length_cells state ▸ (List.getElem?_eq_some_iff.1 hi).1
  refine ⟨q, ⟨i, hlt⟩, ?_⟩
  rw [transition?, hq, Option.bind_some]
  exact Option.some.inj (hi.symm.trans (getElem?_cells state ⟨i, hlt⟩))

/-- Nothing is at fault with the table of an automaton of no more than 2 ^ 31 states. -/
theorem valid_table (ha : a.WellFormed) (hsize : a.size ≤ 2 ^ 31) : a.table.Valid where
  columns_ne := Nat.succ_ne_zero 255
  states_ne := by
    rw [states_table]
    exact Nat.ne_zero_of_lt ha.initial_lt
  size_eq := by
    have hcount : a.table.states * a.table.columns < Table.wordSize := by
      rw [states_table, show a.table.columns = 256 from rfl, show Table.wordSize = 2 ^ 64 from rfl]
      omega
    rw [a.rectangular_table, Table.cellCount, Nat.mod_eq_of_lt hcount]
  initial_lt := by
    rw [states_table]
    exact ha.initial_lt
  eof_first := ha.eof_first
  cell_valid cell hcell hne := by
    obtain ⟨q, s, rfl⟩ := mem_transitions_table hcell
    cases htarget : a.transition? q s with
    | none => simp [htarget, cellFor] at hne
    | some target =>
      have hlt := ha.edge_lt (edge_some.2 htarget)
      rw [cellFor, Table.cellOf_eq (hlt.trans_le hsize), states_table]
      exact ⟨Int.natCast_nonneg target, Int.ofNat_lt.2 hlt⟩
  terminal_known id hid := by
    obtain ⟨state, hstate, hid⟩ := Array.mem_map.1 hid
    obtain ⟨q, hq⟩ := mem_states_iff.1 (Array.mem_toList_iff.2 hstate)
    split at hid
    · obtain ⟨hne, hlt⟩ := (ha.sound q state hq).terminal_known id hid
      exact ⟨hne, decide_eq_true hlt⟩
    · contradiction

end Automaton

namespace Table

variable {t : Table}

/-- Only symbols have a column number. -/
theorem lt_of_columnNumbers (t : Table) {i n : Nat} (h : t.columnNumbers[i]? = some n) : i < 256 := by
  rw [← t.length_allColumns, ← t.length_columnNumbers]
  exact (List.getElem?_eq_some_iff.1 h).1

private theorem mem_keptColumns {cells : Array Int} (h : cells ∈ t.keptColumns) : ∃ s, cells = t.columnCells s := by
  obtain ⟨n, hn⟩ := Array.mem_iff_getElem?.1 h
  have hlt : n < t.narrowed.columns := t.size_keptColumns ▸ (Array.getElem?_eq_some_iff.1 hn).1
  obtain ⟨i, hi, hkept⟩ := (firstOfEach_spec t.numbered_columns t.length_columnNumbers.symm).2 n hlt
  refine ⟨⟨i, t.lt_of_columnNumbers hi⟩, Option.some.inj ?_⟩
  rw [← t.getElem?_allColumns, ← hkept, ← hn]
  rfl

/-- What a lookup finds is a cell of the table, unless it leads out of it. -/
theorem cell_mem (t : Table) (id : StateId) (column : Nat) :
    t.cell id column = noTransition ∨ t.cell id column ∈ t.transitions := by
  rw [cell]
  split
  · rw [Array.getD_eq_getD_getElem?]
    cases hsome : t.transitions[t.rowStart id + column]? with
    | none => exact .inl rfl
    | some cell => exact .inr (Array.mem_of_getElem? hsome)
  · exact .inl rfl

/-- A cell that is left is one of the table, or of a symbol without a column. -/
theorem mem_transitions_narrowed {cell : Int} (h : cell ∈ t.narrowed.transitions) :
    cell = noTransition ∨ cell ∈ t.transitions := by
  rw [← Array.mem_toList_iff, toList_narrowed, List.mem_flatMap] at h
  obtain ⟨id, hid, h⟩ := h
  obtain ⟨cells, hcells, rfl⟩ := List.mem_map.1 h
  obtain ⟨s, rfl⟩ := mem_keptColumns (Array.mem_toList_iff.1 hcells)
  have hcell : (t.columnCells s).getD id noTransition = t.cell id s.val := by
    simp [columnCells, Array.getD_eq_getD_getElem?, List.mem_range.1 hid]
  rw [hcell]
  exact t.cell_mem id s.val

private theorem columns_narrowed_pos (t : Table) : 0 < t.narrowed.columns := Nat.zero_lt_of_lt (t.columnOf_lt 0)

theorem columns_narrowed_le (t : Table) : t.narrowed.columns ≤ 256 := by
  rw [← t.length_allColumns, ← t.length_columnNumbers]
  exact t.numbered_columns.count_le

/-- Compressing a valid table leaves a valid one. -/
theorem Valid.narrowed (h : t.Valid) (hcount : t.narrowed.transitions.size < wordSize) : t.narrowed.Valid where
  columns_ne := Nat.ne_of_gt t.columns_narrowed_pos
  states_ne := h.states_ne
  size_eq := by
    have hrectangular : t.narrowed.transitions.size = t.narrowed.states * t.narrowed.columns :=
      t.rectangular_narrowed
    rw [cellCount, ← hrectangular, Nat.mod_eq_of_lt hcount]
  initial_lt := h.initial_lt
  eof_first := h.eof_first
  cell_valid cell hcell hne := by
    rcases mem_transitions_narrowed hcell with rfl | hcell
    · contradiction
    · exact h.cell_valid cell hcell hne
  terminal_known := h.terminal_known

/-- Every column that is left is the column of some symbol. -/
theorem exists_symbol_of_column (t : Table) {column : Nat} (h : column < t.narrowed.columns) :
    ∃ s, t.compress.columnOf s = column := by
  obtain ⟨i, hi⟩ := List.mem_iff_getElem?.1 (t.numbered_columns.mem_iff.2 h)
  have hlt := t.lt_of_columnNumbers hi
  exact ⟨⟨i, hlt⟩, Option.some.inj ((t.getElem?_columnNumbers ⟨i, hlt⟩).symm.trans hi)⟩

private theorem exists_column_of_mem (t : Table) {symbols : List Symbol} (h : symbols ∈ t.compress.columnToSymbols) :
    ∃ column < t.narrowed.columns, symbols = t.compress.symbolsOf column := by
  obtain ⟨column, hcolumn⟩ := Array.mem_iff_getElem?.1 h
  have hsize : t.compress.columnToSymbols.size = t.narrowed.columns := by
    rw [compress_eq, CompressedTable.assemble, Array.size_ofFn]
  refine ⟨column, hsize ▸ (Array.getElem?_eq_some_iff.1 hcolumn).1, ?_⟩
  rw [CompressedTable.symbolsOf, Array.getD_eq_getD_getElem?, hcolumn, Option.getD_some]

/-- Nothing is at fault with the columns that compressing gives to the symbols. -/
theorem fault?_compress (t : Table) : t.compress.fault? = none := by
  have hcolumns : t.compress.columns = t.narrowed.columns := by rw [compress_eq]; rfl
  have hnumbers : t.compress.symbolToColumn = t.columnNumbers.toArray := by rw [compress_eq]; rfl
  have hsize : t.compress.symbolToColumn.size = 256 := by
    rw [hnumbers, List.size_toArray, length_columnNumbers, length_allColumns]
  have hmissing : t.compress.symbolToColumn.findIdx? (t.compress.columns ≤ ·) = none := by
    rw [Array.findIdx?_eq_none_iff, hnumbers, hcolumns]
    intro column hcolumn
    have hlt := t.numbered_columns.mem_iff.1 (List.mem_toArray.1 hcolumn)
    simpa using hlt
  have hempty : t.compress.columnToSymbols.findIdx? (·.isEmpty) = none := by
    rw [Array.findIdx?_eq_none_iff]
    intro symbols hsymbols
    obtain ⟨column, hcolumn, rfl⟩ := t.exists_column_of_mem hsymbols
    obtain ⟨s, hs⟩ := t.exists_symbol_of_column hcolumn
    rw [List.isEmpty_eq_false_iff]
    exact List.ne_nil_of_mem (t.mem_symbolsOf.2 hs)
  rw [CompressedTable.fault?, if_neg (not_not.2 hsize), hmissing, hempty]
  rfl

end Table

end TableLexer
