import TableLexer.Proofs.FirstOccurrence
import TableLexer.Proofs.Table.Implements
import TableLexer.Table.Compressed

/-! Compressing a table does not change what it says of any state and symbol. -/
namespace TableLexer

namespace Table

variable {t : Table} {id : StateId} {s : Symbol}

/-- The columns of all symbols, as they are in the table. -/
def allColumns (t : Table) : List (Array Int) := Symbol.all.map t.columnCells

/-- The columns that are kept. -/
def keptColumns (t : Table) : Array (Array Int) := firstOfEach t.allColumns (classify t.allColumns).1

/-- The numbers of the columns that are kept for the symbols. -/
def columnNumbers (t : Table) : List Nat := (classify t.allColumns).1

/-- The table over the columns that are kept. -/
def narrowed (t : Table) : Table :=
  { t with
    columns := (classify t.allColumns).2
    transitions := (Array.range t.states).flatMap fun id => t.keptColumns.map (·.getD id noTransition) }

theorem compress_eq (t : Table) : t.compress = .assemble t.narrowed t.columnNumbers.toArray := by
  unfold compress merge narrowed columnNumbers keptColumns allColumns
  dsimp only

theorem numbered_columns (t : Table) : Numbered t.columnNumbers t.narrowed.columns :=
  classify_numbered t.allColumns

theorem length_allColumns (t : Table) : t.allColumns.length = 256 := by
  rw [allColumns, List.length_map, Symbol.length_all]

theorem length_columnNumbers (t : Table) : t.columnNumbers.length = t.allColumns.length :=
  length_classify t.allColumns

theorem getElem?_allColumns (t : Table) (s : Symbol) : t.allColumns[s.val]? = some (t.columnCells s) := by
  rw [allColumns, List.getElem?_map, Symbol.getElem?_all, Option.map_some]

theorem size_keptColumns (t : Table) : t.keptColumns.size = t.narrowed.columns :=
  (firstOfEach_spec t.numbered_columns t.length_columnNumbers.symm).1

theorem getElem?_columnNumbers (t : Table) (s : Symbol) :
    t.columnNumbers[s.val]? = some (t.compress.columnOf s) := by
  have hlt : s.val < t.columnNumbers.length := by
    rw [length_columnNumbers, length_allColumns]
    exact s.isLt
  rw [compress_eq, CompressedTable.columnOf, CompressedTable.assemble]
  simp [Array.getD_eq_getD_getElem?, hlt]

theorem columnOf_lt (t : Table) (s : Symbol) : t.compress.columnOf s < t.narrowed.columns :=
  t.numbered_columns.lt_count (t.getElem?_columnNumbers s)

/-- Symbols share a column exactly if their cells are the same. -/
theorem columnOf_eq_iff (t : Table) {s s' : Symbol} :
    t.compress.columnOf s = t.compress.columnOf s' ↔ t.columnCells s = t.columnCells s' := by
  rw [← Option.some_inj, ← getElem?_columnNumbers, ← getElem?_columnNumbers, columnNumbers, classify_eq_iff,
    getElem?_allColumns, getElem?_allColumns, Option.some_inj]

/-- The column that is kept for a symbol holds the cells of the symbol. -/
theorem getElem?_keptColumns (t : Table) (s : Symbol) :
    t.keptColumns[t.compress.columnOf s]? = some (t.columnCells s) := by
  obtain ⟨i, hi, hkept⟩ :=
    (firstOfEach_spec t.numbered_columns t.length_columnNumbers.symm).2 _ (t.columnOf_lt s)
  have hsame := (classify_eq_iff t.allColumns i s.val).1 (hi.trans (t.getElem?_columnNumbers s).symm)
  rw [keptColumns, ← columnNumbers, hkept, hsame, t.getElem?_allColumns]

theorem toList_narrowed (t : Table) : t.narrowed.transitions.toList =
    (List.range t.states).flatMap fun id => t.keptColumns.toList.map (·.getD id noTransition) := by
  simp [narrowed, Array.toList_flatMap]

private theorem length_narrowed_row (t : Table) (id : StateId) :
    (t.keptColumns.toList.map (·.getD id noTransition)).length = t.narrowed.columns := by
  rw [List.length_map, Array.length_toList, size_keptColumns]

theorem rectangular_narrowed (t : Table) : t.narrowed.Rectangular := by
  have hrows : ∀ id ∈ List.range t.states,
      (t.keptColumns.toList.map (·.getD id noTransition)).length = t.narrowed.columns :=
    fun id _ => t.length_narrowed_row id
  have hlength := length_flatMap_rows hrows
  rw [← toList_narrowed, Array.length_toList, List.length_range] at hlength
  exact hlength

/-- The cell of the column that is kept for a symbol is the cell of the symbol. -/
theorem cell_narrowed (t : Table) (id : StateId) (s : Symbol) :
    t.narrowed.cell id (t.compress.columnOf s) = t.cell id s.val := by
  by_cases hid : id < t.states
  · have hcolumn := t.columnOf_lt s
    have hcell := t.rectangular_narrowed.getElem?_transitions hid hcolumn
    rw [← Array.getElem?_toList, toList_narrowed, rowStart,
      getElem?_flatMap_rows (fun id _ => t.length_narrowed_row id) hcolumn, List.getElem?_range hid,
      Option.bind_some, List.getElem?_map, Array.getElem?_toList, getElem?_keptColumns,
      Option.map_some] at hcell
    rw [← Option.some.inj hcell]
    simp [columnCells, Array.getD_eq_getD_getElem?, hid]
  · rw [cell_of_not_lt fun h : id < t.states ∧ s.val < t.columns => hid h.1]
    exact cell_of_not_lt fun h => hid h.1

theorem destination_compress (t : Table) (id : StateId) (s : Symbol) :
    t.compress.destination id s = t.destination id s.val := by
  have htable : t.compress.table = t.narrowed := by rw [compress_eq]; rfl
  rw [CompressedTable.destination, htable, destination_eq, destination_eq, cell_narrowed]

/-- The symbols of a column are those that have its number, and there are none if it does not exist. -/
theorem symbolsOf_eq (t : Table) (column : Nat) :
    t.compress.symbolsOf column = Symbol.all.filter fun s => t.compress.columnOf s = column := by
  have hnumber (s : Symbol) : t.columnNumbers[s.val]? == some column ↔ t.compress.columnOf s = column := by
    rw [t.getElem?_columnNumbers s, beq_iff_eq, Option.some_inj]
  have hsymbols : t.compress.symbolsOf column = if column < t.narrowed.columns then
      Symbol.all.filter fun s => t.columnNumbers[s.val]? == some column else [] := by
    rw [compress_eq, CompressedTable.symbolsOf, CompressedTable.assemble]
    by_cases h : column < t.narrowed.columns
    · simp [Array.getD_eq_getD_getElem?, h]
    · simp [Array.getD_eq_getD_getElem?, h]
  rw [hsymbols]
  split
  · exact List.filter_congr fun s _ => Bool.eq_iff_iff.2 ((hnumber s).trans decide_eq_true_iff.symm)
  · next h =>
    refine (List.filter_eq_nil_iff.2 fun s _ hs => h ?_).symm
    exact of_decide_eq_true hs ▸ t.columnOf_lt s

theorem mem_symbolsOf (t : Table) {column : Nat} :
    s ∈ t.compress.symbolsOf column ↔ t.compress.columnOf s = column := by
  simp [t.symbolsOf_eq, Symbol.mem_all]

theorem ascending_symbolsOf (t : Table) (column : Nat) : (t.compress.symbolsOf column).Pairwise (· < ·) := by
  rw [t.symbolsOf_eq]
  exact Symbol.ascending_all.filter _

/-- Symbols have one column each, so that none is listed for two different columns. -/
theorem nodup_flatMap_symbolsOf (t : Table) {columns : List Nat} (h : columns.Nodup) :
    (columns.flatMap t.compress.symbolsOf).Nodup := by
  refine List.nodup_flatMap.2 ⟨fun column _ => (t.ascending_symbolsOf column).imp ne_of_lt, ?_⟩
  refine h.imp fun hne s hs hs' => hne ?_
  rw [← t.mem_symbolsOf.1 hs, t.mem_symbolsOf.1 hs']

private theorem mem_liveColumns_narrowed {column : Nat} : column ∈ t.narrowed.liveColumns id ↔
    column < t.narrowed.columns ∧ t.narrowed.cell id column ≠ noTransition := by
  rw [t.rectangular_narrowed.liveColumns_eq, List.mem_filter, List.mem_range, decide_eq_true_iff]

private theorem mem_flatMap_symbolsOf : s ∈ (t.narrowed.liveColumns id).flatMap t.compress.symbolsOf ↔
    t.cell id s.val ≠ noTransition := by
  rw [List.mem_flatMap, ← cell_narrowed]
  constructor
  · intro hresult
    obtain ⟨column, hlive, hs⟩ := hresult
    rw [t.mem_symbolsOf.1 hs]
    exact (mem_liveColumns_narrowed.1 hlive).2
  · intro hcell
    exact ⟨_, mem_liveColumns_narrowed.2 ⟨t.columnOf_lt s, hcell⟩, t.mem_symbolsOf.2 rfl⟩

/-- The live symbols of a state in the compressed table are its live symbols, each of them once. -/
theorem liveSymbols_compress (t : Table) (id : StateId) :
    t.compress.liveSymbols id = Symbol.all.filter fun s => t.cell id s.val ≠ noTransition := by
  have htable : t.compress.table = t.narrowed := by rw [compress_eq]; rfl
  rw [CompressedTable.liveSymbols, htable]
  have hlive : (t.narrowed.liveColumns id).Nodup := by
    rw [t.rectangular_narrowed.liveColumns_eq]
    exact List.nodup_range.filter _
  have hnodup := (List.mergeSort_perm _ (· ≤ ·)).nodup_iff.2 (t.nodup_flatMap_symbolsOf hlive)
  have hascending := (List.pairwise_mergeSort' (· ≤ ·) _).and hnodup
  refine (hascending.imp fun h => lt_of_le_of_ne h.1 h.2).eq_of_mem_iff (Symbol.ascending_all.filter _) fun s => ?_
  rw [List.mem_mergeSort, mem_flatMap_symbolsOf, List.mem_filter, decide_eq_true_iff]
  exact (and_iff_right (Symbol.mem_all s)).symm

/-- What a dense table does, its compressed table does, too. -/
theorem compress_implements {d : Automaton} {place : StateId → StateId} {states : Set StateId}
    (hrectangular : t.Rectangular) (h : Implements t d place states) : Implements t.compress d place states where
  initial := h.initial
  terminals := h.terminals
  next q hq s := (t.destination_compress (place q) s).trans (h.next q hq s)
  accepts := h.accepts
  expected q hq := by
    rw [← h.expected q hq, hrectangular.expected_eq]
    exact t.liveSymbols_compress (place q)

end Table

end TableLexer
