import Mathlib.Data.Finset.Card
import TableLexer.Proofs.Table.Agreement

/-! Compressing merges the columns that no state tells apart, and no others, whatever columns a table has. -/
namespace TableLexer

namespace Table

variable {t t' : Table} {s s' : Symbol} {id : StateId} {column column' : Nat}

/-- The tables with a cell for every state and column: accepted ones whose cells can be counted in a word, and those of
automata of no more than 2 ^ 31 states. -/
inductive Filled : Table → Prop where
  | accepted {t : Table} (ht : t.Accepted) (hcount : t.states * t.columns < wordSize) : Filled t
  | compiled {a : Automaton} {t : Table} (ha : a.Obtained) (hsize : a.size ≤ 2 ^ 31) (ht : a.compile = .ok t) :
      Filled t

/-- What it means that a table is compressed by merging its columns. They are numbered by their smallest symbols, each
of which comes after symbols of smaller columns only. -/
structure Merges (t : Table) : Prop where
  exact : ∀ s s', t.compress.columnOf s = t.compress.columnOf s' ↔
    ∀ id < t.states, TransitionTable.next t id s = TransitionTable.next t id s'
  columnOf_lt : ∀ s, t.compress.columnOf s < t.compress.columns
  smallest : ∀ column < t.compress.columns, ∃ s, t.compress.columnOf s = column ∧
    ∀ s' < s, t.compress.columnOf s' < column
  columns : t.compress.columns = (Finset.univ.image t.columnCells).card
  ascending : ∀ column, (t.compress.symbolsOf column).Pairwise (· < ·)
  mem_symbolsOf : ∀ column s, s ∈ t.compress.symbolsOf column ↔ t.compress.columnOf s = column
  nonempty : ∀ column < t.compress.columns, t.compress.symbolsOf column ≠ []
  partition : ((List.range t.compress.columns).flatMap t.compress.symbolsOf).Perm Symbol.all

private theorem columns_compress (t : Table) : t.compress.columns = t.narrowed.columns := by
  rw [compress_eq]
  rfl

theorem columnCells_eq_iff (hstates : t.states = t'.states) :
    t.columnCells s = t'.columnCells s' ↔ ∀ id < t.states, t.cell id s.val = t'.cell id s'.val := by
  rw [columnCells, columnCells, Array.ext_iff]
  simp only [Array.size_ofFn, Array.getElem_ofFn, ← hstates, true_and]
  exact ⟨fun h id hid => h id hid hid, fun h id hid _ => h id hid⟩

namespace Filled

theorem valid (h : t.Filled) : t.Valid := by
  cases h with
  | accepted ht hcount => exact ht.valid
  | compiled ha hsize ht => exact valid_of_compile ha hsize ht

private theorem states_le (h : t.Filled) : t.states ≤ wordSize := by
  cases h with
  | accepted ht hcount =>
    have hcolumns := Nat.pos_of_ne_zero ht.valid.columns_ne
    exact (Nat.le_mul_of_pos_right _ hcolumns).trans hcount.le
  | @compiled a _ ha hsize ht =>
    obtain rfl := eq_table_of_compile ht
    rw [a.states_table]
    exact hsize.trans (by decide)

private theorem cell_valid (h : t.Filled) (id : StateId) (column : Nat) : t.CellValid (t.cell id column) := by
  rcases t.cell_mem id column with hcell | hcell
  · exact fun hne => absurd hcell hne
  · exact h.valid.cell_valid _ hcell

/-- Where a state leads tells what its cell holds. -/
theorem cell_eq_iff (h : t.Filled) (h' : t'.Filled) :
    t.cell id column = t'.cell id column' ↔ t.destination id column = t'.destination id column' := by
  have hvalid := h.cell_valid id column
  have hvalid' := h'.cell_valid id column'
  have hle := h.states_le
  have hle' := h'.states_le
  rw [destination_eq, destination_eq]
  constructor
  · intro hcell
    rw [hcell]
  · intro hdestination
    split at hdestination <;> split at hdestination
    · next hcell hcell' => rw [hcell, hcell']
    · contradiction
    · contradiction
    · next hcell hcell' =>
      obtain ⟨hnonneg, hlt⟩ := hvalid hcell
      obtain ⟨hnonneg', hlt'⟩ := hvalid' hcell'
      have hstate := Option.some.inj hdestination
      rw [stateOf, stateOf, Int.emod_eq_of_lt hnonneg (by omega), Int.emod_eq_of_lt hnonneg' (by omega)] at hstate
      rw [← Int.toNat_of_nonneg hnonneg, hstate, Int.toNat_of_nonneg hnonneg']

theorem columnCells_eq_iff (h : t.Filled) (h' : t'.Filled) (hstates : t.states = t'.states) :
    t.columnCells s = t'.columnCells s' ↔
      ∀ id < t.states, TransitionTable.next t id s = TransitionTable.next t' id s' := by
  rw [Table.columnCells_eq_iff hstates]
  exact forall₂_congr fun id _ => h.cell_eq_iff h'

end Filled

private theorem smallest_symbol (t : Table) (h : column < t.narrowed.columns) :
    ∃ s, t.compress.columnOf s = column ∧ ∀ s' < s, t.compress.columnOf s' < column := by
  obtain ⟨i, hi, hbefore⟩ := t.numbered_columns.exists_first h
  let s : Symbol := ⟨i, t.lt_of_columnNumbers hi⟩
  refine ⟨s, Option.some.inj ((t.getElem?_columnNumbers s).symm.trans hi), fun s' hs' => ?_⟩
  exact hbefore s'.val hs' _ (t.getElem?_columnNumbers s')

/-- The columns that are kept are the different columns of the symbols. -/
theorem columns_narrowed_eq (t : Table) : t.narrowed.columns = (Finset.univ.image t.columnCells).card := by
  have hkept : ∀ s, t.keptColumns.getD (t.compress.columnOf s) #[] = t.columnCells s := by
    intro s
    rw [Array.getD_eq_getD_getElem?, getElem?_keptColumns, Option.getD_some]
  rw [← Finset.card_range t.narrowed.columns]
  refine Finset.card_nbij (t.keptColumns.getD · #[]) (fun column hcolumn => ?_) (fun column hcolumn column' hcolumn' => ?_)
    fun cells hcells => ?_
  · obtain ⟨s, rfl⟩ := t.exists_symbol_of_column (Finset.mem_range.1 hcolumn)
    exact Finset.mem_image.2 ⟨s, Finset.mem_univ s, (hkept s).symm⟩
  · obtain ⟨s, rfl⟩ := t.exists_symbol_of_column (Finset.mem_range.1 hcolumn)
    obtain ⟨s', rfl⟩ := t.exists_symbol_of_column (Finset.mem_range.1 hcolumn')
    intro heq
    exact t.columnOf_eq_iff.2 ((hkept s).symm.trans (heq.trans (hkept s')))
  · obtain ⟨s, -, rfl⟩ := Finset.mem_image.1 hcells
    exact ⟨_, Finset.mem_coe.2 (Finset.mem_range.2 (t.columnOf_lt s)), hkept s⟩

/-- Every symbol is in exactly one of the columns. -/
theorem partition_symbols (t : Table) :
    ((List.range t.narrowed.columns).flatMap t.compress.symbolsOf).Perm Symbol.all := by
  have hnodup := t.nodup_flatMap_symbolsOf (List.nodup_range (n := t.narrowed.columns))
  refine (List.perm_ext_iff_of_nodup hnodup (Symbol.ascending_all.imp ne_of_lt)).2 fun s => ?_
  refine iff_of_true (List.mem_flatMap.2 ⟨t.compress.columnOf s, ?_, t.mem_symbolsOf.2 rfl⟩) (Symbol.mem_all s)
  exact List.mem_range.2 (t.columnOf_lt s)

private theorem Filled.merges (h : t.Filled) : t.Merges where
  exact s s' := t.columnOf_eq_iff.trans (h.columnCells_eq_iff h rfl)
  columnOf_lt s := t.columns_compress ▸ t.columnOf_lt s
  smallest column hcolumn := t.smallest_symbol (t.columns_compress ▸ hcolumn)
  columns := t.columns_compress.trans t.columns_narrowed_eq
  ascending := t.ascending_symbolsOf
  mem_symbolsOf _ _ := t.mem_symbolsOf
  nonempty column hcolumn := by
    obtain ⟨s, hs⟩ := t.exists_symbol_of_column (t.columns_compress ▸ hcolumn)
    exact List.ne_nil_of_mem (t.mem_symbolsOf.2 hs)
  partition := t.columns_compress ▸ t.partition_symbols

theorem compress_congr (hcells : ∀ s, t.columnCells s = t'.columnCells s) (hfinals : t.finals = t'.finals)
    (hinitial : t.initial = t'.initial) (hterminals : t.terminals = t'.terminals) : t.compress = t'.compress := by
  have hstates : t.states = t'.states := congrArg Array.size hfinals
  rw [compress, compress, funext hcells, merge, merge, hstates, hfinals, hinitial, hterminals]

/-- Compressing a table merges the columns that no state tells apart. What comes out depends only on what the table does,
whatever its own columns are. -/
theorem compress_canonical (h : t.Filled) : t.Merges ∧ ∀ t' : Table, t'.Filled →
    (∀ id < t.states, ∀ s, TransitionTable.next t id s = TransitionTable.next t' id s) →
      t.finals = t'.finals → t.initial = t'.initial → t.terminals = t'.terminals → t.compress = t'.compress := by
  refine ⟨h.merges, fun t' h' hnext hfinals hinitial hterminals => ?_⟩
  have hstates : t.states = t'.states := congrArg Array.size hfinals
  have hcells : ∀ s, t.columnCells s = t'.columnCells s :=
    fun s => (h.columnCells_eq_iff h' hstates).2 fun id hid => hnext id hid s
  exact compress_congr hcells hfinals hinitial hterminals

/-- The table `linked` with one more column, which leads nowhere. -/
def linkedWide : Table := ⟨3, #[1, -1, -1, -1, -1, -1], #[none, some 1], 0, ⟨["EOF", "LINK"]⟩⟩

theorem compress_canonical_linked :
    linked.Filled ∧ linked.Merges ∧ linkedWide.Filled ∧ linked.compress = linkedWide.compress := by
  have hlinked : linked.Filled := .accepted (.parts ofParts?_linked) (by decide)
  have hparts : ofParts? 3 #[1, -1, -1, -1, -1, -1] #[none, some 1] 0 ["EOF", "LINK"] = .ok linkedWide := by
    decide +kernel
  have hwide : linkedWide.Filled := .accepted (.parts hparts) (by decide)
  have hnext : ∀ id < 2, ∀ s, TransitionTable.next linked id s = TransitionTable.next linkedWide id s := by
    decide +kernel
  obtain ⟨hmerges, hcanonical⟩ := compress_canonical hlinked
  exact ⟨hlinked, hmerges, hwide, hcanonical linkedWide hwide hnext rfl rfl rfl⟩

end Table

end TableLexer
