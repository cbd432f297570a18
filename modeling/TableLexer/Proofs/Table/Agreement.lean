import TableLexer.Proofs.Table.Bounds

/-! A compressed table tells all that its table does, and is rebuilt from its parts. -/
namespace TableLexer

/-- What a scanner can ask of two tables has the same answers, in every state and out of all states. What is
expected is in ascending order. -/
structure TableAgreement {τ τ' : Type} [TransitionTable τ] [TransitionTable τ'] (t : τ) (t' : τ') : Prop where
  initial : TransitionTable.initial t' = TransitionTable.initial t
  terminals : TransitionTable.terminals t' = TransitionTable.terminals t
  next : ∀ id s, TransitionTable.next t' id s = TransitionTable.next t id s
  accepts : ∀ id, TransitionTable.accepts t' id = TransitionTable.accepts t id
  expected : ∀ id, TransitionTable.expected t' id = TransitionTable.expected t id
  ascending : ∀ id, (TransitionTable.expected t id).Pairwise (· < ·)

/-- A compressed table is accepted from its parts. -/
def CompressedTable.Rebuilds (c : CompressedTable) : Prop :=
  ofParts? c.table.columns c.table.transitions c.table.finals c.table.initial c.table.terminals.names
    c.symbolToColumn = .ok c

namespace Table

variable {t : Table} {s : Symbol}

private theorem Rectangular.agreement (h : t.Rectangular) : TableAgreement t t.compress where
  initial := rfl
  terminals := rfl
  next := t.destination_compress
  accepts _ := rfl
  expected id := (t.liveSymbols_compress id).trans (h.expected_eq id).symm
  ascending id := by
    rw [h.expected_eq]
    exact Symbol.ascending_all.filter _

private theorem columnCells_of_columns_le (h : t.columns ≤ s.val) :
    t.columnCells s = Array.ofFn fun _ : Fin t.states => noTransition :=
  congrArg Array.ofFn (funext fun _ => cell_of_not_lt fun hlt => Nat.not_lt.2 h hlt.2)

/-- All symbols without a column of their own share one. -/
private theorem columns_narrowed_le_succ (t : Table) : t.narrowed.columns ≤ t.columns + 1 := by
  have hle := t.columns_narrowed_le
  by_cases hwide : 256 ≤ t.columns
  · omega
  · have hsubset : List.range t.narrowed.columns ⊆
        (List.range (t.columns + 1)).map fun i => t.compress.columnOf (Fin.ofNat 256 i) := by
      intro column hcolumn
      obtain ⟨s, rfl⟩ := t.exists_symbol_of_column (List.mem_range.1 hcolumn)
      rw [List.mem_map]
      by_cases hs : s.val < t.columns
      · exact ⟨s.val, List.mem_range.2 (by omega), by rw [Fin.ofNat_val_eq_self]⟩
      · have hfirst : (Fin.ofNat 256 t.columns).val = t.columns := Nat.mod_eq_of_lt (by omega)
        refine ⟨t.columns, List.mem_range.2 (by omega), t.columnOf_eq_iff.2 ?_⟩
        rw [columnCells_of_columns_le (by omega), columnCells_of_columns_le (by omega)]
    have hlength := (List.subperm_of_subset List.nodup_range hsubset).length_le
    rwa [List.length_map, List.length_range, List.length_range] at hlength

/-- Compressing a table makes it at most twice as large. -/
private theorem Valid.size_narrowed_le (h : t.Valid) : t.narrowed.transitions.size ≤ 2 * (t.states * t.columns) := by
  have hcolumns : t.narrowed.columns ≤ 2 * t.columns := by
    have hsucc := t.columns_narrowed_le_succ
    have hne := h.columns_ne
    omega
  calc t.narrowed.transitions.size
    _ = t.states * t.narrowed.columns := t.rectangular_narrowed
    _ ≤ t.states * (2 * t.columns) := Nat.mul_le_mul_left _ hcolumns
    _ = 2 * (t.states * t.columns) := Nat.mul_left_comm _ _ _

private theorem Valid.rebuilds (h : t.Valid) (hcount : 2 * (t.states * t.columns) < wordSize) :
    t.compress.Rebuilds := by
  have hvalid := h.narrowed (Nat.lt_of_le_of_lt h.size_narrowed_le hcount)
  have htable : t.compress.table = t.narrowed := by rw [compress_eq]; rfl
  have hassemble : CompressedTable.assemble t.compress.table t.compress.symbolToColumn = t.compress := by
    rw [compress_eq]
    rfl
  refine except_bind_eq_ok_iff.2 ⟨t.compress.table, ?_, CompressedTable.ofTable?_eq_ok_iff.2 ⟨?_, hassemble⟩⟩
  · rw [htable]
    exact check_eq_ok_iff.2 ⟨hvalid, rfl⟩
  · rw [hassemble]
    exact t.fault?_compress

/-- The tables whose cells can be counted in a word: accepted ones, and those of automata of no more than 2 ^ 31
states. The cells of an accepted table stand in a vector of fewer than 2 ^ 63 bytes, in which each takes four. -/
inductive Counted : Table → Prop where
  | accepted {t : Table} (ht : t.Accepted) (hcount : t.states * t.columns < wordSize)
      (hbytes : 4 * t.transitions.size < 2 ^ 63) : Counted t
  | compiled {a : Automaton} {t : Table} (ha : a.Obtained) (hsize : a.size ≤ 2 ^ 31) (ht : a.compile = .ok t) :
      Counted t

theorem valid_of_compile {a : Automaton} (ha : a.Obtained) (hsize : a.size ≤ 2 ^ 31) (ht : a.compile = .ok t) :
    t.Valid := by
  obtain rfl := eq_table_of_compile ht
  exact Automaton.valid_table ha.kept.1 hsize

theorem Counted.valid (h : t.Counted) : t.Valid := by
  cases h with
  | accepted ht hcount hbytes => exact ht.valid
  | compiled ha hsize ht => exact valid_of_compile ha hsize ht

private theorem Counted.count_lt (h : t.Counted) : 2 * (t.states * t.columns) < wordSize := by
  have hword : wordSize = 2 ^ 64 := rfl
  cases h with
  | accepted ht hcount hbytes =>
    have hsize : t.transitions.size = t.states * t.columns := ht.valid.rectangular hcount
    omega
  | @compiled a _ ha hsize ht =>
    obtain rfl := eq_table_of_compile ht
    rw [a.states_table, show a.table.columns = 256 from rfl]
    omega

/-- Compressing a table changes nothing that a scanner could ask, and leaves what is accepted from its parts. -/
theorem compress_exact (h : t.Counted) : TableAgreement t t.compress ∧ t.compress.Rebuilds := by
  have hcount := h.count_lt
  exact ⟨(h.valid.rectangular (by omega)).agreement, h.valid.rebuilds hcount⟩

theorem compress_exact_linked : linked.Accepted ∧ TableAgreement linked linked.compress ∧ linked.compress.Rebuilds := by
  have haccepted : linked.Accepted := .parts ofParts?_linked
  exact ⟨haccepted, compress_exact (.accepted haccepted (by decide) (by decide))⟩

end Table

end TableLexer
