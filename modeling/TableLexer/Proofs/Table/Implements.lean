import TableLexer.Proofs.Automaton.Minimal
import TableLexer.Proofs.Table.Basic
import TableLexer.Table.Compiled

/-! The table of a deterministic automaton does for each state what the automaton does. -/
namespace TableLexer

/-- What a table says of the places of some states is what an automaton does in these states. -/
structure Implements {τ : Type} [TransitionTable τ] (t : τ) (d : Automaton) (place : StateId → StateId)
    (states : Set StateId) : Prop where
  initial : TransitionTable.initial t = place d.initial
  terminals : TransitionTable.terminals t = d.terminals
  next : ∀ q ∈ states, ∀ s, TransitionTable.next t (place q) s = (d.transition? q s).map place
  accepts : ∀ q ∈ states, TransitionTable.accepts t (place q) = d.terminal? q
  expected : ∀ q ∈ states, TransitionTable.expected t (place q) =
    Symbol.all.filter fun s => (d.transition? q s).isSome

namespace Implements

variable {τ : Type} [TransitionTable τ] {t : τ} {d m : Automaton} {place place' : StateId → StateId}
  {states states' : Set StateId}

theorem mono (h : Implements t d place states) (hsubset : states' ⊆ states) : Implements t d place states' where
  initial := h.initial
  terminals := h.terminals
  next q hq := h.next q (hsubset hq)
  accepts q hq := h.accepts q (hsubset hq)
  expected q hq := h.expected q (hsubset hq)

/-- A table for an automaton that mirrors another one is a table for that one, too. -/
theorem mirror (h : Implements t m place' (Set.Iio m.size)) (hm : m.Mirrors d place)
    (hlt : ∀ q < d.size, place q < m.size) : Implements t d (place' ∘ place) (Set.Iio d.size) where
  initial := by rw [h.initial, hm.initial]; rfl
  terminals := h.terminals.trans hm.terminals
  next q hq s := by rw [Function.comp, h.next _ (hlt q hq), hm.transition q hq, Option.map_map]
  accepts q hq := by rw [Function.comp, h.accepts _ (hlt q hq), hm.terminal q hq]
  expected q hq := by simp [h.expected _ (hlt q hq), hm.transition q hq]

end Implements

namespace Table

theorem cellOf_eq {target : StateId} (h : target < 2 ^ 31) : cellOf target = (target : Int) := by
  have hlt : (target : Int) < 2 ^ 31 := by exact_mod_cast h
  apply Int.bmod_eq_of_le <;> omega

private theorem cellOf_ne_noTransition {target : StateId} (h : target < 2 ^ 31) : cellOf target ≠ noTransition := by
  rw [cellOf_eq h, noTransition]
  omega

private theorem stateOf_cellOf {target : StateId} (h : target < 2 ^ 31) : stateOf (cellOf target) = target := by
  rw [cellOf_eq h, stateOf]
  have hlt : target < wordSize := Nat.lt_trans h (by decide)
  rw [← Int.natCast_emod, Int.toNat_natCast, Nat.mod_eq_of_lt hlt]

/-- The symbol of a column, if it has one and a state has a transition there. -/
def liveSymbol? (t : Table) (id : StateId) (column : Nat) : Option Symbol :=
  if t.cell id column = noTransition then none else Symbol.ofNat? column

private theorem liveSymbol?_of_columns_le {t : Table} {column : Nat} (id : StateId) (h : t.columns ≤ column) :
    t.liveSymbol? id column = none :=
  if_pos (cell_of_not_lt fun hlt => Nat.not_lt.2 h hlt.2)

private theorem liveSymbol?_of_symbols_le {t : Table} {column : Nat} (id : StateId) (h : 256 ≤ column) :
    t.liveSymbol? id column = none := by
  rw [liveSymbol?, Symbol.ofNat?, dif_neg (Nat.not_lt.2 h), ite_self]

/-- Columns from which nothing is picked do not matter. -/
private theorem filterMap_range_eq {α : Type} {pick : Nat → Option α} {m n : Nat} (hmn : m ≤ n)
    (h : ∀ i, m ≤ i → pick i = none) : (List.range n).filterMap pick = (List.range m).filterMap pick := by
  induction n, hmn using Nat.le_induction with
  | base => rfl
  | succ n hmn ih =>
    rw [List.range_succ, List.filterMap_append, ih, List.filterMap_cons, h n hmn, List.filterMap_nil,
      List.append_nil]

/-- A state expects the symbols on whose columns it has a transition, however many columns there are. -/
theorem Rectangular.expected_eq {t : Table} (h : t.Rectangular) (id : StateId) :
    TransitionTable.expected t id = Symbol.all.filter fun s => t.cell id s.val ≠ noTransition := by
  have hlive : TransitionTable.expected t id = (List.range t.columns).filterMap (t.liveSymbol? id) := by
    show (t.liveColumns id).filterMap _ = _
    rw [h.liveColumns_eq, List.filterMap_filter]
    refine List.filterMap_congr fun column _ => ?_
    by_cases hcell : t.cell id column = noTransition
    · simp [liveSymbol?, hcell]
    · simp [liveSymbol?, hcell]
  have hsymbols : (List.range 256).filterMap (t.liveSymbol? id) =
      Symbol.all.filter fun s => t.cell id s.val ≠ noTransition := by
    rw [← List.map_coe_finRange_eq_range, ← Symbol.all_eq, List.filterMap_map, ← List.filterMap_eq_filter]
    refine List.filterMap_congr fun s _ => ?_
    by_cases hcell : t.cell id s.val = noTransition
    · simp [liveSymbol?, Option.guard, hcell]
    · simp [liveSymbol?, Symbol.ofNat?, Option.guard, hcell]
  rw [hlive, ← hsymbols,
    ← filterMap_range_eq (Nat.le_max_left t.columns 256) fun _ => liveSymbol?_of_columns_le id,
    filterMap_range_eq (Nat.le_max_right t.columns 256) fun _ => liveSymbol?_of_symbols_le id]

end Table

namespace Automaton

variable {a : Automaton}

theorem length_cells (q : State) : q.cells.toList.length = 256 := by simp [State.cells, Symbol.length_all]

/-- The cell of a transition, or of none. -/
def cellFor : Option StateId → Int
  | some target => Table.cellOf target
  | none => noTransition

theorem getElem?_cells (q : State) (s : Symbol) : q.cells.toList[s.val]? = some (cellFor (q.transition s)) := by
  rw [State.cells, List.getElem?_map, Symbol.getElem?_all, Option.map_some]
  cases q.transition s with
  | none => rw [cellFor]
  | some target => rw [cellFor]

/-- The table that a deterministic automaton is compiled to. -/
def table (a : Automaton) : Table where
  columns := 256
  transitions := a.states.flatMap State.cells
  finals := a.states.map fun q => if q.isFinal then q.terminal else none
  initial := a.initial
  terminals := a.terminals

theorem compile_eq (hdet : a.deterministic = true) : a.compile = .ok a.table := by
  unfold compile
  rw [if_pos hdet]
  rfl

theorem states_table (a : Automaton) : a.table.states = a.size := by simp [table, Table.states, size]

theorem toList_transitions (a : Automaton) :
    a.table.transitions.toList = a.states.toList.flatMap fun q => q.cells.toList := by
  simp [table, Array.toList_flatMap]

theorem rectangular_table (a : Automaton) : a.table.Rectangular := by
  have hrows : ∀ q ∈ a.states.toList, q.cells.toList.length = 256 := fun q _ => length_cells q
  have hlength := length_flatMap_rows hrows
  rw [← toList_transitions, Array.length_toList] at hlength
  rw [Table.Rectangular, hlength, states_table]
  rfl

private theorem cell_table {q : StateId} (hq : q < a.size) (s : Symbol) :
    a.table.cell q s.val = cellFor (a.transition? q s) := by
  obtain ⟨state, hstate⟩ := exists_state? hq
  have hcell := a.rectangular_table.getElem?_transitions (a.states_table.symm ▸ hq) s.isLt
  rw [← Array.getElem?_toList, toList_transitions, Table.rowStart, show a.table.columns = 256 from rfl] at hcell
  rw [getElem?_flatMap_rows (fun q _ => length_cells q) s.isLt, Array.getElem?_toList,
    show a.states[q]? = some state from hstate, Option.bind_some, getElem?_cells] at hcell
  rw [transition?, hstate, Option.bind_some]
  exact (Option.some.inj hcell).symm

/-- The states whose targets have numbers that fit into cells. -/
def fitting (a : Automaton) : Set StateId :=
  {q | q < a.size ∧ ∀ s target, a.transition? q s = some target → target < 2 ^ 31}

theorem fitting_of_size_le (ha : a.WellFormed) (hsize : a.size ≤ 2 ^ 31) : Set.Iio a.size ⊆ a.fitting :=
  fun _ hq => ⟨hq, fun _ _ hs => (ha.edge_lt (edge_some.2 hs)).trans_le hsize⟩

section fitting

variable {q : StateId} (hq : q ∈ a.fitting)
include hq

/-- A cell holds no target exactly if there is no transition. -/
private theorem cell_table_eq_iff (s : Symbol) : a.table.cell q s.val = noTransition ↔ a.transition? q s = none := by
  rw [cell_table hq.1]
  cases hs : a.transition? q s with
  | none => simp [cellFor]
  | some target => simp [cellFor, Table.cellOf_ne_noTransition (hq.2 s target hs)]

private theorem destination_table (s : Symbol) : a.table.destination q s.val = a.transition? q s := by
  rw [Table.destination_eq]
  cases hs : a.transition? q s with
  | none => rw [if_pos ((cell_table_eq_iff hq s).2 hs)]
  | some target =>
    have hsome : a.table.cell q s.val ≠ noTransition := by simp [cell_table_eq_iff hq s, hs]
    rw [if_neg hsome, cell_table hq.1, hs, cellFor, Table.stateOf_cellOf (hq.2 s target hs)]

end fitting

/-- The table of a deterministic automaton does what the automaton does in each state whose targets fit into cells. -/
theorem table_implements_fitting (ha : a.WellFormed) : Implements a.table a id a.fitting where
  initial := rfl
  terminals := rfl
  next q hq s := by
    rw [Option.map_id]
    exact destination_table hq s
  accepts q hq := by
    obtain ⟨state, hstate⟩ := exists_state? hq.1
    have hfinal := (ha.sound q state hstate).final_iff
    show (a.states.map _)[q]?.join = _
    rw [Array.getElem?_map, show a.states[q]? = some state from hstate, terminal?, hstate]
    cases hterminal : state.terminal <;> simp [hfinal, hterminal]
  expected q hq := by
    rw [a.rectangular_table.expected_eq]
    refine List.filter_congr fun s _ => Bool.eq_iff_iff.2 ?_
    rw [decide_eq_true_iff, Option.isSome_iff_ne_none]
    exact not_congr (cell_table_eq_iff hq s)

/-- The table of a deterministic automaton does in each state what the automaton does. -/
theorem table_implements (ha : a.WellFormed) (hsize : a.size ≤ 2 ^ 31) :
    Implements a.table a id (Set.Iio a.size) :=
  (table_implements_fitting ha).mono (fitting_of_size_le ha hsize)

end Automaton

end TableLexer
