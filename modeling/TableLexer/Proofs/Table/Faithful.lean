import TableLexer.Proofs.Minimization
import TableLexer.Proofs.Names
import TableLexer.Proofs.Pattern.Frozen
import TableLexer.Proofs.Table.Json

/-! Compiling gives a valid table that tells all there is to know of a deterministic automaton. -/
namespace TableLexer

namespace Table

variable {t : Table}

/-- The parts of a valid table make it up again. -/
theorem Valid.reassembles (h : t.Valid) :
    ofParts? t.columns t.transitions t.finals t.initial t.terminals.names = .ok t := by
  rw [ofParts?_eq_check]
  exact check_eq_ok_iff.2 ⟨h, rfl⟩

/-- What it means that a table tells what an automaton does: it has a row of 256 cells for each state, which has the
same transitions and accepts the same terminal, and expects exactly the symbols on which there is a transition, in
ascending order. -/
structure Pictures (t : Table) (d : Automaton) : Prop where
  columns : t.columns = 256
  states : t.states = d.size
  size : t.transitions.size = d.size * 256
  initial : t.initial = d.initial
  terminals : t.terminals = d.terminals
  next : ∀ q < d.size, ∀ s, TransitionTable.next t q s = d.transition? q s
  accepts : ∀ q < d.size, TransitionTable.accepts t q = d.terminal? q
  expected : ∀ q < d.size, ∀ s, s ∈ TransitionTable.expected t q ↔ ∃ target, d.transition? q s = some target
  ascending : ∀ q < d.size, (TransitionTable.expected t q).Pairwise (· < ·)

end Table

namespace Automaton

variable {d : Automaton}

private theorem table_pictures (hd : d.WellFormed) (hsize : d.size ≤ 2 ^ 31) : d.table.Pictures d := by
  have himplements := table_implements hd hsize
  have hcells := d.rectangular_table
  rw [Table.Rectangular, states_table] at hcells
  refine ⟨rfl, d.states_table, hcells, rfl, rfl, fun q hq s => ?_, himplements.accepts, fun q hq s => ?_,
    fun q hq => ?_⟩
  · exact (himplements.next q hq s).trans (congrFun Option.map_id _)
  · rw [show TransitionTable.expected d.table q = _ from himplements.expected q hq, List.mem_filter,
      ← Option.isSome_iff_exists]
    exact and_iff_right (Symbol.mem_all s)
  · rw [show TransitionTable.expected d.table q = _ from himplements.expected q hq]
    exact Symbol.ascending_all.filter _

/-- Every deterministic automaton of at most 2 ^ 31 states that building, determinizing and minimizing lead to is
compiled to a table that tells what it does. The parts of the table fit together and make it up again. So do its names:
the map that was kept up to date while they were registered is the one that is made from them, and goes back and
forth between ids and names. -/
theorem compile_faithful (hd : d.Obtained) (hdet : d.deterministic = true) (hsize : d.size ≤ 2 ^ 31) :
    ∃ t, d.compile = .ok t ∧ t.Pictures d ∧
      Table.ofParts? t.columns t.transitions t.finals t.initial t.terminals.names = .ok t ∧
      (∃ names, t.terminals = Registry.initial.registering names ∧
        names.foldl Directory.encode (.ofNames [eofName]) = .ofNames t.terminals.names) ∧
      ∀ id name, t.terminals.id? name = some id ↔ t.terminals.name? id = some name := by
  refine ⟨d.table, compile_eq hdet, table_pictures hd.kept.1 hsize, (valid_table hd.kept.1 hsize).reassembles, ?_,
    fun id name => Registry.id?_eq_some_iff hd.nodup_names⟩
  obtain ⟨names, hnames⟩ := hd.registered
  refine ⟨names, hnames, ?_⟩
  rw [show d.table.terminals = _ from hnames]
  exact Registry.ofNames_registering Registry.initial names

theorem compile_faithful_letterEach : ∃ m t, letterEach.minimize = .ok m ∧ m.compile = .ok t ∧ t.Pictures m ∧
    Table.ofParts? t.columns t.transitions t.finals t.initial t.terminals.names = .ok t := by
  obtain ⟨m, hm, hsize⟩ := exists_minimize_letterEach
  have hle : m.size ≤ 2 ^ 31 := by omega
  obtain ⟨t, ht, hpictures, hparts, -⟩ :=
    compile_faithful (obtained_letterEach.minimize hm) (deterministic_of_minimize hm) hle
  exact ⟨m, t, hm, ht, hpictures, hparts⟩

end Automaton

end TableLexer
