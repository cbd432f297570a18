import TableLexer.Proofs.Outcome
import TableLexer.Proofs.Table.Compressed

/-! The lookups of a build, which can panic, and those in a table that has all of its cells: they are the same where
the count of the cells fits into a word. -/
namespace TableLexer

namespace Build

variable {n m : Nat}

private theorem word_of_lt (b : Build) (h : n < Table.wordSize) : b.word n = .ok n := if_pos h

/-- Nothing is too large for a release build. -/
theorem word_release (n : Nat) : release.word n = .ok (n % Table.wordSize) := by
  rw [word]
  split
  · next h => rw [Nat.mod_eq_of_lt h]
  · rfl

/-- A checked build has the exact number, or panics. -/
theorem word_checked_eq_ok_iff : checked.word n = .ok m ↔ n < Table.wordSize ∧ n = m := by
  rw [word]
  split
  · next h => simp [h]
  · next h => simp [h]

end Build

namespace Table

variable {t : Table}

theorem checkIn_release (t : Table) : t.checkIn .release = .ok t.check := by
  rw [checkIn, count, Build.word_release]
  rfl

/-- A checked build makes the same of a table whose cells it can count, and panics at others. -/
theorem checkIn_checked_eq_ok_iff {result : Except TableError Table} :
    t.checkIn .checked = .ok result ↔ t.states * t.columns < wordSize ∧ t.check = result := by
  rw [checkIn, except_bind_eq_ok_iff]
  simp only [count, Build.word_checked_eq_ok_iff]
  constructor
  · intro hresult
    obtain ⟨_, ⟨hlt, -⟩, hresult⟩ := hresult
    exact ⟨hlt, Except.ok.inj hresult⟩
  · intro hresult
    obtain ⟨hlt, rfl⟩ := hresult
    exact ⟨_, ⟨hlt, rfl⟩, rfl⟩

/-- No build makes anything else of a table than a release build does, unless it panics. -/
theorem check_of_checkIn {b : Build} {result : Except TableError Table} (h : t.checkIn b = .ok result) :
    t.check = result := by
  cases b with
  | release => exact Except.ok.inj ((checkIn_release t).symm.trans h)
  | checked => exact (checkIn_checked_eq_ok_iff.1 h).2

namespace Rectangular

variable (h : t.Rectangular) (hcount : t.states * t.columns < wordSize) (b : Build)
include h hcount

/-- All rows end within a word. -/
theorem row?_eq {id : StateId} (hid : id < t.states) : t.row? b id = .ok (t.row id) := by
  have hend := rowEnd_le hid
  have hfirst : t.rowStart id < wordSize := by omega
  have hsize : t.transitions.size = t.states * t.columns := h
  rw [row?, b.word_of_lt hfirst]
  show (b.word (t.rowStart id + t.columns) >>= _) = _
  rw [b.word_of_lt (hend.trans_lt hcount)]
  exact if_pos ⟨Nat.le_add_right _ _, hsize ▸ hend⟩

theorem cell?_eq (id : StateId) (column : Nat) : t.cell? b id column = .ok (t.cell id column) := by
  rw [cell?]
  split
  · next hlt =>
    have hend := rowEnd_le hlt.1
    have hcell := h.getElem?_transitions hlt.1 hlt.2
    rw [b.word_of_lt (show t.rowStart id < wordSize by omega)]
    show (b.word (t.rowStart id + column) >>= _) = _
    rw [b.word_of_lt (show t.rowStart id + column < wordSize by omega)]
    dsimp only [bind, Except.bind]
    rw [hcell]
    rfl
  · next hlt => rw [cell_of_not_lt hlt]; rfl

theorem destination?_eq (id : StateId) (column : Nat) :
    t.destination? b id column = .ok (t.destination id column) := by
  rw [destination?, h.cell?_eq hcount]
  rfl

theorem liveColumns?_eq (id : StateId) : t.liveColumns? b id = .ok (t.liveColumns id) := by
  rw [liveColumns?, liveColumns]
  split
  · next hid => rw [h.row?_eq hcount b hid]; rfl
  · rfl

theorem next?_eq (id : StateId) (s : Symbol) : t.next? b id s = .ok (TransitionTable.next t id s) :=
  h.destination?_eq hcount b id s.val

theorem expected?_eq (id : StateId) : t.expected? b id = .ok (TransitionTable.expected t id) := by
  rw [expected?, h.liveColumns?_eq hcount]
  rfl

private theorem columnCells?_eq (s : Symbol) : t.columnCells? b s = .ok (t.columnCells s) := by
  have hcells : t.columnCells s = ((List.range t.states).map fun id => t.cell id s.val).toArray :=
    Array.ext (by simp [columnCells]) fun id hid hid' => by simp [columnCells]
  rw [columnCells?, mapM_eq_ok_map fun id _ => h.cell?_eq hcount b id s.val, hcells]
  rfl

/-- Compressing panics at most where the cells that are left are counted. -/
theorem compress?_eq : t.compress? b = (t.narrowed.count b).map fun _ => t.compress := by
  rw [compress?, mapM_eq_ok_map fun s _ => h.columnCells?_eq hcount b s]
  show ((t.merge t.allColumns).table.count b >>= fun _ => .ok (t.merge t.allColumns)) = _
  have hmerged : t.merge t.allColumns = t.compress := rfl
  rw [hmerged, compress_eq]
  show (t.narrowed.count b >>= _) = _
  cases t.narrowed.count b with
  | ok n => rfl
  | error panic => rfl

omit b in
theorem compress?_release : t.compress? .release = .ok t.compress := by
  rw [h.compress?_eq hcount, count, Build.word_release]
  rfl

end Rectangular

end Table

end TableLexer
