import TableLexer.Proofs.Scanner.Lookups
import TableLexer.Proofs.Table.Json

/-! Lookups stay in the cells of an accepted table as long as the number of its cells fits into a word. -/
namespace TableLexer

namespace Table

variable {t : Table}

/-- The tables that are accepted from parts, or from a text, if their cells are counted as in a release build. -/
inductive Accepted : Table → Prop where
  | parts {columns : Nat} {transitions : Array Int} {finals : Array (Option TerminalId)} {initial : StateId}
      {terminals : List String} {t : Table}
      (ht : ofParts? columns transitions finals initial terminals = .ok t) : Accepted t
  | json {text : String} {t : Table} (ht : ofJson? text = .ok t) : Accepted t

theorem Accepted.valid (h : t.Accepted) : t.Valid := by
  cases h with
  | parts ht =>
    rw [ofParts?_eq_check] at ht
    obtain ⟨hvalid, rfl⟩ := check_eq_ok_iff.1 ht
    exact hvalid
  | json ht => exact (storable_of_ofJson? ht).valid

/-- The tables that a build accepts from parts, or from a text. -/
inductive AcceptedIn (b : Build) : Table → Prop where
  | parts {columns : Nat} {transitions : Array Int} {finals : Array (Option TerminalId)} {initial : StateId}
      {terminals : List String} {t : Table}
      (ht : ofPartsIn b columns transitions finals initial terminals = .ok (.ok t)) : AcceptedIn b t
  | json {text : String} {t : Table} (ht : ofJsonIn b text = .ok (.ok t)) : AcceptedIn b t

namespace Valid

variable (h : t.Valid)
include h

theorem rectangular (hcount : t.states * t.columns < wordSize) : t.Rectangular := by
  rw [Rectangular, h.size_eq, cellCount, Nat.mod_eq_of_lt hcount]

/-- The last cell of the last row tells whether the count of the cells has wrapped around. -/
theorem forall_index_lt_iff : (∀ id < t.states, ∀ column < t.columns, id * t.columns + column < t.transitions.size) ↔
    t.states * t.columns < wordSize := by
  constructor
  · intro hindex
    obtain ⟨id, hid⟩ := Nat.exists_eq_succ_of_ne_zero h.states_ne
    obtain ⟨column, hcolumn⟩ := Nat.exists_eq_succ_of_ne_zero h.columns_ne
    have hlast := hindex id (by omega) column (by omega)
    have hsize : t.transitions.size < wordSize := by
      rw [h.size_eq]
      exact Nat.mod_lt _ (by decide)
    have hcount : t.states * t.columns = id * t.columns + column + 1 := by
      rw [hid, Nat.succ_mul]
      omega
    omega
  · intro hcount id hid column hcolumn
    exact (h.rectangular hcount).index_lt hid hcolumn

end Valid

namespace AcceptedIn

/-- A build has checked what it accepts. -/
theorem checkIn {b : Build} (h : t.AcceptedIn b) : t.checkIn b = .ok (.ok t) := by
  cases h with
  | parts ht =>
    obtain ⟨-, rfl⟩ := check_eq_ok_iff.1 (check_of_checkIn ht)
    exact ht
  | json ht =>
    unfold ofJsonIn at ht
    split at ht
    · obtain ⟨-, rfl⟩ := check_eq_ok_iff.1 (check_of_checkIn ht)
      exact ht
    · simp [pure, Except.pure] at ht

theorem valid {b : Build} (h : t.AcceptedIn b) : t.Valid := (check_eq_ok_iff.1 (check_of_checkIn h.checkIn)).1

/-- A checked build can count the cells of what it accepts. -/
theorem count_lt (h : t.AcceptedIn .checked) : t.states * t.columns < wordSize :=
  (checkIn_checked_eq_ok_iff.1 h.checkIn).1

end AcceptedIn

/-- What it means that no lookup leaves the cells of a table: each cell is there and holds what it may hold, and no
build panics when it looks something up, or scans a token wherever a scanner stands, nor a release build when it
merges columns. -/
structure InBounds (t : Table) : Prop where
  cell_valid : ∀ id < t.states, ∀ column < t.columns, ∃ cell,
    t.transitions[id * t.columns + column]? = some cell ∧ t.CellValid cell
  cell : ∀ (b : Build) id column, t.cell? b id column = .ok (t.cell id column)
  row : ∀ (b : Build), ∀ id < t.states, t.row? b id = .ok (t.row id)
  destination : ∀ (b : Build) id column, t.destination? b id column = .ok (t.destination id column)
  liveColumns : ∀ (b : Build) id, t.liveColumns? b id = .ok (t.liveColumns id)
  compress : t.compress? .release = .ok t.compress
  scanOne : ∀ (b : Build) (s : Scanner Table), s.table = t → s.scanOne? b = .ok s.scanOne

private theorem Valid.inBounds (h : t.Valid) (hcount : t.states * t.columns < wordSize) : t.InBounds where
  cell_valid id hid column hcolumn := by
    have hcell := (h.rectangular hcount).getElem?_transitions hid hcolumn
    exact ⟨_, hcell, h.cell_valid _ (Array.mem_of_getElem? hcell)⟩
  cell := (h.rectangular hcount).cell?_eq hcount
  row b _ hid := (h.rectangular hcount).row?_eq hcount b hid
  destination := (h.rectangular hcount).destination?_eq hcount
  liveColumns := (h.rectangular hcount).liveColumns?_eq hcount
  compress := (h.rectangular hcount).compress?_release hcount
  scanOne b _ hs := Scanner.scanOne?_eq (h.rectangular hcount) hcount b hs

/-- The initial state of an accepted table exists, and its cells hold what they may hold. All of the cells that states
and columns name are there exactly if their number fits into a word, and then no lookup leaves them. A checked build
accepts no other table, but a release build does. -/
theorem accepted_in_bounds {b : Build} (h : t.AcceptedIn b) : t.initial < t.states ∧
    (∀ cell ∈ t.transitions, t.CellValid cell) ∧
    ((∀ id < t.states, ∀ column < t.columns, id * t.columns + column < t.transitions.size) ↔
      t.states * t.columns < wordSize) ∧
    (t.states * t.columns < wordSize → t.InBounds) ∧ (b = .checked → t.states * t.columns < wordSize) := by
  have hvalid := h.valid
  refine ⟨hvalid.initial_lt, hvalid.cell_valid, hvalid.forall_index_lt_iff, hvalid.inBounds, fun hb => ?_⟩
  subst hb
  exact h.count_lt

/-- A table of two states, one of which leads to the other on its first column. -/
def linked : Table := ⟨2, #[1, -1, -1, -1], #[none, some 1], 0, ⟨["EOF", "LINK"]⟩⟩

theorem ofParts?_linked : ofParts? 2 #[1, -1, -1, -1] #[none, some 1] 0 ["EOF", "LINK"] = .ok linked := by
  decide +kernel

theorem accepted_in_bounds_linked : linked.AcceptedIn .release ∧ linked.states * linked.columns < wordSize ∧
    linked.InBounds := by
  have haccepted : linked.AcceptedIn .release :=
    .parts ((checkIn_release _).trans (congrArg _ ofParts?_linked))
  have hcount : linked.states * linked.columns < wordSize := by decide
  obtain ⟨-, -, -, hbounds, -⟩ := accepted_in_bounds haccepted
  exact ⟨haccepted, hcount, hbounds hcount⟩

/-- A table of two states and so many columns that the count of its cells wraps around to zero. -/
def wide : Table := ⟨2 ^ 63, #[], #[none, none], 0, ⟨["EOF"]⟩⟩

/-- A release build accepts the table without a single cell, and panics wherever it looks for one. A checked build
panics when it counts the cells. -/
theorem wide_out_of_bounds : ofPartsIn .release (2 ^ 63) #[] #[none, none] 0 ["EOF"] = .ok (.ok wide) ∧
    0 < wide.states ∧ 0 < wide.columns ∧ ¬ 0 * wide.columns + 0 < wide.transitions.size ∧
    wide.cell? .release 0 0 = .error .index ∧ wide.destination? .release 0 0 = .error .index ∧
    wide.row? .release 0 = .error .index ∧ wide.liveColumns? .release 0 = .error .index ∧
    wide.compress? .release = .error .index ∧
    (Scanner.ofText wide "a").scanOne? .release = .error .index ∧
    ofPartsIn .checked (2 ^ 63) #[] #[none, none] 0 ["EOF"] = .error .overflow := by
  have hscan : ((Scanner.ofText wide "a").scanOne? .release).map (fun _ => ()) = .error .index := by decide +kernel
  refine ⟨by decide +kernel, by decide, by decide, by decide, rfl, rfl, rfl, rfl, by decide +kernel, ?_, by decide +kernel⟩
  cases hresult : (Scanner.ofText wide "a").scanOne? .release with
  | error panic => rw [hresult] at hscan; exact congrArg Except.error (Except.error.inj hscan)
  | ok result => rw [hresult] at hscan; contradiction

end Table

end TableLexer
