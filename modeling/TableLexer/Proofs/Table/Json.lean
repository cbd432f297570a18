import TableLexer.Proofs.Automaton.Obtained
import TableLexer.Proofs.Json.RoundTrip
import TableLexer.Proofs.Table.Valid
import TableLexer.Table.Json

/-! Tables that are written as JSON are read back as they were. -/
namespace TableLexer

namespace Json

private theorem asNat?_ofNat {bound n : Nat} (h : n < bound) : asNat? bound (ofNat n) = some n := by
  simp [asNat?, ofNat, h]

private theorem asNat?_lt {bound n : Nat} {j : Json} (h : asNat? bound j = some n) : n < bound := by
  unfold asNat? at h
  split at h
  · split at h
    · next hn =>
      obtain rfl := Option.some.inj h
      omega
    · contradiction
  · contradiction

private theorem asList?_ofList {α : Type} {write : α → Json} {read : Json → Option α} {items : List α}
    (h : ∀ item ∈ items, read (write item) = some item) : asList? read (ofList write items) = some items := by
  rw [ofList, asList?]
  induction items with
  | nil => rfl
  | cons item items ih =>
    obtain ⟨hitem, hitems⟩ := List.forall_mem_cons.1 h
    simp [hitem, ih hitems]

private theorem forall_of_asList? {α : Type} {read : Json → Option α} {good : α → Prop}
    (hread : ∀ j x, read j = some x → good x) {j : Json} {items : List α} (h : asList? read j = some items) :
    ∀ item ∈ items, good item := by
  unfold asList? at h
  split at h
  · next values =>
    induction values generalizing items with
    | nil =>
      obtain rfl := Option.some.inj h
      simp
    | cons value values ih =>
      rw [List.mapM_cons, Option.bind_eq_bind, Option.bind_eq_some_iff] at h
      obtain ⟨item, hitem, h⟩ := h
      obtain ⟨rest, hrest, h⟩ := Option.bind_eq_some_iff.1 h
      obtain rfl := Option.some.inj h
      exact List.forall_mem_cons.2 ⟨hread value item hitem, ih hrest⟩
  · contradiction

private theorem spelled_ofList {α : Type} {write : α → Json} (h : ∀ x, Spelled (write x)) (items : List α) :
    Spelled (ofList write items) := by
  refine .array fun item hitem => ?_
  obtain ⟨x, -, rfl⟩ := List.mem_map.1 hitem
  exact h x

end Json

namespace Table

variable {t : Table}

/-- The parts of a table fit into words: cells into 32 bits, and what else is a number into 64. -/
structure InWords (t : Table) : Prop where
  columns_lt : t.columns < wordSize
  cell_bounds : ∀ cell ∈ t.transitions, -0x80000000 ≤ cell ∧ cell < 0x80000000
  terminal_lt : ∀ id, some id ∈ t.finals → id < wordSize
  initial_lt : t.initial < wordSize

private theorem spelled_toJson (t : Table) : t.toJson.Spelled := by
  have hterminal (terminal : Option TerminalId) : (terminal.elim .null Json.ofNat).Spelled := by
    cases terminal with
    | none => exact .null
    | some id => exact .integer id
  refine .object (by simp) ?_
  simp only [List.forall_mem_cons]
  exact ⟨.integer _, Json.spelled_ofList .integer _, Json.spelled_ofList hterminal _, .integer _,
    Json.spelled_ofList .string _, by simp⟩

private theorem record?_toJson (t : Table) :
    t.toJson.record? ["columns", "transitions", "finals", "initial", "terminals"] =
      some [.ofNat t.columns, .ofList .integer t.transitions.toList,
        .ofList (fun terminal => terminal.elim .null .ofNat) t.finals.toList, .ofNat t.initial,
        .ofList .ofString t.terminals.names] := by
  simp [toJson, Json.record?, Json.field?]

private theorem rawOfJson?_eq_some {value columns transitions finals initial terminals : Json}
    (hrecord : value.record? ["columns", "transitions", "finals", "initial", "terminals"] =
      some [columns, transitions, finals, initial, terminals])
    (hcolumns : columns.asNat? wordSize = some t.columns)
    (htransitions : transitions.asList? cellOfJson? = some t.transitions.toList)
    (hfinals : finals.asList? terminalOfJson? = some t.finals.toList)
    (hinitial : initial.asNat? wordSize = some t.initial)
    (hterminals : terminals.asList? Json.asString? = some t.terminals.names) : rawOfJson? value = some t := by
  rw [rawOfJson?, hrecord]
  simp only [Option.bind_eq_bind, Option.bind_some, hcolumns, htransitions, hfinals, hinitial, hterminals]
  rfl

private theorem terminalOfJson?_elim {terminal : Option TerminalId} (h : ∀ id, terminal = some id → id < wordSize) :
    terminalOfJson? (terminal.elim .null .ofNat) = some terminal := by
  cases terminal with
  | none => rfl
  | some id =>
    have hid := Json.asNat?_ofNat (h id rfl)
    rw [Option.elim_some, Json.ofNat, terminalOfJson?, ← Json.ofNat, hid, Option.map_some]
    simp

/-- A table whose parts fit into words is found in the value that stands for it. -/
theorem InWords.rawOfJson?_toJson (h : t.InWords) : rawOfJson? t.toJson = some t := by
  have hcolumns := Json.asNat?_ofNat h.columns_lt
  have hinitial := Json.asNat?_ofNat h.initial_lt
  have hcells : Json.asList? cellOfJson? (.ofList .integer t.transitions.toList) = some t.transitions.toList := by
    refine Json.asList?_ofList fun cell hcell => ?_
    rw [cellOfJson?, if_pos (h.cell_bounds cell (Array.mem_toList_iff.1 hcell))]
  have hfinals : Json.asList? terminalOfJson? (.ofList (fun terminal => terminal.elim .null .ofNat) t.finals.toList) =
      some t.finals.toList := by
    refine Json.asList?_ofList fun terminal hterminal => terminalOfJson?_elim fun id hid => ?_
    exact h.terminal_lt id (hid ▸ Array.mem_toList_iff.1 hterminal)
  have hterminals : Json.asList? Json.asString? (.ofList .ofString t.terminals.names) = some t.terminals.names :=
    Json.asList?_ofList fun _ _ => rfl
  exact rawOfJson?_eq_some t.record?_toJson hcolumns hcells hfinals hinitial hterminals

private theorem cellOfJson?_bounds {j : Json} {cell : Int} (h : cellOfJson? j = some cell) :
    -0x80000000 ≤ cell ∧ cell < 0x80000000 := by
  unfold cellOfJson? at h
  split at h
  · split at h
    · next hbounds => exact Option.some.inj h ▸ hbounds
    · contradiction
  · contradiction

private theorem terminalOfJson?_lt {j : Json} {terminal : Option TerminalId} (h : terminalOfJson? j = some terminal) :
    ∀ id, terminal = some id → id < wordSize := by
  unfold terminalOfJson? at h
  split at h
  · obtain rfl := Option.some.inj h
    simp
  · obtain ⟨id, hid, rfl⟩ := Option.map_eq_some_iff.1 h
    intro id' hid'
    obtain rfl := Option.some.inj hid'
    exact Json.asNat?_lt hid

private theorem inWords_of_rawOfJson? {j : Json} (h : rawOfJson? j = some t) : t.InWords := by
  unfold rawOfJson? at h
  obtain ⟨parts, -, h⟩ := Option.bind_eq_some_iff.1 h
  split at h
  · obtain ⟨columns, hcolumns, h⟩ := Option.bind_eq_some_iff.1 h
    obtain ⟨transitions, htransitions, h⟩ := Option.bind_eq_some_iff.1 h
    obtain ⟨finals, hfinals, h⟩ := Option.bind_eq_some_iff.1 h
    obtain ⟨initial, hinitial, h⟩ := Option.bind_eq_some_iff.1 h
    obtain ⟨terminals, -, h⟩ := Option.bind_eq_some_iff.1 h
    obtain rfl := Option.some.inj h
    constructor
    · exact Json.asNat?_lt hcolumns
    · simpa using Json.forall_of_asList? (fun _ _ => cellOfJson?_bounds) htransitions
    · intro id hid
      exact Json.forall_of_asList? (fun _ _ => terminalOfJson?_lt) hfinals _ (List.mem_toArray.1 hid) id rfl
    · exact Json.asNat?_lt hinitial
  · contradiction

theorem check_eq_ok_iff {t' : Table} : t.check = .ok t' ↔ t.Valid ∧ t = t' := by
  rw [check, ← fault?_eq_none_iff]
  cases t.fault? with
  | none => simp
  | some reason => simp

/-- A table that is valid and whose parts fit into words. -/
structure Storable (t : Table) : Prop where
  valid : t.Valid
  inWords : t.InWords

private theorem Storable.ofJson?_json (h : t.Storable) : ofJson? t.json = .ok t := by
  rw [ofJson?, json, t.spelled_toJson.parse?_compact, Option.bind_some, h.inWords.rawOfJson?_toJson]
  exact check_eq_ok_iff.2 ⟨h.valid, rfl⟩

theorem storable_of_ofJson? {text : String} (h : ofJson? text = .ok t) : t.Storable := by
  unfold ofJson? at h
  split at h
  · next raw hraw =>
    obtain ⟨value, -, hvalue⟩ := Option.bind_eq_some_iff.1 hraw
    obtain ⟨hvalid, rfl⟩ := check_eq_ok_iff.1 h
    exact ⟨hvalid, inWords_of_rawOfJson? hvalue⟩
  · contradiction

theorem ofParts?_eq_check (columns : Nat) (transitions : Array Int) (finals : Array (Option TerminalId))
    (initial : StateId) (terminals : List String) : ofParts? columns transitions finals initial terminals =
      (⟨columns, transitions, finals, initial, ⟨terminals⟩⟩ : Table).check := rfl

/-- A table of no more than 2 ^ 31 states has cells of 32 bits. -/
theorem Valid.inWords (h : t.Valid) (hcolumns : t.columns < wordSize) (hstates : t.states < 2 ^ 31)
    (hterminals : t.terminals.size ≤ wordSize) : t.InWords where
  columns_lt := hcolumns
  cell_bounds cell hcell := by
    by_cases hnone : cell = noTransition
    · rw [hnone, noTransition]
      decide
    · have hbounds := h.cell_valid cell hcell hnone
      omega
  terminal_lt id hid := Nat.lt_of_lt_of_le (of_decide_eq_true (h.terminal_known id hid).2) hterminals
  initial_lt := h.initial_lt.trans (hstates.trans (by decide))

private theorem InWords.narrowed (h : t.InWords) : t.narrowed.InWords where
  columns_lt := Nat.lt_of_le_of_lt t.columns_narrowed_le (by decide)
  cell_bounds cell hcell := by
    rcases mem_transitions_narrowed hcell with rfl | hcell
    · decide
    · exact h.cell_bounds cell hcell
  terminal_lt := h.terminal_lt
  initial_lt := h.initial_lt

/-- The tables to be had: of a deterministic automaton with fewer than 2 ^ 31 states, of parts, or of a text.
The number of terminals and what is given as parts fit into words. -/
inductive Available : Table → Prop where
  | compiled {a : Automaton} {t : Table} (ha : a.Obtained) (hsize : a.size < 2 ^ 31)
      (hterminals : a.terminals.size ≤ wordSize) (ht : a.compile = .ok t) : Available t
  | parts {columns : Nat} {transitions : Array Int} {finals : Array (Option TerminalId)} {initial : StateId}
      {terminals : List String} {t : Table}
      (hwords : (⟨columns, transitions, finals, initial, ⟨terminals⟩⟩ : Table).InWords)
      (ht : ofParts? columns transitions finals initial terminals = .ok t) : Available t
  | json {text : String} {t : Table} (ht : ofJson? text = .ok t) : Available t

theorem eq_table_of_compile {a : Automaton} (h : a.compile = .ok t) : a.table = t := by
  cases hdet : a.deterministic with
  | true => exact Except.ok.inj ((Automaton.compile_eq hdet).symm.trans h)
  | false => simp [Automaton.compile, hdet] at h

private theorem Available.storable (h : t.Available) : t.Storable := by
  cases h with
  | @compiled a _ ha hsize hterminals ht =>
    obtain rfl := eq_table_of_compile ht
    have hvalid := Automaton.valid_table ha.kept.1 hsize.le
    have hcolumns : (256 : Nat) < wordSize := by decide
    exact ⟨hvalid, hvalid.inWords hcolumns (a.states_table.symm ▸ hsize) hterminals⟩
  | parts hwords ht =>
    rw [ofParts?_eq_check] at ht
    obtain ⟨hvalid, rfl⟩ := check_eq_ok_iff.1 ht
    exact ⟨hvalid, hwords⟩
  | json ht => exact storable_of_ofJson? ht

end Table

namespace CompressedTable

variable {c : CompressedTable}

/-- A compressed table over a storable one, whose columns fit it and have the symbols that follow from the
columns of the symbols. -/
structure Storable (c : CompressedTable) : Prop where
  table : c.table.Storable
  fault_none : c.fault? = none
  eq_assemble : assemble c.table c.symbolToColumn = c

private theorem spelled_toJson (c : CompressedTable) : c.toJson.Spelled := by
  refine .object (by simp) ?_
  simp only [List.forall_mem_cons]
  exact ⟨c.table.spelled_toJson, Json.spelled_ofList (fun n => .integer (n : Nat)) _, by simp⟩

theorem ofTable?_eq_ok_iff {table : Table} {symbolToColumn : Array Nat} :
    ofTable? table symbolToColumn = .ok c ↔ (assemble table symbolToColumn).fault? = none ∧
      assemble table symbolToColumn = c := by
  unfold ofTable?
  dsimp only
  cases (assemble table symbolToColumn).fault? with
  | none => simp
  | some reason => simp

private theorem storable_of_ofTable? {table : Table} {symbolToColumn : Array Nat} (ht : table.Storable)
    (h : ofTable? table symbolToColumn = .ok c) : c.Storable := by
  obtain ⟨hfault, rfl⟩ := ofTable?_eq_ok_iff.1 h
  exact ⟨ht, hfault, rfl⟩

private theorem Storable.column_lt (h : c.Storable) : ∀ column ∈ c.symbolToColumn, column < Table.wordSize := by
  have hfault := h.fault_none
  unfold fault? at hfault
  split at hfault
  · contradiction
  · split at hfault
    · contradiction
    · next hmissing =>
      intro column hcolumn
      have hlt := Array.findIdx?_eq_none_iff.1 hmissing column hcolumn
      exact (Nat.lt_of_not_le (of_decide_eq_false hlt)).trans h.table.inWords.columns_lt

private theorem rawOfJson?_eq {value table symbols : Json} {t : Table} {symbolToColumn : List Nat}
    (hrecord : value.record? ["table", "symbol_to_column"] = some [table, symbols])
    (htable : Table.rawOfJson? table = some t)
    (hsymbols : symbols.asList? (Json.asNat? Table.wordSize) = some symbolToColumn) :
    rawOfJson? value = some (t, symbolToColumn) := by
  rw [rawOfJson?, hrecord]
  simp only [Option.bind_eq_bind, Option.bind_some, htable, hsymbols, Option.pure_def]

private theorem Storable.rawOfJson?_toJson (h : c.Storable) :
    rawOfJson? c.toJson = some (c.table, c.symbolToColumn.toList) := by
  have hrecord : c.toJson.record? ["table", "symbol_to_column"] =
      some [c.table.toJson, .ofList .ofNat c.symbolToColumn.toList] := by
    simp [toJson, Json.record?, Json.field?]
  have hsymbols : Json.asList? (Json.asNat? Table.wordSize) (.ofList .ofNat c.symbolToColumn.toList) =
      some c.symbolToColumn.toList :=
    Json.asList?_ofList fun column hcolumn => Json.asNat?_ofNat (h.column_lt column (Array.mem_toList_iff.1 hcolumn))
  exact rawOfJson?_eq hrecord h.table.inWords.rawOfJson?_toJson hsymbols

private theorem Storable.ofJson?_json (h : c.Storable) : ofJson? c.json = .ok c := by
  rw [json, ofJson?, c.spelled_toJson.parse?_compact, Option.bind_some, h.rawOfJson?_toJson]
  dsimp only
  rw [Table.check_eq_ok_iff.2 ⟨h.table.valid, rfl⟩]
  refine ofTable?_eq_ok_iff.2 ⟨?_, h.eq_assemble⟩
  rw [Array.toArray_toList, h.eq_assemble]
  exact h.fault_none

private theorem inWords_of_rawOfJson? {value : Json} {table : Table} {symbols : List Nat}
    (h : rawOfJson? value = some (table, symbols)) : table.InWords := by
  obtain ⟨fields, -, hparts⟩ := Option.bind_eq_some_iff.1 h
  split at hparts
  · obtain ⟨raw, hraw, hparts⟩ := Option.bind_eq_some_iff.1 hparts
    obtain ⟨_, -, hparts⟩ := Option.bind_eq_some_iff.1 hparts
    obtain ⟨rfl, -⟩ := Prod.mk.inj (Option.some.inj hparts)
    exact Table.inWords_of_rawOfJson? hraw
  · contradiction

theorem storable_of_ofJson? {text : String} (h : ofJson? text = .ok c) : c.Storable := by
  unfold ofJson? at h
  split at h
  · next table symbols hparts =>
    obtain ⟨value, -, hraw⟩ := Option.bind_eq_some_iff.1 hparts
    obtain ⟨table, htable, h⟩ := except_bind_eq_ok_iff.1 h
    obtain ⟨hvalid, rfl⟩ := Table.check_eq_ok_iff.1 htable
    exact storable_of_ofTable? ⟨hvalid, inWords_of_rawOfJson? hraw⟩ h
  · contradiction

private theorem storable_compress {t : Table} (h : t.Storable)
    (hcells : t.compress.table.transitions.size < Table.wordSize) : t.compress.Storable := by
  rw [t.compress_eq] at hcells
  have hfault := t.fault?_compress
  rw [t.compress_eq] at hfault ⊢
  exact ⟨⟨h.valid.narrowed hcells, h.inWords.narrowed⟩, hfault, rfl⟩

/-- The compressed tables to be had: of a table, of parts, or of a text. Like the parts, the number of cells
fits into a word. -/
inductive Available : CompressedTable → Prop where
  | compressed {t : Table} (ht : t.Available) (hcells : t.compress.table.transitions.size < Table.wordSize) :
      Available t.compress
  | parts {columns : Nat} {transitions : Array Int} {finals : Array (Option TerminalId)} {initial : StateId}
      {terminals : List String} {symbolToColumn : Array Nat} {c : CompressedTable}
      (hwords : (⟨columns, transitions, finals, initial, ⟨terminals⟩⟩ : Table).InWords)
      (hc : ofParts? columns transitions finals initial terminals symbolToColumn = .ok c) : Available c
  | json {text : String} {c : CompressedTable} (hc : ofJson? text = .ok c) : Available c

private theorem Available.storable (h : c.Available) : c.Storable := by
  cases h with
  | compressed ht hcells => exact storable_compress ht.storable hcells
  | parts hwords hc =>
    obtain ⟨table, htable, hc⟩ := except_bind_eq_ok_iff.1 hc
    exact storable_of_ofTable? (Table.Available.parts hwords htable).storable hc
  | json hc => exact storable_of_ofJson? hc

end CompressedTable

/-- Every table and every compressed table is what is read from the text that is written for it. -/
theorem json_reloads : (∀ t : Table, t.Available → Table.ofJson? t.json = .ok t) ∧
    ∀ c : CompressedTable, c.Available → CompressedTable.ofJson? c.json = .ok c :=
  ⟨fun _ ht => ht.storable.ofJson?_json, fun _ hc => hc.storable.ofJson?_json⟩

/-- A table whose terminals share a name of a quote and a line break. -/
def namesakes : Table := ⟨2, #[1, -1, -1, -1], #[none, some 2], 0, ⟨["EOF", "\"\n", "\"\n"]⟩⟩

theorem json_reloads_namesakes :
    Table.ofParts? 2 #[1, -1, -1, -1] #[none, some 2] 0 ["EOF", "\"\n", "\"\n"] = .ok namesakes ∧
      Table.ofJson? namesakes.json = .ok namesakes ∧
      CompressedTable.ofJson? namesakes.compress.json = .ok namesakes.compress := by
  have hparts : Table.ofParts? 2 #[1, -1, -1, -1] #[none, some 2] 0 ["EOF", "\"\n", "\"\n"] = .ok namesakes := by
    decide +kernel
  have hwords : namesakes.InWords :=
    { columns_lt := by decide
      cell_bounds := by decide
      terminal_lt := by
        intro id hid
        obtain rfl : id = 2 := by simpa [namesakes] using hid
        decide
      initial_lt := by decide }
  have hnamesakes : namesakes.Available := .parts hwords hparts
  have hcells : namesakes.compress.table.transitions.size < Table.wordSize := by
    have hsize : namesakes.narrowed.transitions.size = 2 * namesakes.narrowed.columns := namesakes.rectangular_narrowed
    have hcolumns := namesakes.columns_narrowed_le
    have hbound : 2 * 256 < Table.wordSize := by decide
    rw [Table.compress_eq]
    show namesakes.narrowed.transitions.size < _
    omega
  exact ⟨hparts, json_reloads.1 namesakes hnamesakes, json_reloads.2 _ (.compressed hnamesakes hcells)⟩

end TableLexer
