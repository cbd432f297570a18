import TableLexer.Proofs.Source.Static
import TableLexer.Proofs.Table.Merging
import TableLexer.Table.RustSource

/-! The Rust source of a table declares its parts, and no other table has the same source. -/
namespace TableLexer

private theorem flatten_sixteens (items : List String) : (sixteens items).flatten = items := by
  induction items using sixteens.induct with
  | case1 => simp [sixteens]
  | case2 item rest ih => rw [sixteens, List.flatten_cons, ih, List.cons_append, List.take_append_drop]

private theorem ne_nil_of_mem_sixteens (items : List String) : ∀ line ∈ sixteens items, line ≠ [] := by
  induction items using sixteens.induct with
  | case1 => simp [sixteens]
  | case2 item rest ih =>
    rw [sixteens, List.forall_mem_cons]
    exact ⟨List.cons_ne_nil _ _, ih⟩

namespace Source

variable {lines : List (List String)} {line items : List Literal}

/-- Each literal of a line is followed by a comma, the last one like the others. -/
theorem spells_intercalate (hline : line ≠ []) :
    Spells (", ".intercalate (line.map Literal.source) ++ ",\n") (line.flatMap (·.tokens ++ [.mark ','])) := by
  have hend : Spells ",\n" [.mark ','] := by decide
  have hcomma : Spells ", " [.mark ','] := by decide
  induction line with
  | nil => contradiction
  | cons literal line ih =>
    cases line with
    | nil =>
      rw [List.map_singleton, String.intercalate_singleton, List.flatMap_singleton]
      exact literal.spells (by decide) hend
    | cons next line =>
      have hrest := hcomma.append (ih (List.cons_ne_nil next line))
      rw [List.map_cons, List.map_cons, String.intercalate_cons_cons, ← List.map_cons, String.append_assoc,
        String.append_assoc, List.flatMap_cons, List.append_assoc]
      exact literal.spells (delimits_append (by decide) _) hrest

private theorem spells_lines (hlines : ∀ line ∈ lines, line ≠ []) (hitems : items.map Literal.source = lines.flatten) :
    Spells (String.join (lines.map fun line => "    " ++ ", ".intercalate line ++ ",\n"))
      (items.flatMap (·.tokens ++ [.mark ','])) := by
  induction lines generalizing items with
  | nil =>
    obtain rfl := List.map_eq_nil_iff.1 hitems
    decide
  | cons line lines ih =>
    obtain ⟨hline, hmore⟩ := List.forall_mem_cons.1 hlines
    obtain ⟨here, later, rfl, rfl, hlater⟩ := List.map_eq_append_iff.1 hitems
    have hindent : Spells "    " [] := by decide
    have hhere := hindent.append (spells_intercalate (mt List.map_eq_nil_iff.2 hline))
    rw [← String.append_assoc] at hhere
    rw [List.map_cons, String.join_cons, List.flatMap_append]
    exact hhere.append (ih hmore hlater)

private theorem spells_rustArray {name type : String} {kind : List Token} (hname : isWord name = true)
    (htype : Spells (type ++ "; ") (kind ++ [.mark ';'])) (items : List Literal) :
    Spells (rustArray name type (items.map Literal.source)) (Static.array name kind items.length items).tokens := by
  have hopen : Spells "pub static " [.word "pub", .word "static"] := by decide
  have hcolon : Spells ": [" [.mark ':', .mark '['] := by decide
  have hequals : Spells "] = [\n" [.mark ']', .mark '=', .mark '['] := by decide
  have hclose : Spells "];\n\n" [.mark ']', .mark ';'] := by decide
  have hlines := spells_lines (ne_nil_of_mem_sixteens _) (flatten_sixteens (items.map Literal.source)).symm
  have hvalue := hequals.append (hlines.append hclose)
  have htyped := htype.append (hvalue.decimal_append items.length (delimits_append (by decide) _))
  have hnamed := (hcolon.append htyped).word_append hname (delimits_append (by decide) _)
  have hall := hopen.append hnamed
  simp only [String.append_assoc, List.append_assoc, List.cons_append, List.nil_append] at hall
  unfold rustArray
  simp only [List.length_map, String.append_assoc]
  exact hall

private theorem spells_single {head name : String} {kind : List Token} (value : Literal)
    (hhead : Spells head
      (.word "pub" :: .word "static" :: .word name :: .mark ':' :: (kind ++ [.mark '=']))) :
    Spells (head ++ value.source ++ ";\n\n") (Static.single name kind value).tokens := by
  have hclose : Spells ";\n\n" [.mark ';'] := by decide
  have hall := hhead.append (value.spells (by decide) hclose)
  simp only [List.append_assoc, List.cons_append, List.nil_append] at hall
  rw [String.append_assoc]
  exact hall

/-- What is declared in a text is followed by what is declared in the rest. -/
private theorem declared_append {text more : String} {declarations : List Static} {made : List Token}
    (htext : Spells text (declarations.flatMap Static.tokens)) (hplain : ∀ static ∈ declarations, static.Plain)
    (hmore : Spells more made) : declared (text ++ more) = declarations ++ statics made := by
  rw [declared, tokens_eq (htext.append hmore), statics_flatMap hplain]

/-- The text goes on without anything that is made public. -/
def Quiet (text : String) : Prop := ∃ made, Spells text made ∧ Token.word "pub" ∉ made

private theorem quiet_of_run {text : String}
    (h : (run .between text.toList).1 = .between ∧ Token.word "pub" ∉ (run .between text.toList).2) : Quiet text :=
  ⟨_, Prod.ext h.1 rfl, h.2⟩

theorem Quiet.append {text more : String} (h : Quiet text) (h' : Quiet more) : Quiet (text ++ more) := by
  obtain ⟨made, hmade, hpub⟩ := h
  obtain ⟨made', hmade', hpub'⟩ := h'
  exact ⟨made ++ made', hmade.append hmade', by simp [hpub, hpub']⟩

private theorem Quiet.word_append {word more : String} (hword : isWord word = true) (hpub : "pub" ≠ word)
    (hmore : delimits more = true) (h : Quiet more) : Quiet (word ++ more) := by
  obtain ⟨made, hmade, hnot⟩ := h
  exact ⟨_, hmade.word_append hword hmore, by simp [hpub, hnot]⟩

/-- Of what is made public, only a static is read. -/
private theorem statics_function {made : List Token} (h : Token.word "pub" ∉ made) :
    statics (.word "pub" :: .word "fn" :: made) = [] := by
  have hnone : static? (.word "pub" :: .word "fn" :: made) = none := by
    unfold static?
    split
    · next heq =>
      rw [if_neg]
      rintro ⟨-, rfl⟩
      simp at heq
    · rfl
  have hpub : Token.word "pub" ∉ .word "fn" :: made := by simp [h]
  have hskip := statics_append_of_not_mem hpub []
  rw [List.append_nil] at hskip
  rw [statics, hnone, hskip]
  rfl

/-- The function that rebuilds a table declares no static. -/
private theorem spells_rustConstructor {type more : String} (htype : isWord type = true) (hpub : "pub" ≠ type)
    (hmore : Quiet more) : ∃ made, Spells (rustConstructor type more) made ∧ statics made = [] := by
  have hfunction : Spells "pub fn table() -> Result<munch::" [.word "pub", .word "fn", .word "table", .mark '(',
      .mark ')', .mark '-', .mark '>', .word "Result", .mark '<', .word "munch", .mark ':', .mark ':'] := by decide
  have herror : Quiet ", munch::TableError> \x7b\n" := quiet_of_run (by decide)
  have hmunch : Quiet "    munch::" := quiet_of_run (by decide)
  have hcall : Quiet "::from_parts(\n" := quiet_of_run (by decide)
  have hcolumns : Quiet "        COLUMNS,\n" := quiet_of_run (by decide)
  have htransitions : Quiet "        TRANSITIONS.to_vec(),\n" := quiet_of_run (by decide)
  have hfinals : Quiet "        FINALS.to_vec(),\n" := quiet_of_run (by decide)
  have hinitial : Quiet "        INITIAL,\n" := quiet_of_run (by decide)
  have hterminals : Quiet "        TERMINALS.iter().map(|name| name.to_string()).collect(),\n" :=
    quiet_of_run (by decide)
  have hclose : Quiet "    )\n\x7d\n" := quiet_of_run (by decide)
  have harguments := hcolumns.append (htransitions.append (hfinals.append (hinitial.append
    (hterminals.append (hmore.append hclose)))))
  have hbody := (hcall.append harguments).word_append htype hpub (delimits_append (by decide) _)
  obtain ⟨made, hmade, hnot⟩ :=
    (herror.append (hmunch.append hbody)).word_append htype hpub (delimits_append (by decide) _)
  unfold rustConstructor
  simp only [String.append_assoc]
  exact ⟨_, hfunction.append hmade, statics_function (by simp [hnot])⟩

end Source

open Source (Static Literal declared)

namespace Table

variable {t t' : Table}

/-- The statics that stand for the parts of a table. -/
def declarations (t : Table) : List Static :=
  [.single "COLUMNS" [.word "usize"] (.number t.columns),
    .single "INITIAL" [.word "usize"] (.number t.initial),
    .array "TRANSITIONS" [.word "i32"] t.transitions.size (t.transitions.toList.map .number),
    .array "FINALS" [.word "Option", .mark '<', .word "usize", .mark '>'] t.finals.size
      (t.finals.toList.map .option),
    .array "TERMINALS" [.mark '&', .word "str"] t.terminals.names.length (t.terminals.names.map .text)]

private theorem plain_declarations (t : Table) : ∀ static ∈ t.declarations, static.Plain := by
  simp [declarations, Static.Plain]

private theorem counted_declarations (t : Table) : ∀ static ∈ t.declarations, static.Counted := by
  simp [declarations, Static.Counted]

private theorem declarations_injective (h : t.declarations = t'.declarations) : t = t' := by
  obtain ⟨columns, transitions, finals, initial, ⟨names⟩⟩ := t
  obtain ⟨columns', transitions', finals', initial', ⟨names'⟩⟩ := t'
  have hnumber : Function.Injective Literal.number := fun _ _ => Literal.number.inj
  have hoption : Function.Injective Literal.option := fun _ _ => Literal.option.inj
  have htext : Function.Injective Literal.text := fun _ _ => Literal.text.inj
  simp only [declarations, List.cons.injEq, Static.single.injEq, Static.array.injEq, Literal.number.injEq,
    Int.natCast_inj, hnumber.list_map.eq_iff, hoption.list_map.eq_iff, htext.list_map.eq_iff,
    Array.toList_inj] at h
  obtain ⟨⟨-, -, rfl⟩, ⟨-, -, rfl⟩, ⟨-, -, -, rfl⟩, ⟨-, -, -, rfl⟩, ⟨-, -, -, rfl⟩, -⟩ := h
  rfl

private theorem spells_rustParts (t : Table) : Source.Spells (rustParts t) (t.declarations.flatMap Static.tokens) := by
  have hheader : Source.Spells "// Generated by munch, do not edit.\n\n" [] := by decide
  have hcolumns : Source.Spells ("pub static COLUMNS: usize = " ++ toString t.columns ++ ";\n\n")
      (Static.single "COLUMNS" [.word "usize"] (.number t.columns)).tokens :=
    Source.spells_single (.number t.columns) (by decide)
  have hinitial : Source.Spells ("pub static INITIAL: usize = " ++ toString t.initial ++ ";\n\n")
      (Static.single "INITIAL" [.word "usize"] (.number t.initial)).tokens :=
    Source.spells_single (.number t.initial) (by decide)
  have htransitions : Source.Spells ("i32" ++ "; ") ([.word "i32"] ++ [.mark ';']) := by decide
  have hfinals : Source.Spells ("Option<usize>" ++ "; ")
      ([.word "Option", .mark '<', .word "usize", .mark '>'] ++ [.mark ';']) := by decide
  have hterminals : Source.Spells ("&str" ++ "; ") ([.mark '&', .word "str"] ++ [.mark ';']) := by decide
  have htransitions' := Source.spells_rustArray (by decide : Source.isWord "TRANSITIONS" = true) htransitions
    (t.transitions.toList.map .number)
  have hfinals' := Source.spells_rustArray (by decide : Source.isWord "FINALS" = true) hfinals
    (t.finals.toList.map .option)
  have hterminals' := Source.spells_rustArray (by decide : Source.isWord "TERMINALS" = true) hterminals
    (t.terminals.names.map .text)
  have hall :=
    ((((hheader.append hcolumns).append hinitial).append htransitions').append hfinals').append hterminals'
  simp only [List.length_map, Array.length_toList, List.nil_append, List.append_assoc, List.map_map] at hall
  unfold rustParts
  simp only [declarations, List.flatMap_cons, List.flatMap_nil, List.append_nil]
  exact hall

private theorem declared_rustSource (t : Table) : declared t.rustSource = t.declarations := by
  have htype : Source.isWord "Table" = true := by decide
  have hmore : Source.Quiet "" := Source.quiet_of_run (by decide)
  obtain ⟨made, hmade, hnone⟩ := Source.spells_rustConstructor htype (by decide) hmore
  rw [rustSource, Source.declared_append t.spells_rustParts t.plain_declarations hmade, hnone, List.append_nil]

end Table

namespace CompressedTable

variable {c c' : CompressedTable}

/-- The statics that stand for the parts of a compressed table. -/
def declarations (c : CompressedTable) : List Static :=
  c.table.declarations ++
    [.array "SYMBOL_TO_COLUMN" [.word "usize"] c.symbolToColumn.size
      (c.symbolToColumn.toList.map fun column : Nat => .number column)]

/-- The compressed tables that are made from a table, from parts or from a text. -/
inductive Made : CompressedTable → Prop where
  | compressed (t : Table) : Made t.compress
  | parts {columns : Nat} {transitions : Array Int} {finals : Array (Option TerminalId)} {initial : StateId}
      {terminals : List String} {symbolToColumn : Array Nat} {c : CompressedTable}
      (hc : ofParts? columns transitions finals initial terminals symbolToColumn = .ok c) : Made c
  | json {text : String} {c : CompressedTable} (hc : ofJson? text = .ok c) : Made c

private theorem Made.eq_assemble (h : c.Made) : assemble c.table c.symbolToColumn = c := by
  cases h with
  | compressed t =>
    rw [t.compress_eq]
    rfl
  | parts hc =>
    obtain ⟨table, -, hc⟩ := except_bind_eq_ok_iff.1 hc
    obtain ⟨-, rfl⟩ := ofTable?_eq_ok_iff.1 hc
    rfl
  | json hc => exact (storable_of_ofJson? hc).eq_assemble

private theorem plain_declarations (c : CompressedTable) : ∀ static ∈ c.declarations, static.Plain := by
  rw [declarations, List.forall_mem_append]
  exact ⟨c.table.plain_declarations, by simp [Static.Plain]⟩

private theorem counted_declarations (c : CompressedTable) : ∀ static ∈ c.declarations, static.Counted := by
  rw [declarations, List.forall_mem_append]
  exact ⟨c.table.counted_declarations, by simp [Static.Counted]⟩

private theorem declared_rustSource (c : CompressedTable) : declared c.rustSource = c.declarations := by
  have hname : Source.isWord "SYMBOL_TO_COLUMN" = true := by decide
  have hkind : Source.Spells ("usize" ++ "; ") ([.word "usize"] ++ [.mark ';']) := by decide
  have hparts := c.table.spells_rustParts.append (Source.spells_rustArray hname hkind
    (c.symbolToColumn.toList.map fun column : Nat => .number column))
  have htype : Source.isWord "CompressedTable" = true := by decide
  have hmore : Source.Quiet "        SYMBOL_TO_COLUMN.to_vec(),\n" := Source.quiet_of_run (by decide)
  obtain ⟨made, hmade, hnone⟩ := Source.spells_rustConstructor htype (by decide) hmore
  have hall : Source.Spells (rustParts c.table ++ rustArray "SYMBOL_TO_COLUMN" "usize" (c.symbolToColumn.toList.map toString))
      (c.declarations.flatMap Static.tokens) := by
    simp only [List.length_map, Array.length_toList, List.map_map] at hparts
    rw [declarations, List.flatMap_append, List.flatMap_singleton]
    exact hparts
  rw [rustSource, Source.declared_append hall c.plain_declarations hmade, hnone, List.append_nil]

private theorem Made.eq_of_rustSource (h : c.Made) (h' : c'.Made) (hsource : c.rustSource = c'.rustSource) :
    c = c' := by
  have hdeclarations : c.declarations = c'.declarations := by
    rw [← declared_rustSource, hsource, declared_rustSource]
  obtain ⟨htable, hsymbols⟩ := List.append_inj' hdeclarations rfl
  have hnumber : Function.Injective fun column : Nat => Literal.number column :=
    fun _ _ heq => Int.ofNat.inj (Literal.number.inj heq)
  simp only [List.cons.injEq, Static.array.injEq, hnumber.list_map.eq_iff, Array.toList_inj] at hsymbols
  rw [← h.eq_assemble, ← h'.eq_assemble, Table.declarations_injective htable, hsymbols.1.2.2.2]

end CompressedTable

/-- What is declared in the source of a table are its parts, and in that of a compressed table the columns of the
symbols, too. No other table has the same source, and none of a table is that of a compressed one. -/
theorem rustSource_determines :
    (∀ t : Table, declared t.rustSource = t.declarations ∧ ∀ static ∈ t.declarations, static.Counted) ∧
    (∀ c : CompressedTable, declared c.rustSource = c.declarations ∧ ∀ static ∈ c.declarations, static.Counted) ∧
    (∀ t t' : Table, t.rustSource = t'.rustSource → t = t') ∧
    (∀ c c' : CompressedTable, c.Made → c'.Made → c.rustSource = c'.rustSource → c = c') ∧
    ∀ (t : Table) (c : CompressedTable), t.rustSource ≠ c.rustSource := by
  refine ⟨fun t => ⟨t.declared_rustSource, t.counted_declarations⟩,
    fun c => ⟨c.declared_rustSource, c.counted_declarations⟩, fun t t' hsource => ?_,
    fun c c' hc hc' hsource => hc.eq_of_rustSource hc' hsource, fun t c hsource => ?_⟩
  · refine Table.declarations_injective ?_
    rw [← Table.declared_rustSource, hsource, Table.declared_rustSource]
  · have hdeclarations : t.declarations = c.declarations := by
      rw [← Table.declared_rustSource, hsource, CompressedTable.declared_rustSource]
    -- A compressed table declares one static more.
    have hlength := congrArg List.length hdeclarations
    simp [Table.declarations, CompressedTable.declarations] at hlength

/-- The table `namesakes` with one more column, which leads nowhere. -/
def namesakesWide : Table := { namesakes with columns := 3, transitions := #[1, -1, -1, -1, -1, -1] }

theorem rustSource_determines_namesakes : declared namesakes.rustSource = namesakes.declarations ∧
    namesakes.rustSource ≠ namesakesWide.rustSource ∧ namesakes.compress.Made ∧ namesakesWide.compress.Made ∧
      namesakes.compress.rustSource = namesakesWide.compress.rustSource ∧
      namesakes.compress = namesakesWide.compress := by
  obtain ⟨hdeclared, -, hdense, hcompressed, -⟩ := rustSource_determines
  have hne : namesakes ≠ namesakesWide := by decide
  have hcells : ∀ s, namesakes.columnCells s = namesakesWide.columnCells s := by decide +kernel
  have hsource : namesakes.compress.rustSource = namesakesWide.compress.rustSource :=
    congrArg CompressedTable.rustSource (Table.compress_congr hcells rfl rfl rfl)
  exact ⟨(hdeclared namesakes).1, fun h => hne (hdense _ _ h), .compressed _, .compressed _, hsource,
    hcompressed _ _ (.compressed _) (.compressed _) hsource⟩

end TableLexer
