import TableLexer.Proofs.CharClass.Lexer

/-! Character classes are parsed by their grammar. -/
namespace TableLexer

namespace CharClass

variable {whole : String} {entry : Entry} {rest : List Char}

/-- The symbol that stands behind a backslash is the one that the escape denotes. -/
private theorem ofChar?_unescape (s : Symbol) : Symbol.ofChar? (unescape s.toChar) = some (Item.escape s).symbol := by
  unfold unescape Item.symbol
  dsimp only
  have hs := Symbol.ofChar?_toChar s
  generalize s.toChar = c at hs ⊢
  split
  · rfl
  · rfl
  · rfl
  · rfl
  · simpa using hs

private theorem readItem_append (item : Item) (rest : List Char) :
    readItem (item.text ++ rest) = (some item.symbol, rest) := by
  cases item with
  | plain s h =>
    have hchar : s.toChar ≠ '\\' := by
      intro heq
      have hs := Symbol.ofChar?_toChar s
      rw [heq] at hs
      exact h (Option.some.inj (hs.symm.trans (by decide)))
    have hread : readItem (s.toChar :: rest) = (Symbol.ofChar? s.toChar, rest) := by
      unfold readItem
      split <;> simp_all
    rw [Symbol.ofChar?_toChar] at hread
    exact hread
  | escape s =>
    have hread : readItem ('\\' :: s.toChar :: rest) = (Symbol.ofChar? (unescape s.toChar), rest) := rfl
    rw [ofChar?_unescape] at hread
    exact hread

private theorem readItem_text (item : Item) : readItem item.text = (some item.symbol, []) := by
  simpa using readItem_append item []

/-- A token of the lexer denotes what its entry denotes. -/
theorem rangeOf_entry (entry : Entry) (place : Location) :
    rangeOf whole (entry.token place) = entry.checked whole := by
  unfold rangeOf Entry.token
  rw [String.toList_ofList]
  cases entry with
  | single item =>
    cases item with
    | plain s h => simp only [Entry.text, readItem_text]; rfl
    | escape s => simp only [Entry.text, readItem_text]; rfl
  | range first last =>
    simp only [Entry.text, Entry.kind, readItem_append, List.drop_succ_cons, List.drop_zero, readItem_text]
    by_cases hlt : last.symbol < first.symbol <;>
      simp [Entry.checked, SymbolRange.isEmpty, hlt, Entry.text, bind, Except.bind, pure, Except.pure, throw,
        throwThe, MonadExceptOf.throw]

/-- What is made of the tokens up to the end or a failure. -/
def conclude (whole : String) (tokens : List Token) (failure : Option LexicalError) :
    Except DescriptionError (List SymbolRange) := do
  let ranges ← (tokens.mapM (rangeOf whole)).mapError .format
  match failure with
  | some e => throw (.charClass e)
  | none => return ranges

private theorem parse_eq_conclude (whole : String) :
    parse whole = conclude whole (tokens whole).1 (tokens whole).2 := rfl

private theorem conclude_cons (t : Token) (tokens : List Token) (failure : Option LexicalError) :
    conclude whole (t :: tokens) failure = (do
      let range ← (rangeOf whole t).mapError .format
      let ranges ← conclude whole tokens failure
      return range :: ranges) := by
  rw [conclude, conclude, List.mapM_cons]
  cases rangeOf whole t with
  | error e => rfl
  | ok range =>
    cases tokens.mapM (rangeOf whole) with
    | error e => rfl
    | ok ranges => cases failure <;> rfl

private theorem isEof_entry (entry : Entry) (place : Location) : (entry.token place).isEof = false := by
  rcases entry with (⟨s, h⟩ | s) | ⟨first, last⟩ <;> rfl

/-- A scanner of a class that holds back no token and is not at the end yet. -/
structure Ready (s : Scanner CompressedTable) : Prop where
  table : s.table = CharClass.table
  ended : s.ended = none
  current : s.current = none
  ignored : s.ignored = []

private theorem ready_ofText (text : String) : Ready (Scanner.ofText table text) := ⟨rfl, rfl, rfl, rfl⟩

namespace Ready

variable {s : Scanner CompressedTable} (h : Ready s)
include h

private theorem moved (input : Input) (location : Location) : Ready { s with input, location } :=
  ⟨h.table, h.ended, h.current, h.ignored⟩

private theorem read_eq : s.read = s.scanPast [] := by rw [Scanner.read, h.current]

private theorem read_entry (hentry : entryOf? s.input.unread = some (entry, rest)) :
    ∃ input : Input, input.unread = rest ∧ s.read =
      ([], .ok (entry.token s.location), { s with input, location := s.location.afterAll entry.text }) := by
  obtain ⟨input, hinput, hscan⟩ := scanOne_entry h.table h.ended hentry
  refine ⟨input, hinput, h.read_eq.trans (Scanner.scanPast_of_token hscan ?_)⟩
  simp [Scanner.isIgnored, h.ignored]

private theorem read_end (hnil : s.input.unread = []) : ∃ s', s.read = ([], .ok (.ofEof s.location), s') := by
  have hread : s.scanPast [] = _ := Scanner.scanPast_of_ended (Scanner.scanOne_of_unread_nil h.ended hnil)
  rw [h.ended, Option.getD_none] at hread
  exact ⟨_, h.read_eq.trans hread⟩

private theorem read_stuck (hentry : entryOf? s.input.unread = none) (hne : s.input.unread ≠ []) :
    ∃ s', s.read = ([], .error (stuckAt s.location s.input.unread), s') := by
  obtain ⟨s', hscan⟩ := scanOne_stuck h.table h.ended hentry hne
  exact ⟨s', h.read_eq.trans (Scanner.scanPast_of_failure hscan)⟩

/-- Reading all tokens of a text comes to the ranges of the grammar. The induction is on the unread text, from
which every token takes an entry. -/
theorem readAllAfter_concludes (whole : String) (made : List Token) : ∃ tokens failure s',
    s.readAllAfter made = (made.reverse ++ tokens, failure, s') ∧
      conclude whole (tokens.filter (!·.isEof)) failure = readFrom whole s.location s.input.unread := by
  induction hlength : s.input.unread.length using Nat.strong_induction_on generalizing s made with
  | _ n ih =>
    cases hentry : entryOf? s.input.unread with
    | some next =>
      obtain ⟨entry, rest⟩ := next
      obtain ⟨input, hinput, hread⟩ := h.read_entry hentry
      have hlt : input.unread.length < n := by
        have hpos := entry.length_text_pos
        rw [← hlength, text_eq_of_entryOf? hentry, hinput, List.length_append]
        omega
      obtain ⟨tokens, failure, s', hall, hconclude⟩ :=
        ih _ hlt (h.moved input (s.location.afterAll entry.text)) (entry.token s.location :: made) rfl
      rw [← Scanner.readAllAfter_of_token hread (isEof_entry ..), List.reverse_cons, List.append_assoc,
        List.singleton_append] at hall
      refine ⟨_, _, _, hall, ?_⟩
      rw [List.filter_cons_of_pos (by rw [isEof_entry]; rfl), conclude_cons, rangeOf_entry, hconclude,
        readFrom_entry hentry, hinput]
    | none =>
      by_cases hnil : s.input.unread = []
      · obtain ⟨s', hread⟩ := h.read_end hnil
        have hall : s.readAllAfter made = _ := Scanner.readAllAfter_of_eof hread rfl
        rw [List.reverse_cons] at hall
        refine ⟨_, _, _, hall, ?_⟩
        rw [hnil, readFrom_nil]
        rfl
      · obtain ⟨s', hread⟩ := h.read_stuck hentry hnil
        have hall : s.readAllAfter made = _ := Scanner.readAllAfter_of_failure hread
        rw [← List.append_nil made.reverse] at hall
        refine ⟨_, _, _, hall, ?_⟩
        rw [readFrom_stuck hentry hnil]
        rfl

end Ready

/-- Every class is parsed as the grammar reads it. It is never found to be cut off, nor are its tokens
unexpected. -/
theorem parse_reads_grammar (text : String) : parse text = readFrom text {} text.toList ∧
    (∀ whole, parse text ≠ .error (.format (.truncatedClass whole))) ∧
    ∀ kind whole, parse text ≠ .error (.format (.unexpectedClassToken kind whole)) := by
  have hparse : parse text = readFrom text {} text.toList := by
    obtain ⟨tokens, failure, s, hall, hconclude⟩ := (ready_ofText text).readAllAfter_concludes text []
    have htokens : CharClass.tokens text = (tokens.filter (!·.isEof), failure) := by
      rw [CharClass.tokens, Scanner.readAll, hall]
      rfl
    rw [parse_eq_conclude, htokens, hconclude]
    rfl
  have hwrong {e : DescriptionError} (h : parse text = .error e) := readFrom_eq_error (hparse.symm.trans h)
  exact ⟨hparse, fun whole h => by simpa using hwrong h, fun kind whole h => by simpa using hwrong h⟩

end CharClass

end TableLexer
