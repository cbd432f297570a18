import TableLexer.Proofs.CharClass.Build
import TableLexer.Proofs.CharClass.Grammar
import TableLexer.Proofs.Lexicon.MaximalMunch
import TableLexer.Proofs.Scanner.Furthest

/-! The lexer of character classes takes the entries of the grammar, one after the other. -/
namespace TableLexer

namespace CharClass

open Automaton

/-- The terminal of an entry. -/
def Entry.kind : Entry → TerminalId
  | range _ _ => 1
  | single (.escape _) => 2
  | single (.plain _ _) => 3

/-- The token of an entry. -/
def Entry.token (entry : Entry) (place : Location) : Token := ⟨entry.kind, String.ofList entry.text, place⟩

def Entry.word : Entry → List Symbol
  | single item => item.word
  | range first last => first.word ++ .ofChar '-' :: last.word

private theorem Entry.text_eq (entry : Entry) : entry.text = entry.word.map Symbol.toChar := by
  cases entry with
  | single item => rfl
  | range first last =>
    rw [text, word, List.map_append, List.map_cons]
    rfl

/-- The kind of an entry can be read off its word. -/
theorem Entry.kind_eq (entry : Entry) :
    entry.kind = match entry.word.length with | 1 => 3 | 2 => 2 | _ => 1 := by
  cases entry with
  | single item => cases item <;> rfl
  | range first last =>
    have hfirst := first.length_word_pos
    have hlast := last.length_word_pos
    obtain ⟨n, hn⟩ : ∃ n, (range first last).word.length = n + 3 :=
      Nat.exists_eq_add_of_le' (by rw [word, List.length_append, List.length_cons]; omega)
    rw [hn]
    rfl

section language

variable {meaning : Meaning} {w : List Symbol}

private theorem mem_escaped : w ∈ escaped.denote meaning ↔ ∃ s, w = (Item.escape s).word := by
  have hbackslash : Symbol.word? "\\".toList = some [.ofChar '\\'] := by decide
  simp only [escaped, Pattern.mem_sequence_cons, Pattern.mem_literal, Pattern.mem_noneOf,
    Pattern.mem_sequence_nil, hbackslash, Option.some_inj]
  constructor
  · rintro ⟨_, rfl, _, ⟨_, ⟨s, rfl, -⟩, _, rfl, rfl⟩, rfl⟩
    exact ⟨s, rfl⟩
  · rintro ⟨s, rfl⟩
    exact ⟨_, rfl, _, ⟨_, ⟨s, rfl, by simp⟩, _, rfl, rfl⟩, rfl⟩

private theorem mem_unescaped : w ∈ unescaped.denote meaning ↔ ∃ s h, w = (Item.plain s h).word := by
  have hcontains (s : Symbol) : (SymbolRange.single (.ofChar '\\')).contains s ↔ s = .ofChar '\\' := by
    rw [SymbolRange.contains, Bool.and_eq_true, decide_eq_true_iff, decide_eq_true_iff, and_comm]
    exact le_antisymm_iff.symm
  simp only [unescaped, Pattern.mem_noneOf, List.forall_mem_singleton, hcontains]
  constructor
  · rintro ⟨s, rfl, h⟩
    exact ⟨s, h, rfl⟩
  · rintro ⟨s, h, rfl⟩
    exact ⟨s, rfl, h⟩

private theorem mem_meaning_item : w ∈ spelling.meaning "item" ↔ ∃ item : Item, w = item.word := by
  have hmeaning : spelling.meaning "item" = escaped.denote (fun _ => 0) + unescaped.denote fun _ => 0 := by
    simp [Description.meaning, spelling, Description.meaningAfter, Pattern.denote, Pattern.denoteAll]
  rw [hmeaning, Language.mem_add, mem_escaped, mem_unescaped]
  constructor
  · rintro (⟨s, rfl⟩ | ⟨s, h, rfl⟩)
    · exact ⟨_, rfl⟩
    · exact ⟨_, rfl⟩
  · rintro ⟨⟨s, h⟩ | ⟨s⟩, rfl⟩
    · exact .inr ⟨s, h, rfl⟩
    · exact .inl ⟨s, rfl⟩

private theorem mem_range :
    w ∈ (Pattern.sequence [.defined "item", .literal "-", .defined "item"]).denote spelling.meaning ↔
      ∃ first last, w = (Entry.range first last).word := by
  have hdash : Symbol.word? "-".toList = some [.ofChar '-'] := by decide
  have hitem (u : List Symbol) : u ∈ (Pattern.defined "item").denote spelling.meaning ↔
      ∃ item : Item, u = item.word := by
    rw [Pattern.denote, mem_meaning_item]
  simp only [Pattern.mem_sequence_cons, Pattern.mem_literal, Pattern.mem_sequence_nil, hdash, hitem,
    Option.some_inj]
  constructor
  · rintro ⟨_, ⟨first, rfl⟩, _, ⟨_, rfl, _, ⟨_, ⟨last, rfl⟩, _, rfl, rfl⟩, rfl⟩, rfl⟩
    rw [List.append_nil]
    exact ⟨first, last, rfl⟩
  · rintro ⟨first, last, rfl⟩
    refine ⟨_, ⟨first, rfl⟩, _, ⟨_, rfl, _, ⟨_, ⟨last, rfl⟩, _, rfl, rfl⟩, rfl⟩, ?_⟩
    rw [List.append_nil]
    rfl

/-- The terminals of the spelling are the entries of the grammar. -/
theorem denotes_iff {i : Nat} : spelling.Denotes i w ↔ ∃ entry : Entry, w = entry.word ∧ i = entry.kind := by
  constructor
  · rintro ⟨j, name, p, rfl, hj, hw⟩
    match j, hj with
    | 0, hj =>
      obtain rfl := (Prod.mk.inj (Option.some.inj hj)).2
      obtain ⟨first, last, rfl⟩ := mem_range.1 hw
      exact ⟨.range first last, rfl, rfl⟩
    | 1, hj =>
      obtain rfl := (Prod.mk.inj (Option.some.inj hj)).2
      obtain ⟨s, rfl⟩ := mem_escaped.1 hw
      exact ⟨.single (.escape s), rfl, rfl⟩
    | 2, hj =>
      obtain rfl := (Prod.mk.inj (Option.some.inj hj)).2
      obtain ⟨s, h, rfl⟩ := mem_unescaped.1 hw
      exact ⟨.single (.plain s h), rfl, rfl⟩
  · rintro ⟨(⟨s, h⟩ | ⟨s⟩) | ⟨first, last⟩, rfl, rfl⟩
    · exact ⟨2, _, _, rfl, rfl, mem_unescaped.2 ⟨s, h, rfl⟩⟩
    · exact ⟨1, _, _, rfl, rfl, mem_escaped.2 ⟨s, rfl⟩⟩
    · exact ⟨0, _, _, rfl, rfl, mem_range.2 ⟨first, last, rfl⟩⟩

end language

/-- What an automaton matches are the entries, each as its terminal. -/
def MatchesEntries (a : Automaton) : Prop :=
  ∀ text kind, a.matches? (String.ofList text) = some kind ↔
    ∃ entry : Entry, text = entry.text ∧ kind = entry.kind

private theorem matchesEntries {n a : Automaton} (hn : spelling.build = .ok n) (hd : spelling.Determinized n a) :
    MatchesEntries a := by
  have hdefinitions : ∀ named ∈ spelling.definitions, named.2.optionsOpen := by
    simp [spelling, escaped, unescaped, Pattern.optionsOpen, Pattern.allOptionsOpen]
  have hterminals : ∀ named ∈ spelling.terminals, named.2.optionsOpen := by
    simp [spelling, escaped, unescaped, Pattern.optionsOpen, Pattern.allOptionsOpen]
  have hlexes := Description.lexes_of_build (by decide) hdefinitions hterminals hn
  have hspells (w : List Symbol) (i : Nat) : n.Spells w i ↔ ∃ entry : Entry, w = entry.word ∧ i = entry.kind :=
    (hlexes.spells w i).trans denotes_iff
  intro text kind
  rw [hd.matches?_eq, matches?, String.toList_ofList, Option.bind_eq_some_iff]
  simp only [accepts_eq_some_iff hlexes.wellFormed, hspells, Symbol.word?_eq_some_iff]
  constructor
  · rintro ⟨_, rfl, ⟨entry, rfl, rfl⟩, -⟩
    exact ⟨entry, entry.text_eq.symm, rfl⟩
  · rintro ⟨entry, rfl, rfl⟩
    refine ⟨entry.word, entry.text_eq, ⟨entry, rfl, rfl⟩, ?_⟩
    rintro _ ⟨entry', hword, rfl⟩
    rw [entry.kind_eq, entry'.kind_eq, hword]

/-- The table of the lexer is that of an automaton for the entries. -/
theorem table_implements_entries : ∃ a place, Implements table a place (Set.Iio a.size) ∧ a.WellFormed ∧
    a.NoEpsilon ∧ MatchesEntries a := by
  obtain ⟨n, a, place, hn, hd, h⟩ := table_implements_spelling
  exact ⟨a, place, h, hd.wellFormed, hd.noEpsilon, matchesEntries hn hd⟩

section matched

variable {a : Automaton} {entry : Entry} {text v rest : List Char} (ha : MatchesEntries a)
include ha

private theorem longestMatch_of_entryOf? (h : entryOf? text = some (entry, rest)) :
    LongestMatch a.matches? text entry.text rest entry.kind where
  split := (text_eq_of_entryOf? h).symm
  nonempty := List.ne_nil_of_length_pos entry.length_text_pos
  kindOf_eq := (ha _ _).2 ⟨entry, rfl, rfl⟩
  maximal v u hsplit hv := by
    obtain ⟨kind, hkind⟩ := Option.isSome_iff_exists.1 hv
    obtain ⟨entry', rfl, -⟩ := (ha _ _).1 hkind
    exact length_le_of_entryOf? (hsplit ▸ h)

private theorem matches?_of_entryOf?_eq_none (h : entryOf? text = none) {u : List Char} (hsplit : v ++ u = text) :
    a.matches? (String.ofList v) = none := by
  by_contra hv
  obtain ⟨kind, hkind⟩ := Option.ne_none_iff_exists'.1 hv
  obtain ⟨entry, rfl, -⟩ := (ha _ _).1 hkind
  exact ne_of_entryOf?_eq_none h hsplit

/-- Where any symbol leads on to an entry, the automaton stops only at characters outside the alphabet, and
expects every symbol. -/
theorem exists_furthest (hwf : a.WellFormed) (hepsilon : a.NoEpsilon)
    (hv : ∀ s : Symbol, ∃ (entry : Entry) (u : List Char), entry.text = v ++ s.toChar :: u)
    (hrest : ∀ c ∈ rest.head?, Symbol.ofChar? c = none) : ∃ q, Furthest a (v ++ rest) v rest q ∧
      (Symbol.all.filter fun s => (a.transition? q s).isSome) = Symbol.all := by
  have hlive (s : Symbol) : ∃ q, a.stateAfter? v = some q ∧ (a.transition? q s).isSome := by
    obtain ⟨entry, u, hentry⟩ := hv s
    have hmatches := (ha _ _).2 ⟨entry, rfl, rfl⟩
    rw [hentry, hepsilon.matches?_eq hwf] at hmatches
    cases hstate : a.stateAfter? (v ++ [s.toChar]) with
    | none =>
      have hnone := stateAfter?_append_eq_none hstate u
      rw [List.append_assoc, List.singleton_append] at hnone
      simp [hnone] at hmatches
    | some p =>
      rw [stateAfter?_concat] at hstate
      obtain ⟨q, hq, hstate⟩ := Option.bind_eq_some_iff.1 hstate
      rw [Symbol.ofChar?_toChar, Option.bind_some] at hstate
      exact ⟨q, hq, hstate ▸ rfl⟩
  obtain ⟨q, hq, -⟩ := hlive 0
  refine ⟨q, ⟨rfl, hq, fun c hc => ?_⟩, List.filter_eq_self.2 fun s _ => ?_⟩
  · rw [stateAfter?_concat, hrest c hc, hq]
    rfl
  · obtain ⟨p, hp, hs⟩ := hlive s
    obtain rfl := Option.some.inj (hq.symm.trans hp)
    exact hs

end matched

section scan

variable {s : Scanner CompressedTable} {entry : Entry} {rest : List Char} (hs : s.table = table)
  (hended : s.ended = none)
include hs hended

theorem scanOne_entry (h : entryOf? s.input.unread = some (entry, rest)) : ∃ input : Input, input.unread = rest ∧
    s.scanOne = (.token (entry.token s.location), { s with input, location := s.location.afterAll entry.text }) := by
  obtain ⟨a, place, himplements, ha, hepsilon, hentries⟩ := table_implements_entries
  exact Scanner.scanOne_of_longestMatch (hs ▸ himplements) ha hepsilon (ha.staysIn _) hended
    (longestMatch_of_entryOf? hentries h)

theorem scanOne_stuck (h : entryOf? s.input.unread = none) (hne : s.input.unread ≠ []) : ∃ s',
    s.scanOne = (.failure (stuckAt s.location s.input.unread), s') := by
  obtain ⟨a, place, himplements, ha, hepsilon, hentries⟩ := table_implements_entries
  obtain ⟨v, rest, hunread, hv, hrest⟩ := cases_of_entryOf?_eq_none h
  have hlead (x : Symbol) : ∃ (entry : Entry) (u : List Char), entry.text = v ++ x.toChar :: u := by
    rcases hv with rfl | rfl
    · by_cases hx : x = .ofChar '\\'
      · exact ⟨.single (.escape x), [x.toChar], hx ▸ rfl⟩
      · exact ⟨.single (.plain x hx), [], rfl⟩
    · exact ⟨.single (.escape x), [], rfl⟩
  have hinside : ∀ c ∈ v, (Symbol.ofChar? c).isSome := by
    rcases hv with rfl | rfl
    · simp
    · exact List.forall_mem_singleton.2 rfl
  obtain ⟨q, hfurthest, hexpected⟩ := exists_furthest hentries ha hepsilon hlead hrest
  rw [hunread] at hfurthest
  obtain ⟨input, -, hscan⟩ := Scanner.scanOne_of_furthest (hs ▸ himplements) ha hepsilon (ha.staysIn _) hended hne
    (fun v u _ hsplit => matches?_of_entryOf?_eq_none hentries h hsplit) hfurthest
  rw [hexpected, ← stuckAt_append hinside hrest, hunread] at hscan
  exact ⟨_, hscan⟩

end scan

end CharClass

end TableLexer
