import TableLexer.Proofs.Scanner.Invariant
import TableLexer.Proofs.Table.Valid

/-! The end of input comes once the whole text has been consumed, and stays. -/
namespace TableLexer

section table

variable {τ : Type} [TransitionTable τ] {t : τ} {m : Match}

/-- What a match has accepted is accepted by some state of the table. -/
def Match.Accepts (t : τ) (m : Match) : Prop :=
  ∀ n kind, m.accepted = some (n, kind) → ∃ q, TransitionTable.accepts t q = some kind

theorem Match.Accepts.extend (h : m.Accepts t) (c : Char) (target : StateId) : (m.extend t c target).Accepts t := by
  intro n kind haccepted
  unfold Match.extend at haccepted
  dsimp only at haccepted
  split at haccepted
  · next hkind =>
    obtain ⟨-, rfl⟩ := Prod.mk.inj (Option.some.inj haccepted)
    exact ⟨target, hkind⟩
  · exact h n kind haccepted

theorem Match.Accepts.follow (h : m.Accepts t) (i : Input) : (Match.follow t m i).1.Accepts t := by
  fun_induction Match.follow t m i with
  | case1 m i _ => exact h
  | case2 m i c rest _ target _ _ ih => exact ih (h.extend c target)
  | case3 m i c rest _ _ => exact h

end table

namespace Scanner

variable {τ : Type} [TransitionTable τ] {s s' : Scanner τ} {t : Token} {place : Location}

/-- A token is of a kind that some state accepts, and is not empty. -/
private theorem scanOne_token_kind (h : s.scanOne = (.token t, s')) :
    (∃ q, TransitionTable.accepts s.table q = some t.kind) ∧ t.lexeme ≠ "" := by
  obtain ⟨-, -, hunread, -, -⟩ := scanOne_token h
  constructor
  · rcases hfollow : Match.follow s.table (.empty s.table) s.input with ⟨m, found, input⟩
    have hempty : (Match.empty s.table).Accepts s.table := fun n kind h => by simp [Match.empty] at h
    have haccepts := hempty.follow s.input
    rw [hfollow] at haccepts
    cases scanOne_cases hfollow h with
    | matched _ haccepted => exact haccepts _ _ haccepted
  · have hlt := scanOne_unread_length_lt h
    intro hnil
    simp [← hunread, hnil] at hlt

/-- What a token is at the scanner that has just come to it: the one of the end of input, which has come, or one
that is not empty. -/
inductive Genuine (s : Scanner τ) : Token → Prop where
  | ended {place : Location} (hended : s.ended = some place) : Genuine s (.ofEof place)
  | matched {t : Token} (hended : s.ended = none) (hkind : t.kind ≠ eof) (hlexeme : t.lexeme ≠ "") : Genuine s t

namespace Genuine

omit [TransitionTable τ] in
private theorem of_ended_eq (h : s.Genuine t) (hended : s'.ended = s.ended) : s'.Genuine t := by
  cases h with
  | ended hplace => exact .ended (hended.trans hplace)
  | matched hnone hkind hlexeme => exact .matched (hended.trans hnone) hkind hlexeme

theorem scanPast (h : ∀ q, TransitionTable.accepts s.table q ≠ some eof) (passed : List Token)
    (ht : (s.scanPast passed).2.1 = .ok t) : (s.scanPast passed).2.2.Genuine t := by
  fun_induction Scanner.scanPast s passed with
  | case1 s passed u r hscan _ _ ih =>
    refine ih (fun q => ?_) ht
    rw [(Continues.of_scanOne hscan).table]
    exact h q
  | case2 s passed u r hscan _ =>
    obtain rfl := Except.ok.inj ht
    obtain ⟨hsteady, hended, -⟩ := scanOne_token hscan
    obtain ⟨⟨q, hq⟩, hlexeme⟩ := scanOne_token_kind hscan
    exact .matched (hsteady.ended.trans hended) (fun hkind => h q (hkind ▸ hq)) hlexeme
  | case3 s passed r hscan =>
    obtain rfl := Except.ok.inj ht
    exact .ended rfl
  | case4 s passed e r hscan => simp at ht

end Genuine

/-- A scanner whose table never accepts the end of input, and which has looked at no token that is not genuine. -/
structure Orderly (s : Scanner τ) : Prop where
  accepts_ne : ∀ q, TransitionTable.accepts s.table q ≠ some eof
  current : ∀ t, s.current = some t → s.Genuine t

namespace Orderly

theorem scanPast (h : s.Orderly) (hcurrent : s.current = none) (passed : List Token) :
    (s.scanPast passed).2.2.Orderly where
  accepts_ne q := by
    rw [(Continues.scanPast s passed).table]
    exact h.accepts_ne q
  current t ht := by simp [scanPast_current, hcurrent] at ht

theorem keeps : Keeps (Orderly : Scanner τ → Prop) fun t => t.kind ≠ eof → t.lexeme ≠ "" where
  scan s h hcurrent := h.scanPast hcurrent []
  look s t s' h hcurrent hscan := by
    have horderly := h.scanPast hcurrent []
    have hgenuine := Genuine.scanPast h.accepts_ne [] (congrArg Prod.fst hscan)
    rw [hscan] at horderly hgenuine
    refine ⟨fun hne => ?_, horderly.accepts_ne, fun u hu => ?_⟩
    · cases hgenuine with
      | ended _ => exact absurd rfl hne
      | matched _ _ hlexeme => exact hlexeme
    · obtain rfl := Option.some.inj hu
      exact hgenuine.of_ended_eq rfl
  take s t h hcurrent := by
    refine ⟨fun hne => ?_, h.accepts_ne, fun u hu => by simp at hu⟩
    cases h.current t hcurrent with
    | ended _ => exact absurd rfl hne
    | matched _ _ hlexeme => exact hlexeme
  skip s h := by
    unfold skip
    split
    · exact ⟨h.accepts_ne, fun t ht => (h.current t ht).of_ended_eq rfl⟩
    · exact h
  ignore s id s' h hignore := by
    obtain ⟨-, rfl⟩ := eq_of_ignore hignore
    exact ⟨h.accepts_ne, fun t ht => (h.current t ht).of_ended_eq rfl⟩

theorem start {table : τ} (haccepts : ∀ q, TransitionTable.accepts table q ≠ some eof) {text : String}
    {ids : List TerminalId} (h : Scanner.start table text ids = .ok s) : s.Orderly := by
  obtain ⟨-, rfl⟩ := eq_of_start h
  exact ⟨haccepts, fun t ht => by simp at ht⟩

/-- The token that a scanner looks at or consumes is genuine. -/
theorem genuine_of_answer (h : s.Orderly) {request : Request} (ht : (s.answer request).1 = .token (.ok t)) :
    (s.answer request).2.Genuine t := by
  cases request with
  | current => exact (keeps.peek h).1.current t (current_of_peek (Prod.ext (Reply.token.inj ht) rfl))
  | advance =>
    have hread : s.read.2.1 = .ok t := Reply.token.inj ht
    show s.read.2.2.Genuine t
    cases hcurrent : s.current with
    | some u =>
      rw [read_of_current hcurrent] at hread ⊢
      obtain rfl := Except.ok.inj hread
      exact (h.current u hcurrent).of_ended_eq rfl
    | none =>
      rw [read_of_none hcurrent] at hread ⊢
      exact .scanPast h.accepts_ne [] hread
  | scanAll => simp [answer] at ht
  | skip => simp [answer] at ht
  | isIgnored id => simp [answer] at ht
  | recover => simp [answer] at ht
  | ignore id =>
    unfold answer at ht
    dsimp only at ht
    split at ht <;> contradiction
  | ignoreNamed name =>
    unfold answer at ht
    dsimp only at ht
    split at ht <;> contradiction

end Orderly

/-- The end of input has come, and no other token has been looked at. -/
structure AtEnd (place : Location) (s : Scanner τ) : Prop where
  ended : s.ended = some place
  current : ∀ t, s.current = some t → t = .ofEof place

namespace AtEnd

theorem scanPast (h : s.AtEnd place) (passed : List Token) :
    s.scanPast passed = (passed.reverse, .ok (.ofEof place), s) := by
  have hkept : { s with ended := some place } = s := by rw [← h.ended]
  rw [scanPast_of_ended (scanOne_of_ended h.ended), h.ended, Option.getD_some, hkept]

theorem keeps (place : Location) : Keeps (AtEnd place : Scanner τ → Prop) fun t => t = .ofEof place where
  scan s h _ := by
    rw [h.scanPast]
    exact h
  look s t s' h _ hscan := by
    rw [h.scanPast] at hscan
    obtain ⟨ht, rfl⟩ := Prod.mk.inj hscan
    obtain rfl := Except.ok.inj ht
    exact ⟨rfl, h.ended, fun u hu => (Option.some.inj hu).symm⟩
  take s t h hcurrent := ⟨h.current t hcurrent, h.ended, fun u hu => by simp at hu⟩
  skip s h := by
    unfold skip
    rw [h.ended]
    exact h
  ignore s id s' h hignore := by
    obtain ⟨-, rfl⟩ := eq_of_ignore hignore
    exact ⟨h.ended, h.current⟩

private theorem advance_eq (h : s.AtEnd place) : s.advance.1 = .ok (.ofEof place) := by
  unfold advance
  cases hcurrent : s.current with
  | some t => rw [read_of_current hcurrent, h.current t hcurrent]
  | none => rw [read_of_none hcurrent, h.scanPast]

private theorem peek_eq (h : s.AtEnd place) : s.peek.1 = .ok (.ofEof place) := by
  cases hcurrent : s.current with
  | some t => rw [peek_of_current hcurrent, h.current t hcurrent]
  | none => rw [peek_of_token hcurrent (congrArg Prod.snd (h.scanPast []))]

omit [TransitionTable τ] in
private theorem skip_eq (h : s.AtEnd place) : s.skip.1 = none := by
  unfold skip
  rw [h.ended]

end AtEnd

/-- A genuine token of the end of input comes at the end. -/
theorem Orderly.atEnd (h : s.Orderly) (ht : s.Genuine t) (hkind : t.kind = eof) :
    ∃ place, t = .ofEof place ∧ s.AtEnd place := by
  cases ht with
  | @ended place hended =>
    refine ⟨place, rfl, hended, fun u hu => ?_⟩
    cases h.current u hu with
    | ended hplace =>
      obtain rfl := Option.some.inj (hended.symm.trans hplace)
      rfl
    | matched hnone _ _ => exact absurd (hended.symm.trans hnone) (by simp)
  | matched _ hne _ => exact absurd hkind hne

/-- What it means that the end of input comes once and for all. Its token is returned only when the whole text has
been consumed, is empty and has the place behind the text. From then on, nothing else is returned and nothing is
skipped, whatever is requested in between. All other tokens are not empty, and the end of input is never ignored. -/
structure EndsForGood (text : String) (s : Scanner τ) : Prop where
  ended : ∀ before request t, ((s.after before).answer request).1 = .token (.ok t) → t.kind = eof →
    textOf (s.consumed (before ++ [request])) = text.toList ∧ t = .ofEof (.behind text.toList) ∧
      ∀ between, (s.after (before ++ request :: between)).advance.1 = .ok t ∧
        (s.after (before ++ request :: between)).peek.1 = .ok t ∧
        (s.after (before ++ request :: between)).skip.1 = none
  lexeme_ne : ∀ requests, ∀ reply ∈ s.answerAll requests, ∀ t ∈ reply.handedOut, t.kind ≠ eof → t.lexeme ≠ ""
  not_ignored : ∀ requests, (s.after requests).isIgnored eof = false

/-- A scanner on a table that never accepts the end of input comes to it for good. -/
theorem Orderly.endsForGood {text : String} (h : s.Orderly) (haccounts : Accounts text.toList [] s)
    (hnot : s.isIgnored eof = false) : s.EndsForGood text where
  ended before request t ht hkind := by
    have horderly : ((s.after before).answer request).2.Orderly :=
      (keeps.answer (keeps.after h before).1 request).1
    obtain ⟨place, rfl, hend⟩ := horderly.atEnd ((keeps.after h before).1.genuine_of_answer ht) hkind
    have hconsumed := (haccounts.after (before ++ [request])).1
    rw [List.nil_append, after_append, after_cons] at hconsumed
    -- Nothing is unread where the end of input has come, so what has been consumed is the whole text.
    obtain ⟨hplace, hnil⟩ := hconsumed.ended_eq place hend.ended
    have htext := hconsumed.text_eq
    rw [show (after _ []).input.unread = [] from hnil, List.append_nil] at htext
    refine ⟨htext, ?_, fun between => ?_⟩
    · rw [hplace, hconsumed.location_eq, htext]
    · have hbetween := ((AtEnd.keeps place).after hend between).1
      rw [after_append, after_cons]
      exact ⟨hbetween.advance_eq, hbetween.peek_eq, hbetween.skip_eq⟩
  lexeme_ne requests := (keeps.after h requests).2
  not_ignored requests := (keeps_eof.after hnot requests).1

end Scanner

namespace Table

/-- No state of a valid table accepts the end of input. -/
theorem Valid.accepting_ne_eof {t : Table} (h : t.Valid) (q : StateId) : t.accepting q ≠ some eof := by
  intro haccepting
  have hmem : some eof ∈ t.finals := Array.mem_of_getElem? (Option.join_eq_some_iff.1 haccepting)
  exact (h.terminal_known eof hmem).1 rfl

end Table

namespace Scanner

/-- The scanners of valid tables, compressed or not, come to the end of input once and for all. -/
theorem end_of_input_is_final :
    (∀ t : Table, t.Valid → ∀ (text : String) (ids : List TerminalId) (s : Scanner Table),
      start t text ids = .ok s → s.EndsForGood text) ∧
    ∀ c : CompressedTable, c.table.Valid → ∀ (text : String) (ids : List TerminalId) (s : Scanner CompressedTable),
      start c text ids = .ok s → s.EndsForGood text :=
  ⟨fun _ ht _ _ _ h => (Orderly.start ht.accepting_ne_eof h).endsForGood (Accounts.start h) (isIgnored_eof_of_start h),
    fun _ hc _ _ _ h => (Orderly.start hc.accepting_ne_eof h).endsForGood (Accounts.start h) (isIgnored_eof_of_start h)⟩

theorem end_of_input_is_final_breaks : breaks.Valid ∧ breaks.compress.table.Valid ∧
    (∃ s, start breaks "\n\t\t\n" [1] = .ok s ∧ s.EndsForGood "\n\t\t\n") ∧
    ∃ s, start breaks.compress "\n\t\t\n" [] = .ok s ∧ s.EndsForGood "\n\t\t\n" := by
  have hbreaks : breaks.Valid := Table.fault?_eq_none_iff.1 (by decide +kernel)
  have hcompress : breaks.compress.table.Valid := Table.fault?_eq_none_iff.1 (by decide +kernel)
  exact ⟨hbreaks, hcompress, ⟨_, rfl, end_of_input_is_final.1 _ hbreaks _ [1] _ rfl⟩,
    ⟨_, rfl, end_of_input_is_final.2 _ hcompress _ [] _ rfl⟩⟩

end Scanner

end TableLexer
