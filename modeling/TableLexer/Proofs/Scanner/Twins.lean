import Mathlib.Data.Option.Basic
import TableLexer.Proofs.Scanner.Steps

/-! Tables that agree on all that a scanner asks of them cannot be told apart by scanning. -/
namespace TableLexer

section tables

variable {τ τ' : Type} [TransitionTable τ] [TransitionTable τ']

/-- Related states of two tables agree on what a scanner sees, and their transitions lead to related
states. -/
structure Simulates (t : τ) (t' : τ') (related : StateId → StateId → Prop) : Prop where
  initial : related (TransitionTable.initial t) (TransitionTable.initial t')
  next : ∀ p p', related p p' → ∀ s,
    Option.Rel related (TransitionTable.next t p s) (TransitionTable.next t' p' s)
  accepts : ∀ p p', related p p' → TransitionTable.accepts t p = TransitionTable.accepts t' p'
  expected : ∀ p p', related p p' → TransitionTable.expected t p = TransitionTable.expected t' p'
  terminals : TransitionTable.terminals t = TransitionTable.terminals t'

namespace Match

variable {t : τ} {t' : τ'} {related : StateId → StateId → Prop} {m m' : Match} {c : Char} {target : StateId}

/-- The matches have followed the same text to related states. -/
structure Twins (related : StateId → StateId → Prop) (m m' : Match) : Prop where
  buffer : m.buffer = m'.buffer
  accepted : m.accepted = m'.accepted
  state : related m.state m'.state

theorem Twins.extend (h : Simulates t t' related) (hm : Twins related m m') {target' : StateId}
    (htarget : related target target') : Twins related (m.extend t c target) (m'.extend t' c target') where
  buffer := congrArg (·.push c) hm.buffer
  accepted := by simp only [Match.extend, h.accepts _ _ htarget, hm.buffer, hm.accepted]
  state := htarget

theorem Twins.follow (h : Simulates t t' related) (hm : Twins related m m') (i : Input) :
    Twins related (follow t m i).1 (follow t' m' i).1 ∧ (follow t m i).2 = (follow t' m' i).2 := by
  fun_induction Match.follow t m i generalizing m' with
  | case1 m i hnext =>
    rw [follow_end hnext]
    exact ⟨hm, rfl⟩
  | case2 m i c rest hnext target htarget _ ih =>
    obtain ⟨s, hs, htarget⟩ := Option.bind_eq_some_iff.1 htarget
    have hrel := h.next _ _ hm.state s
    rw [htarget] at hrel
    generalize htarget' : TransitionTable.next t' m'.state s = result at hrel
    cases hrel with
    | @some _ target' hrel =>
      have hc : (Symbol.ofChar? c).bind (TransitionTable.next t' m'.state) = some target' := by
        rw [hs, Option.bind_some, htarget']
      rw [follow_step hnext hc]
      exact ih (hm.extend h hrel)
  | case3 m i c rest hnext hstop =>
    have hc : (Symbol.ofChar? c).bind (TransitionTable.next t' m'.state) = none := by
      rw [Option.bind_eq_none_iff] at hstop ⊢
      intro s hs
      have hrel := h.next _ _ hm.state s
      rw [hstop s hs] at hrel
      generalize TransitionTable.next t' m'.state s = result at hrel ⊢
      cases hrel
      rfl
    rw [follow_stop hnext hc]
    exact ⟨hm, rfl⟩

end Match

end tables

namespace Scanner

variable {τ τ' : Type} [TransitionTable τ] [TransitionTable τ'] {s : Scanner τ} {s' : Scanner τ'}

/-- Scanners that differ in nothing but their tables, which agree. -/
structure Twins (s : Scanner τ) (s' : Scanner τ') : Prop where
  tables : ∃ related, Simulates s.table s'.table related
  input : s.input = s'.input
  ignored : s.ignored = s'.ignored
  current : s.current = s'.current
  ended : s.ended = s'.ended
  location : s.location = s'.location

/-- The outcomes of a step are the same results, and scanners that are twins again. -/
def Agree {α : Type} (r : α × Scanner τ) (r' : α × Scanner τ') : Prop := r.1 = r'.1 ∧ r.2.Twins r'.2

private theorem Agree.exists_twin {α : Type} {r : α × Scanner τ} {r' : α × Scanner τ'} {x : α} (h : Agree r r')
    (hr : r = (x, s)) : ∃ s', r' = (x, s') ∧ s.Twins s' := by
  obtain ⟨rfl, hs⟩ : r.1 = x ∧ r.2 = s := by simp [hr]
  exact ⟨r'.2, Prod.ext h.1.symm rfl, hs ▸ h.2⟩

namespace Twins

variable (h : s.Twins s')
include h

theorem terminals : TransitionTable.terminals s.table = TransitionTable.terminals s'.table := by
  obtain ⟨related, htables⟩ := h.tables
  exact htables.terminals

theorem isIgnored (id : TerminalId) : s.isIgnored id = s'.isIgnored id := by
  rw [Scanner.isIgnored, Scanner.isIgnored, h.ignored]

theorem scanOne : Agree s.scanOne s'.scanOne := by
  obtain ⟨related, htables⟩ := h.tables
  have hempty : Match.Twins related (.empty s.table) (.empty s'.table) := ⟨rfl, rfl, htables.initial⟩
  obtain ⟨hm, hrest⟩ := hempty.follow htables s.input
  rcases hfollow : Match.follow s.table (.empty s.table) s.input with ⟨m, found, input⟩
  rcases hfollow' : Match.follow s'.table (.empty s'.table) s.input with ⟨m', found', input'⟩
  rw [hfollow, hfollow'] at hm hrest
  obtain ⟨rfl, rfl⟩ := Prod.mk.inj hrest
  rw [h.input] at hfollow'
  have hbuffer : m.buffer = m'.buffer := hm.buffer
  have haccepted : m.accepted = m'.accepted := hm.accepted
  rcases hscan : s.scanOne with ⟨attempt, r⟩
  cases scanOne_cases hfollow hscan with
  | finished hended =>
    rw [scanOne_of_ended (h.ended.symm.trans hended)]
    exact ⟨rfl, h⟩
  | matched hended hm =>
    rw [scanOne_of_accepted (h.ended.symm.trans hended) hfollow' (haccepted ▸ hm), hbuffer, h.location]
    exact ⟨rfl, h.tables, rfl, h.ignored, h.current, h.ended, rfl⟩
  | drained hended hm hnil hnone =>
    rw [scanOne_of_empty (h.ended.symm.trans hended) hfollow' (haccepted ▸ hm) (hbuffer ▸ hnil) hnone]
    exact ⟨rfl, h.tables, rfl, h.ignored, h.current, h.ended, h.location⟩
  | stuck hended hnone hstuck =>
    have hexpected := htables.expected _ _ hm.state
    rw [scanOne_of_failure (h.ended.symm.trans hended) hfollow' (haccepted ▸ hnone) (hbuffer ▸ hstuck), hbuffer,
      h.location, hexpected]
    exact ⟨rfl, h.tables, rfl, h.ignored, h.current, h.ended, rfl⟩

theorem scanPast (passed : List Token) :
    (s.scanPast passed).1 = (s'.scanPast passed).1 ∧ Agree (s.scanPast passed).2 (s'.scanPast passed).2 := by
  fun_induction Scanner.scanPast s passed generalizing s' with
  | case1 s passed t r hscan hignored _ ih =>
    obtain ⟨r', hscan', hr⟩ := h.scanOne.exists_twin hscan
    rw [hr.isIgnored] at hignored
    rw [scanPast_of_ignored hscan' hignored]
    exact ih hr
  | case2 s passed t r hscan hignored =>
    obtain ⟨r', hscan', hr⟩ := h.scanOne.exists_twin hscan
    rw [hr.isIgnored, Bool.not_eq_true] at hignored
    rw [scanPast_of_token hscan' hignored]
    exact ⟨rfl, rfl, hr⟩
  | case3 s passed r hscan =>
    obtain ⟨r', hscan', hr⟩ := h.scanOne.exists_twin hscan
    rw [scanPast_of_ended hscan', ← hr.ended, ← hr.location]
    exact ⟨rfl, rfl, hr.tables, hr.input, hr.ignored, hr.current, rfl, rfl⟩
  | case4 s passed e r hscan =>
    obtain ⟨r', hscan', hr⟩ := h.scanOne.exists_twin hscan
    rw [scanPast_of_failure hscan']
    exact ⟨rfl, rfl, hr⟩

theorem withCurrent (token : Option Token) :
    { s with current := token }.Twins { s' with current := token } :=
  ⟨h.tables, h.input, h.ignored, rfl, h.ended, h.location⟩

theorem read : s.read.1 = s'.read.1 ∧ Agree s.read.2 s'.read.2 := by
  unfold Scanner.read
  rw [← h.current]
  cases s.current with
  | some t => exact ⟨rfl, rfl, h.withCurrent none⟩
  | none => exact h.scanPast []

theorem advance : Agree s.advance s'.advance := h.read.2

private theorem exists_read {passed : List Token} {result : Except LexicalError Token} {r : Scanner τ}
    (hread : s.read = (passed, result, r)) : ∃ r', s'.read = (passed, result, r') ∧ r.Twins r' := by
  obtain ⟨hpassed, hrest⟩ := h.read
  rw [hread] at hpassed hrest
  obtain ⟨r', hrest', hr⟩ := hrest.exists_twin rfl
  exact ⟨r', Prod.ext hpassed.symm hrest', hr⟩

theorem peek : Agree s.peek s'.peek := by
  unfold Scanner.peek
  rw [← h.current]
  cases s.current with
  | some t => exact ⟨rfl, h⟩
  | none =>
    dsimp only
    rcases hscan : (s.scanPast []).2 with ⟨result, r⟩
    obtain ⟨r', hscan', hr⟩ := (h.scanPast []).2.exists_twin hscan
    rw [hscan']
    cases result with
    | error e => exact ⟨rfl, hr⟩
    | ok t => exact ⟨rfl, hr.withCurrent (some t)⟩

theorem skip : Agree s.skip s'.skip := by
  unfold Scanner.skip
  rw [← h.ended, ← h.input, ← h.location]
  cases hended : s.ended with
  | some place => exact ⟨rfl, h⟩
  | none =>
    cases s.input.next? with
    | none => exact ⟨rfl, h⟩
    | some next => exact ⟨rfl, h.tables, rfl, h.ignored, h.current, rfl, rfl⟩

theorem ignore (id : TerminalId) : (∃ e, s.ignore id = .error e ∧ s'.ignore id = .error e) ∨
    ∃ r r', s.ignore id = .ok r ∧ s'.ignore id = .ok r' ∧ r.Twins r' := by
  unfold Scanner.ignore
  rw [← h.terminals]
  split
  · exact .inl ⟨_, rfl, rfl⟩
  · split
    · exact .inl ⟨_, rfl, rfl⟩
    · exact .inr ⟨_, _, rfl, rfl, h.tables, h.input, congrArg (id :: ·) h.ignored, h.current, h.ended,
        h.location⟩

theorem ignoreNamed (name : String) :
    (∃ e, s.ignoreNamed name = .error e ∧ s'.ignoreNamed name = .error e) ∨
      ∃ r r', s.ignoreNamed name = .ok r ∧ s'.ignoreNamed name = .ok r' ∧ r.Twins r' := by
  unfold Scanner.ignoreNamed
  rw [← h.terminals]
  cases (TransitionTable.terminals s.table).id? name with
  | none => exact .inl ⟨_, rfl, rfl⟩
  | some id => exact h.ignore id

theorem readAllAfter (made : List Token) :
    (s.readAllAfter made).1 = (s'.readAllAfter made).1 ∧
      Agree (s.readAllAfter made).2 (s'.readAllAfter made).2 := by
  fun_induction Scanner.readAllAfter s made generalizing s' with
  | case1 s made passed t r hread hend =>
    obtain ⟨r', hread', hr⟩ := h.exists_read hread
    rw [readAllAfter_of_eof hread' hend]
    exact ⟨rfl, rfl, hr⟩
  | case2 s made passed t r hread hend _ ih =>
    obtain ⟨r', hread', hr⟩ := h.exists_read hread
    rw [readAllAfter_of_token hread' hend]
    exact ih hr
  | case3 s made passed e r hread =>
    obtain ⟨r', hread', hr⟩ := h.exists_read hread
    rw [readAllAfter_of_failure hread']
    exact ⟨rfl, rfl, hr⟩

theorem scanAll : Agree s.scanAll s'.scanAll := by
  unfold Scanner.scanAll Scanner.readAll
  obtain ⟨htokens, hrest⟩ := h.readAllAfter []
  rcases hread : s.readAllAfter [] with ⟨tokens, failure, r⟩
  rw [hread] at htokens hrest
  obtain ⟨r', hrest', hr⟩ := hrest.exists_twin rfl
  have hread' : s'.readAllAfter [] = (tokens, failure, r') := Prod.ext htokens.symm hrest'
  rw [hread']
  cases failure with
  | none => exact ⟨rfl, hr⟩
  | some e => exact ⟨rfl, hr⟩

theorem recoverAfter (made : List Event) : Agree (s.recoverAfter made) (s'.recoverAfter made) := by
  fun_induction Scanner.recoverAfter s made generalizing s' with
  | case1 s made passed t r hread hend =>
    obtain ⟨r', hread', hr⟩ := h.exists_read hread
    rw [recoverAfter_of_eof hread' hend]
    exact ⟨rfl, hr⟩
  | case2 s made passed t r hread hend _ ih =>
    obtain ⟨r', hread', hr⟩ := h.exists_read hread
    rw [recoverAfter_of_token hread' hend]
    exact ih hr
  | case3 s made passed e r hread r₁ hskip =>
    obtain ⟨r', hread', hr⟩ := h.exists_read hread
    obtain ⟨r₁', hskip', hr₁⟩ := hr.skip.exists_twin hskip
    rw [recoverAfter_of_stuck hread' hskip']
    exact ⟨rfl, hr₁⟩
  | case4 s made passed e r hread c r₁ hskip _ ih =>
    obtain ⟨r', hread', hr⟩ := h.exists_read hread
    obtain ⟨r₁', hskip', hr₁⟩ := hr.skip.exists_twin hskip
    rw [recoverAfter_of_skip hread' hskip', ← hr.location]
    exact ih hr₁

/-- Twins give the same answer to a request, and stay twins. -/
theorem answer (request : Request) : Agree (s.answer request) (s'.answer request) := by
  cases request with
  | current => exact ⟨congrArg Reply.token h.peek.1, h.peek.2⟩
  | advance => exact ⟨congrArg Reply.token h.advance.1, h.advance.2⟩
  | scanAll => exact ⟨congrArg Reply.tokens h.scanAll.1, h.scanAll.2⟩
  | skip => exact ⟨congrArg Reply.skipped h.skip.1, h.skip.2⟩
  | recover => exact ⟨congrArg Reply.events (h.recoverAfter []).1, (h.recoverAfter []).2⟩
  | isIgnored id => exact ⟨congrArg Reply.flag (h.isIgnored id), h⟩
  | ignore id =>
    unfold Scanner.answer
    dsimp only
    rcases h.ignore id with ⟨e, he, he'⟩ | ⟨r, r', hr, hr', htwins⟩
    · rw [he, he']
      exact ⟨rfl, h⟩
    · rw [hr, hr']
      exact ⟨rfl, htwins⟩
  | ignoreNamed name =>
    unfold Scanner.answer
    dsimp only
    rcases h.ignoreNamed name with ⟨e, he, he'⟩ | ⟨r, r', hr, hr', htwins⟩
    · rw [he, he']
      exact ⟨rfl, h⟩
    · rw [hr, hr']
      exact ⟨rfl, htwins⟩

/-- No requests tell twins apart. -/
theorem answerAll (requests : List Request) : s.answerAll requests = s'.answerAll requests := by
  induction requests generalizing s s' with
  | nil => rfl
  | cons request requests ih =>
    obtain ⟨hreply, htwins⟩ := h.answer request
    rw [answerAll_cons, answerAll_cons, hreply, ih htwins]

private theorem foldlM_ignore (ids : List TerminalId) :
    (∃ e, ids.foldlM Scanner.ignore s = .error e ∧ ids.foldlM Scanner.ignore s' = .error e) ∨
      ∃ r r', ids.foldlM Scanner.ignore s = .ok r ∧ ids.foldlM Scanner.ignore s' = .ok r' ∧ r.Twins r' := by
  induction ids generalizing s s' with
  | nil => exact .inr ⟨s, s', rfl, rfl, h⟩
  | cons id ids ih =>
    rw [List.foldlM_cons, List.foldlM_cons]
    rcases h.ignore id with ⟨e, he, he'⟩ | ⟨r, r', hr, hr', htwins⟩
    · rw [he, he']
      exact .inl ⟨e, rfl, rfl⟩
    · rw [hr, hr']
      exact ih htwins

end Twins

end Scanner

/-- Scanners over tables that agree give the same answers, whatever they ignore. -/
theorem Simulates.answers {τ τ' : Type} [TransitionTable τ] [TransitionTable τ'] {t : τ} {t' : τ'}
    {related : StateId → StateId → Prop} (h : Simulates t t' related) (text : String) (ids : List TerminalId)
    (requests : List Scanner.Request) : (Scanner.start t text ids).map (·.answerAll requests) =
      (Scanner.start t' text ids).map (·.answerAll requests) := by
  have htwins : (Scanner.ofText t text).Twins (Scanner.ofText t' text) := ⟨⟨related, h⟩, rfl, rfl, rfl, rfl, rfl⟩
  unfold Scanner.start
  rcases htwins.foldlM_ignore ids with ⟨e, he, he'⟩ | ⟨r, r', hr, hr', htwins⟩
  · rw [he, he']
    rfl
  · rw [hr, hr']
    exact congrArg Except.ok (htwins.answerAll requests)

end TableLexer
