import TableLexer.Proofs.Scanner.Furthest
import TableLexer.Proofs.Scanner.Ignoring

/-! Automata that follow the same texts and match the same ones, perhaps for other terminals: their
scanners cut every text into the same tokens, of their own kinds, and fail in the same places. -/
namespace TableLexer

namespace Automaton

variable {a a' : Automaton} {text v w rest : List Char} {q : StateId} {kind : TerminalId}

/-- Both automata have states after the same words, and match the same words. -/
structure Abreast (a a' : Automaton) : Prop where
  run : ∀ w, (a.run? a.initial w).isSome = (a'.run? a'.initial w).isSome
  accepts : ∀ w, (a.accepts w).isSome = (a'.accepts w).isSome

namespace Abreast

variable (h : a.Abreast a')
include h

private theorem isSome_stateAfter? (text : List Char) : (a.stateAfter? text).isSome = (a'.stateAfter? text).isSome := by
  unfold stateAfter?
  cases Symbol.word? text with
  | none => rfl
  | some w => exact h.run w

private theorem isSome_matches? (text : String) : (a.matches? text).isSome = (a'.matches? text).isSome := by
  unfold matches?
  cases Symbol.word? text.toList with
  | none => rfl
  | some w => exact h.accepts w

theorem stateAfter?_eq_none_iff (text : List Char) : a.stateAfter? text = none ↔ a'.stateAfter? text = none :=
  Option.isSome_eq_isSome.1 (h.isSome_stateAfter? text)

theorem matches?_eq_none_iff (text : String) : a.matches? text = none ↔ a'.matches? text = none :=
  Option.isSome_eq_isSome.1 (h.isSome_matches? text)

private theorem exists_matches? {text : String} (hkind : a.matches? text = some kind) :
    ∃ kind', a'.matches? text = some kind' := by
  rw [← Option.isSome_iff_exists, ← h.isSome_matches?, hkind]
  rfl

private theorem exists_longestMatch (hw : LongestMatch a.matches? text w rest kind) :
    ∃ kind', LongestMatch a'.matches? text w rest kind' := by
  obtain ⟨kind', hkind'⟩ := h.exists_matches? hw.kindOf_eq
  refine ⟨kind', hw.split, hw.nonempty, hkind', fun v u hsplit hv => hw.maximal v u hsplit ?_⟩
  rwa [h.isSome_matches?]

/-- The furthest beginnings are the same, and the states behind them go on with the same symbols. -/
theorem exists_furthest (hv : Furthest a text v rest q) : ∃ q', Furthest a' text v rest q' ∧
    ∀ s, (a.transition? q s).isSome = (a'.transition? q' s).isSome := by
  have hstate := hv.state
  obtain ⟨w, hw, hq⟩ := Option.bind_eq_some_iff.1 hstate
  obtain ⟨q', hq'⟩ : ∃ q', a'.stateAfter? v = some q' := by
    rw [← Option.isSome_iff_exists, ← h.isSome_stateAfter?, hstate]
    rfl
  refine ⟨q', ⟨hv.split, hq', fun c hc => (h.stateAfter?_eq_none_iff _).1 (hv.stop c hc)⟩, fun s => ?_⟩
  rw [stateAfter?, hw, Option.bind_some] at hq'
  have hrun := h.run (w ++ [s])
  rwa [run?_concat, run?_concat, hq, hq', Option.bind_some, Option.bind_some] at hrun

end Abreast

end Automaton

/-- Inputs with the same text still to be read give the same character. -/
private theorem Input.next?_cases {i j : Input} (h : i.unread = j.unread) : i.next? = none ∧ j.next? = none ∨
    ∃ c i' j', i.next? = some (c, i') ∧ j.next? = some (c, j') ∧ i'.unread = j'.unread := by
  cases hi : i.next? with
  | none => exact .inl ⟨rfl, next?_eq_none_iff.2 (h.symm.trans (next?_eq_none_iff.1 hi))⟩
  | some next =>
    have hunread := unread_of_next? hi
    cases hj : j.next? with
    | none =>
      rw [h, next?_eq_none_iff.1 hj] at hunread
      simp at hunread
    | some next' =>
      rw [h, unread_of_next? hj] at hunread
      obtain ⟨hc, hrest⟩ := List.cons.inj hunread
      exact .inr ⟨next.1, next.2, next'.2, rfl, by rw [← hc], hrest.symm⟩

open Automaton

variable {a a' : Automaton} {τ τ' : Type} [TransitionTable τ] [TransitionTable τ']

/-- Tokens for one text in one place, each of the kind that an automaton matches the text with, or both
of them for the end of input. -/
inductive Token.Abreast (a a' : Automaton) : Token → Token → Prop where
  | matched {kind kind' : TerminalId} {lexeme : String} (location : Location) (hkind : a.matches? lexeme = some kind)
      (hkind' : a'.matches? lexeme = some kind') : Abreast a a' ⟨kind, lexeme, location⟩ ⟨kind', lexeme, location⟩
  | ended (location : Location) : Abreast a a' (.ofEof location) (.ofEof location)

/-- No text is matched as the end of input. -/
theorem Automaton.WellFormed.ne_eof_of_matches? (ha : a.WellFormed) {text : String} {kind : TerminalId}
    (h : a.matches? text = some kind) : kind ≠ eof := by
  obtain ⟨w, -, haccepts⟩ := Option.bind_eq_some_iff.1 h
  obtain ⟨⟨q, -, hq⟩, -⟩ := (accepts_eq_some_iff ha).1 haccepts
  obtain ⟨state, hstate, hterminal⟩ := Option.bind_eq_some_iff.1 hq
  exact ((ha.sound q state hstate).terminal_known kind hterminal).1

theorem Token.Abreast.isEof_eq {t t' : Token} (h : Token.Abreast a a' t t') (ha : a.WellFormed)
    (ha' : a'.WellFormed) : t.isEof = t'.isEof := by
  cases h with
  | matched location hkind hkind' =>
    rw [isEof, isEof, beq_eq_false_iff_ne.2 (ha.ne_eof_of_matches? hkind),
      beq_eq_false_iff_ne.2 (ha'.ne_eof_of_matches? hkind')]
  | ended location => rfl

namespace Scanner

variable {s : Scanner τ} {s' : Scanner τ'}

/-- Events that are the same up to related tokens. -/
inductive Event.UpTo (related : Token → Token → Prop) : Event → Event → Prop where
  | passed {t t' : Token} (h : related t t') : UpTo related (.passed t) (.passed t')
  | token {t t' : Token} (h : related t t') : UpTo related (.token t) (.token t')
  | failure (e : LexicalError) : UpTo related (.failure e) (.failure e)
  | skipped (c : Char) (location : Location) : UpTo related (.skipped c location) (.skipped c location)

theorem Event.UpTo.mono {related related' : Token → Token → Prop} {event event' : Event}
    (h : Event.UpTo related event event') (himp : ∀ t t', related t t' → related' t t') :
    Event.UpTo related' event event' := by
  cases h with
  | passed h => exact .passed (himp _ _ h)
  | token h => exact .token (himp _ _ h)
  | failure e => exact .failure e
  | skipped c location => exact .skipped c location

/-- A scanner on the table of an automaton that ignores nothing and has not looked ahead. -/
structure Plain (a : Automaton) (s : Scanner τ) : Prop where
  implements : ∃ place states, Implements s.table a place states ∧
    ∀ text, text <:+ s.input.unread → a.StaysIn states text
  wellFormed : a.WellFormed
  noEpsilon : a.NoEpsilon
  ignored : s.ignored = []
  current : s.current = none

namespace Plain

variable (h : s.Plain a)
include h

private theorem read_of_token {t : Token} {r : Scanner τ} (hscan : s.scanOne = (.token t, r)) :
    s.read = ([], .ok t, r) := by
  have hignored := scanOne_ignored s
  rw [hscan, h.ignored] at hignored
  rw [Scanner.read, h.current]
  exact scanPast_of_token hscan (by rw [isIgnored, hignored]; rfl)

private theorem read_of_ended {r : Scanner τ} (hscan : s.scanOne = (.ended, r)) : s.read =
    ([], .ok (.ofEof (r.ended.getD r.location)), { r with ended := some (r.ended.getD r.location) }) := by
  rw [Scanner.read, h.current]
  exact scanPast_of_ended hscan

private theorem read_of_failure {e : LexicalError} {r : Scanner τ} (hscan : s.scanOne = (.failure e, r)) :
    s.read = ([], .error e, r) := by
  rw [Scanner.read, h.current]
  exact scanPast_of_failure hscan

/-- A scanner that has consumed more of the text is as plain. -/
theorem move {input : Input} (hsuffix : input.unread <:+ s.input.unread) (ended : Option Location)
    (location : Location) : Plain a { s with input, ended, location } where
  implements := by
    obtain ⟨place, states, himplements, hstays⟩ := h.implements
    exact ⟨place, states, himplements, fun text htext => hstays text (htext.trans hsuffix)⟩
  wellFormed := h.wellFormed
  noEpsilon := h.noEpsilon
  ignored := h.ignored
  current := h.current

end Plain

/-- Scanners in the same place of the same text, on the tables of automata that are abreast. -/
structure Abreast (a a' : Automaton) (s : Scanner τ) (s' : Scanner τ') : Prop where
  plain : s.Plain a
  plain' : s'.Plain a'
  abreast : a.Abreast a'
  unread : s.input.unread = s'.input.unread
  ended : s.ended = s'.ended
  location : s.location = s'.location

namespace Abreast

variable (h : Abreast a a' s s')
include h

/-- Scanners that consume the same text stay abreast. -/
theorem move {input input' : Input} (hunread : input.unread = input'.unread)
    (hsuffix : input.unread <:+ s.input.unread) (ended : Option Location) (location : Location) :
    Abreast a a' { s with input, ended, location } { s' with input := input', ended, location } where
  plain := h.plain.move hsuffix ended location
  plain' := h.plain'.move (hunread ▸ h.unread ▸ hsuffix) ended location
  abreast := h.abreast
  unread := hunread
  ended := rfl
  location := rfl

/-- Both read tokens for the same text, or both fail alike. -/
def ReadsAlike (a a' : Automaton) (s : Scanner τ) (s' : Scanner τ') : Prop :=
  ∃ r r', Abreast a a' r r' ∧
    ((∃ t t', Token.Abreast a a' t t' ∧ s.read = ([], .ok t, r) ∧ s'.read = ([], .ok t', r')) ∨
      ∃ e, s.read = ([], .error e, r) ∧ s'.read = ([], .error e, r'))

private theorem read_of_ended (hscan : s.scanOne = (.ended, s)) (hscan' : s'.scanOne = (.ended, s')) :
    ReadsAlike a a' s s' := by
  have hread' := h.plain'.read_of_ended hscan'
  rw [← h.ended, ← h.location] at hread'
  have hmove := h.move h.unread (List.suffix_refl _) (some (s.ended.getD s.location)) s.location
  exact ⟨_, _, hmove, .inl ⟨_, _, .ended _, h.plain.read_of_ended hscan, hread'⟩⟩

section scanning

variable (hended : s.ended = none)
include hended

private theorem read_of_longestMatch {w rest : List Char} {kind : TerminalId}
    (hw : LongestMatch a.matches? s.input.unread w rest kind) : ReadsAlike a a' s s' := by
  obtain ⟨place, _, himplements, hstays⟩ := h.plain.implements
  obtain ⟨place', _, himplements', hstays'⟩ := h.plain'.implements
  obtain ⟨kind', hw'⟩ := h.abreast.exists_longestMatch hw
  have hsuffix : rest <:+ s.input.unread := ⟨w, hw.split⟩
  rw [h.unread] at hw'
  obtain ⟨input, hinput, hscan⟩ := scanOne_of_longestMatch himplements h.plain.wellFormed h.plain.noEpsilon
    (hstays _ (List.suffix_refl _)) hended hw
  obtain ⟨input', hinput', hscan'⟩ := scanOne_of_longestMatch himplements' h.plain'.wellFormed
    h.plain'.noEpsilon (hstays' _ (List.suffix_refl _)) (h.ended ▸ hended) hw'
  rw [← h.location, ← h.ended] at hscan'
  have hmove := h.move (hinput.trans hinput'.symm) (hinput ▸ hsuffix) s.ended (s.location.afterAll w)
  exact ⟨_, _, hmove, .inl ⟨_, _, .matched s.location hw.kindOf_eq hw'.kindOf_eq, h.plain.read_of_token hscan,
    h.plain'.read_of_token hscan'⟩⟩

private theorem read_of_furthest (hne : s.input.unread ≠ []) {v rest : List Char} {q : StateId}
    (hnone : ∀ v u, v ≠ [] → v ++ u = s.input.unread → a.matches? (String.ofList v) = none)
    (hv : Furthest a s.input.unread v rest q) : ReadsAlike a a' s s' := by
  obtain ⟨place, _, himplements, hstays⟩ := h.plain.implements
  obtain ⟨place', _, himplements', hstays'⟩ := h.plain'.implements
  obtain ⟨q', hv', hexpected⟩ := h.abreast.exists_furthest hv
  have hsuffix : rest <:+ s.input.unread := ⟨v, hv.split⟩
  have hnone' : ∀ v u, v ≠ [] → v ++ u = s'.input.unread → a'.matches? (String.ofList v) = none :=
    fun v u hne hu => (h.abreast.matches?_eq_none_iff _).1 (hnone v u hne (hu.trans h.unread.symm))
  rw [h.unread] at hv'
  obtain ⟨input, hinput, hscan⟩ := scanOne_of_furthest himplements h.plain.wellFormed h.plain.noEpsilon
    (hstays _ (List.suffix_refl _)) hended hne hnone hv
  obtain ⟨input', hinput', hscan'⟩ := scanOne_of_furthest himplements' h.plain'.wellFormed h.plain'.noEpsilon
    (hstays' _ (List.suffix_refl _)) (h.ended ▸ hended) (h.unread ▸ hne) hnone' hv'
  simp only [← h.location, ← h.ended, ← hexpected] at hscan'
  have hmove := h.move (hinput.trans hinput'.symm) (hinput ▸ hsuffix) s.ended (s.location.afterAll v)
  exact ⟨_, _, hmove, .inr ⟨_, h.plain.read_of_failure hscan, h.plain'.read_of_failure hscan'⟩⟩

end scanning

/-- Scanners that are abreast read the same, and stay abreast. -/
theorem read : ReadsAlike a a' s s' := by
  cases hended : s.ended with
  | some place =>
    exact h.read_of_ended (scanOne_of_ended hended) (scanOne_of_ended (h.ended.symm.trans hended))
  | none =>
    by_cases hnil : s.input.unread = []
    · exact h.read_of_ended (scanOne_of_unread_nil hended hnil)
        (scanOne_of_unread_nil (h.ended.symm.trans hended) (h.unread.symm.trans hnil))
    obtain ⟨place, _, himplements, hstays⟩ := h.plain.implements
    have hstays := hstays _ (List.suffix_refl _)
    have hmunches := munches himplements h.plain.wellFormed h.plain.noEpsilon hstays hended
    by_cases hmatch : ∃ v u, v ≠ [] ∧ v ++ u = s.input.unread ∧ (a.matches? (String.ofList v)).isSome
    · obtain ⟨v, u, hne, hsplit, hv⟩ := hmatch
      obtain ⟨w, rest, kind, _, hw, -⟩ := hmunches.token v u hne hsplit hv
      exact h.read_of_longestMatch hended hw
    · have hnone : ∀ v u, v ≠ [] → v ++ u = s.input.unread → a.matches? (String.ofList v) = none := by
        intro v u hne hsplit
        rw [← Option.isNone_iff_eq_none, ← Option.not_isSome]
        simpa using fun hv => hmatch ⟨v, u, hne, hsplit, hv⟩
      obtain ⟨q, hv, -⟩ := (Match.follows_empty himplements).furthest himplements h.plain.wellFormed
        h.plain.noEpsilon s.input hstays
      exact h.read_of_furthest hended hnil hnone hv

/-- Scanners that are abreast skip the same character, and stay abreast. -/
theorem skip : ∃ c r r', s.skip = (c, r) ∧ s'.skip = (c, r') ∧ Abreast a a' r r' := by
  unfold Scanner.skip
  rw [← h.ended, ← h.location]
  cases hended : s.ended with
  | some place => exact ⟨none, s, s', rfl, rfl, h⟩
  | none =>
    rcases Input.next?_cases h.unread with ⟨hnext, hnext'⟩ | ⟨c, rest, rest', hnext, hnext', hrest⟩
    · rw [hnext, hnext']
      exact ⟨none, s, s', rfl, rfl, h⟩
    · rw [hnext, hnext']
      have hsuffix : rest.unread <:+ s.input.unread := ⟨[c], (Input.unread_of_next? hnext).symm⟩
      exact ⟨some c, _, _, rfl, rfl, h.move hrest hsuffix none (s.location.after c)⟩

theorem recoverAfter {made made' : List Event} (hmade : List.Forall₂ (Event.UpTo (Token.Abreast a a')) made made') :
    List.Forall₂ (Event.UpTo (Token.Abreast a a')) (s.recoverAfter made).1 (s'.recoverAfter made').1 := by
  induction hn : s.remaining using Nat.strong_induction_on generalizing s s' made made' with
  | _ n ih =>
    obtain ⟨r, r', hr, ⟨t, t', ht, hread, hread'⟩ | ⟨e, hread, hread'⟩⟩ := h.read
    · have hmade := List.Forall₂.cons (Event.UpTo.token ht) hmade
      have hend' := ht.isEof_eq h.plain.wellFormed h.plain'.wellFormed
      cases hend : t.isEof with
      | true =>
        rw [recoverAfter_of_eof hread hend, recoverAfter_of_eof hread' (hend'.symm.trans hend)]
        exact List.rel_reverse hmade
      | false =>
        rw [recoverAfter_of_token hread hend, recoverAfter_of_token hread' (hend'.symm.trans hend)]
        exact ih _ (hn ▸ read_remaining_lt hread hend) hr hmade rfl
    · have hmade := List.Forall₂.cons (Event.UpTo.failure e) hmade
      obtain ⟨c, q, q', hskip, hskip', hq⟩ := hr.skip
      cases c with
      | none =>
        rw [recoverAfter_of_stuck hread hskip, recoverAfter_of_stuck hread' hskip']
        exact List.rel_reverse hmade
      | some c =>
        have hle := read_remaining_le s
        rw [hread] at hle
        rw [recoverAfter_of_skip hread hskip, recoverAfter_of_skip hread' hskip', ← hr.location]
        exact ih _ (hn ▸ (skip_remaining_lt hskip).trans_le hle) hq (.cons (.skipped c r.location) hmade) rfl

end Abreast

end Scanner

end TableLexer
