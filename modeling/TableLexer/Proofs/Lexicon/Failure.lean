import TableLexer.Proofs.Lexicon.Cells
import TableLexer.Proofs.Scanner.Account
import TableLexer.Proofs.Scanner.Furthest

/-! What the scanners of a lexicon report where the described automaton matches no beginning of the text: how far
it can follow the text, and all that it could go on with. -/
namespace TableLexer

open Automaton

variable {a n : Automaton} {text v rest : List Char} {q : StateId}

namespace Automaton

/-- The automaton has a run on a text and then on symbols. -/
def RunsOn (n : Automaton) (text : List Char) (more : List Symbol) : Prop :=
  ∃ w q, Symbol.word? text = some w ∧ Path n.Edge n.initial (w ++ more) q

end Automaton

/-- Of the beginnings of a text the one that is followed furthest is the longest that has a state. -/
theorem Furthest.isGreatest (h : Furthest a text v rest q) :
    IsGreatest {k | k ≤ text.length ∧ (a.stateAfter? (text.take k)).isSome} v.length := by
  have hsplit := h.split
  subst hsplit
  refine ⟨⟨by simp, by rw [List.take_left, h.state]; rfl⟩, fun k hk => ?_⟩
  obtain ⟨hle, hstate⟩ := hk
  obtain ⟨q', hq'⟩ := Option.isSome_iff_exists.1 hstate
  refine Nat.le_of_not_lt fun hlt => ?_
  -- The characters behind the furthest beginning would have a state, too.
  rw [List.take_append, List.take_of_length_le hlt.le] at hq'
  rw [← List.take_append_drop (k - v.length) rest] at h
  have hnil := congrArg List.length (h.eq_nil hq')
  rw [List.length_take, List.length_nil] at hnil
  rw [List.length_append] at hle
  omega

namespace Description.Determinized

variable {d : Description} (h : d.Determinized n a)
include h

theorem isSome_stateAfter?_iff : (a.stateAfter? text).isSome ↔ n.RunsOn text [] := by
  rw [stateAfter?, RunsOn]
  cases Symbol.word? text with
  | none => simp
  | some w => simpa using h.run w

/-- The symbols that a state goes on with are those that the described automaton has a run on behind the text. -/
private theorem isSome_transition?_iff {s : Symbol} (hq : a.stateAfter? text = some q) :
    (a.transition? q s).isSome ↔ n.RunsOn text [s] := by
  obtain ⟨w, hw, hrun⟩ := Option.bind_eq_some_iff.1 hq
  have hnext := h.run (w ++ [s])
  rw [run?_concat, hrun, Option.bind_some] at hnext
  simp [RunsOn, hw, hnext]

end Description.Determinized

/-- An error that says how far an automaton can follow the text behind what has been consumed, and what it could
go on with from there. -/
structure LexicalError.Precise (n : Automaton) (done text : List Char) (length : Nat) (e : LexicalError) : Prop where
  longest : IsGreatest {k | k ≤ text.length ∧ n.RunsOn (text.take k) []} length
  found : e.found = text[length]?
  location : e.location = .behind (done ++ text.take length)
  ascending : e.expected.Pairwise (· < ·)
  expected : ∀ s, s ∈ e.expected ↔ n.RunsOn (text.take length) [s]

namespace Scanner

variable {τ : Type} [TransitionTable τ] {s s' : Scanner τ}

omit [TransitionTable τ] in
/-- The character that is skipped is the next one. -/
private theorem skip_eq_head? (hended : s.ended = none) : s.skip.1 = s.input.unread.head? := by
  unfold Scanner.skip
  rw [hended]
  cases hnext : s.input.next? with
  | none => rw [Input.next?_eq_none_iff.1 hnext]; rfl
  | some next => rw [Input.unread_of_next? hnext]; rfl

private theorem advance_of_failure {e : LexicalError} (hcurrent : s.current = none) (h : s.scanOne = (.failure e, s')) :
    s.advance = (.error e, s') := by
  rw [advance, read, hcurrent]
  exact congrArg Prod.snd (scanPast_of_failure h)

omit [TransitionTable τ] in
/-- Before the end of the text the end has not been produced. -/
private theorem Accounts.ended_eq_none {portions : List Portion} (h : Accounts text portions s)
    (hne : s.input.unread ≠ []) : s.ended = none := by
  cases hended : s.ended with
  | none => rfl
  | some place => exact absurd (h.ended_eq place hended).2 hne

/-- Where no beginning of the unread text is matched, a scanner fails. It reports and drops what its table can
follow, and stands behind it. -/
theorem scanOne_precise {d : Description} {place : StateId → StateId} {states : Set StateId} {done : List Char}
    (himplements : Implements s.table a place states) (hd : d.Determinized n a)
    (hstays : a.StaysIn states s.input.unread) (hended : s.ended = none)
    (hlocation : s.location = .behind done) (hne : s.input.unread ≠ [])
    (hnone : ∀ v u, v ≠ [] → v ++ u = s.input.unread → n.matches? (String.ofList v) = none) :
    ∃ length e s', s.scanOne = (.failure e, s') ∧ e.Precise n done s.input.unread length ∧
      s'.input.unread = s.input.unread.drop length ∧ s'.skip.1 = e.found := by
  obtain ⟨q, hfurthest, -⟩ :=
    (Match.follows_empty himplements).furthest himplements hd.wellFormed hd.noEpsilon s.input hstays
  change Furthest a s.input.unread _ _ q at hfurthest
  generalize (Match.follow s.table (.empty s.table) s.input).1.buffer.toList = v at hfurthest
  generalize (Match.follow s.table (.empty s.table) s.input).2.2.unread = rest at hfurthest
  rw [← hd.matches?_eq] at hnone
  obtain ⟨input, hinput, hscan⟩ :=
    scanOne_of_furthest himplements hd.wellFormed hd.noEpsilon hstays hended hne hnone hfurthest
  have htake : s.input.unread.take v.length = v := by rw [← hfurthest.split, List.take_left]
  have hdrop : s.input.unread.drop v.length = rest := by rw [← hfurthest.split, List.drop_left]
  refine ⟨v.length, _, _, hscan, ⟨?_, ?_, ?_, ?_, fun x => ?_⟩, hinput.trans hdrop.symm, ?_⟩
  · simpa only [hd.isSome_stateAfter?_iff] using hfurthest.isGreatest
  · rw [← hdrop, List.head?_drop]
  · rw [htake, hlocation, Location.afterAll_behind]
  · exact Symbol.ascending_all.filter _
  · rw [htake, List.mem_filter, ← hd.isSome_transition?_iff hfurthest.state]
    exact and_iff_right (Symbol.mem_all x)
  · refine Eq.trans (skip_eq_head? ?_) ?_
    · exact hended
    · exact congrArg List.head? hinput

end Scanner

namespace Lexicon

variable {d : Description} {l : Lexicon}

/-- An arrow of two characters. -/
def arrow : Description where
  terminals := [("ARROW", .literal "->")]

end Lexicon

end TableLexer
