import TableLexer.Proofs.Scanner.Steps
import TableLexer.Proofs.Table.Lookups
import TableLexer.Scanner.Lookups

/-! Scanning a token with the lookups of a build: over a table that has all of its cells it does not panic, and does
what scanning does. -/
namespace TableLexer

namespace Match

/-- Following an input character by character, without the measure that bounds it. -/
private theorem follow?_next (t : Table) (b : Build) (m : Match) (i : Input) : follow? t b m i =
    match i.next? with
    | none => .ok (m, none, i)
    | some (c, rest) =>
      match (Symbol.ofChar? c).elim (.ok none) (t.next? b m.state) with
      | .ok (some target) => follow? t b (m.extend t c target) rest
      | .ok none => .ok (m, some c, rest.putBack c)
      | .error panic => .error panic := by
  rw [follow?]
  split
  · next hnext => rw [hnext]
  · next c rest hnext =>
    rcases hlook : (Symbol.ofChar? c).elim (.ok none) (t.next? b m.state) with panic | ⟨_ | target⟩ <;>
      simp only [hnext, hlook]

/-- A character that stands next leads where its symbol does, or panics. -/
private theorem follow?_cons {t : Table} {b : Build} {m : Match} {i rest : Input} {c : Char}
    (h : i.next? = some (c, rest)) : follow? t b m i =
      match (Symbol.ofChar? c).elim (.ok none) (t.next? b m.state) with
      | .ok (some target) => follow? t b (m.extend t c target) rest
      | .ok none => .ok (m, some c, rest.putBack c)
      | .error panic => .error panic := by
  rw [follow?_next, h]

end Match

variable {t : Table} (h : t.Rectangular) (hcount : t.states * t.columns < Table.wordSize) (b : Build)
include h hcount

/-- A character leads where the table says. -/
private theorem elim_next? (q : StateId) (c : Char) : (Symbol.ofChar? c).elim (.ok none) (t.next? b q) =
    .ok ((Symbol.ofChar? c).bind (TransitionTable.next t q)) := by
  cases Symbol.ofChar? c with
  | none => rfl
  | some s => exact h.next?_eq hcount b q s

private theorem Match.follow?_eq (m : Match) (i : Input) : follow? t b m i = .ok (follow t m i) := by
  fun_induction follow t m i with
  | case1 m i hnext => rw [follow?_next, hnext]
  | case2 m i c rest hnext target htarget _ ih =>
    rw [follow?_cons hnext, elim_next? h hcount, htarget]
    exact ih
  | case3 m i c rest hnext hstop => rw [follow?_cons hnext, elim_next? h hcount, hstop]

theorem Scanner.scanOne?_eq {s : Scanner Table} (hs : s.table = t) : s.scanOne? b = .ok s.scanOne := by
  subst hs
  cases hended : s.ended with
  | some place =>
    rw [scanOne_of_ended hended, scanOne?, hended]
    rfl
  | none =>
    rcases hfollow : Match.follow s.table (.empty s.table) s.input with ⟨m, found, input⟩
    have hfollow? : Match.follow? s.table b (.empty s.table) s.input = .ok (m, found, input) := by
      rw [Match.follow?_eq h hcount, hfollow]
    unfold scanOne? scanOne
    cases haccepted : m.accepted with
    | some best => simp only [hended, hfollow?, hfollow, haccepted, bind, Except.bind, pure, Except.pure]
    | none =>
      simp only [hended, hfollow?, hfollow, haccepted, bind, Except.bind, pure, Except.pure, h.expected?_eq hcount]
      split <;> rfl

end TableLexer
