import TableLexer.Proofs.Lexicon.Stages
import TableLexer.Proofs.Scanner.Twins

/-! No scanner can tell whether states have been merged and tables compressed. -/
namespace TableLexer

open Automaton

/-- Tables for one automaton agree on all that a scanner asks of them. -/
theorem Implements.simulates {τ τ' : Type} [TransitionTable τ] [TransitionTable τ'] {t : τ} {t' : τ'}
    {a : Automaton} {place place' : StateId → StateId} (ha : a.WellFormed) (h : Implements t a place (Set.Iio a.size))
    (h' : Implements t' a place' (Set.Iio a.size)) :
    Simulates t t' fun p p' => ∃ q < a.size, p = place q ∧ p' = place' q where
  initial := ⟨a.initial, ha.initial_lt, h.initial, h'.initial⟩
  next := by
    intro _ _ hplaces s
    obtain ⟨q, hq, rfl, rfl⟩ := hplaces
    rw [h.next q hq s, h'.next q hq s]
    cases hs : a.transition? q s with
    | none => exact .none
    | some target => exact .some ⟨target, ha.edge_lt (edge_some.2 hs), rfl, rfl⟩
  accepts := by
    intro _ _ hplaces
    obtain ⟨q, hq, rfl, rfl⟩ := hplaces
    rw [h.accepts q hq, h'.accepts q hq]
  expected := by
    intro _ _ hplaces
    obtain ⟨q, hq, rfl, rfl⟩ := hplaces
    rw [h.expected q hq, h'.expected q hq]
  terminals := h.terminals.trans h'.terminals.symm

/-- The description with other settings for its tables. -/
def Description.withTables (d : Description) (compress minimize : Bool) : Description :=
  { d with options := { d.options with compress, minimize } }

namespace Lexicon

private theorem tabled_mirrors {a : Automaton} (options : Options) (ha : a.WellFormed) :
    (tabled options a).WellFormed ∧ (tabled options a).size ≤ a.size ∧
      ∃ place, (tabled options a).Mirrors a place ∧ ∀ q < a.size, place q < (tabled options a).size := by
  unfold tabled
  split
  · exact ⟨merged_wellFormed ha, size_merged_le ha, a.blockOf, merged_mirrors ha, fun q _ => blockOf_lt ha q⟩
  · exact ⟨ha, Nat.le_refl _, id, .refl a, fun q hq => hq⟩

/-- Whatever the options are, the lexicon does in the place of each state what the automaton does. -/
theorem exists_implements {a : Automaton} (options : Options) (ignored : List TerminalId) (ha : a.WellFormed)
    (hsize : a.size ≤ 2 ^ 31) : ∃ place, Implements (ofAutomaton options a ignored) a place (Set.Iio a.size) := by
  obtain ⟨htabled, hle, place, hmirrors, hlt⟩ := tabled_mirrors options ha
  have himplements := ofAutomaton_implements options ignored htabled
  exact ⟨id ∘ place, (himplements.mono (fitting_of_size_le htabled (hle.trans hsize))).mirror hmirrors hlt⟩

/-- The scanners of the lexicons for one automaton are twins. -/
theorem exists_twins {a : Automaton} (ha : a.WellFormed) (hsize : a.size ≤ 2 ^ 31) (options options' : Options)
    {ignored : List TerminalId} (hignored : ∀ id ∈ ignored, id ≠ eof ∧ a.terminals.contains id = true)
    (text : String) : ∃ s s', (ofAutomaton options a ignored).scanner text = .ok s ∧
      (ofAutomaton options' a ignored).scanner text = .ok s' ∧ s.Twins s' := by
  obtain ⟨place, h⟩ := exists_implements options ignored ha hsize
  obtain ⟨place', h'⟩ := exists_implements options' ignored ha hsize
  refine ⟨_, _, Scanner.start_eq ?_ text, Scanner.start_eq ?_ text,
    ⟨_, h.simulates ha h'⟩, rfl, rfl, rfl, rfl, rfl⟩
  · rw [h.terminals]
    exact hignored
  · rw [h'.terminals]
    exact hignored

/-- Whether states are merged and tables compressed decides neither whether a description can be
compiled nor what its scanners answer. -/
theorem withTables_agree (d : Description) (compress minimize compress' minimize' : Bool) :
    (∃ e, ofDescription (d.withTables compress minimize) = .error e ∧
      ofDescription (d.withTables compress' minimize') = .error e) ∨
    ∃ l l', ofDescription (d.withTables compress minimize) = .ok l ∧
      ofDescription (d.withTables compress' minimize') = .ok l' ∧
      ((∀ n a, d.build = .ok n → n.determinize = .ok a → a.size < 2 ^ 31) →
        ∀ text, ∃ s s', l.scanner text = .ok s ∧ l'.scanner text = .ok s' ∧
          ∀ requests, s.answerAll requests = s'.answerAll requests) := by
  have hbuild (c m : Bool) : (d.withTables c m).build = d.build := rfl
  have hignored (c m : Bool) : (d.withTables c m).ignoredIds = d.ignoredIds := rfl
  cases hn : d.build with
  | error e =>
    exact .inl ⟨_, ofDescription_of_build_error ((hbuild _ _).trans hn),
      ofDescription_of_build_error ((hbuild _ _).trans hn)⟩
  | ok n =>
    cases ha : n.determinize with
    | error e =>
      exact .inl ⟨_, ofDescription_of_determinize_error ((hbuild _ _).trans hn) ha,
        ofDescription_of_determinize_error ((hbuild _ _).trans hn) ha⟩
    | ok a =>
      have hd := Description.determinized hn ha
      rw [ofDescription_of_determinize ((hbuild compress minimize).trans hn) ha,
        ofDescription_of_determinize ((hbuild compress' minimize').trans hn) ha, hignored, hignored]
      cases hids : d.ignoredIds n.terminals with
      | error e => exact .inl ⟨_, rfl, rfl⟩
      | ok ignored =>
        refine .inr ⟨_, _, rfl, rfl, fun hsize text => ?_⟩
        have hmem := Description.mem_ignoredIds hids
        rw [← hd.terminals] at hmem
        obtain ⟨s, s', hs, hs', htwins⟩ := exists_twins hd.wellFormed (hsize n a rfl ha).le
          (d.withTables compress minimize).options (d.withTables compress' minimize').options hmem text
        exact ⟨s, s', hs, hs', htwins.answerAll⟩

theorem withTables_agree_words : ∃ l l', ofDescription (words.withTables true false) = .ok l ∧
    ofDescription (words.withTables false true) = .ok l' ∧
      ∀ text, ∃ s s', l.scanner text = .ok s ∧ l'.scanner text = .ok s' ∧
        ∀ requests, s.answerAll requests = s'.answerAll requests := by
  rcases withTables_agree words true false false true with ⟨e, he, -⟩ | ⟨l, l', hl, hl', h⟩
  · obtain ⟨l, hl⟩ := exists_words
    exact absurd (hl.symm.trans he) (by simp)
  · refine ⟨l, l', hl, hl', h fun n a hn ha => ?_⟩
    have hle := (Description.determinized hn ha).size_le
    exact Nat.lt_of_le_of_lt hle (by decide)

end Lexicon

end TableLexer
