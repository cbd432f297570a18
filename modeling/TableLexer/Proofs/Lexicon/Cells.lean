import TableLexer.Proofs.Lexicon.Stages
import TableLexer.Proofs.Scanner.Longest

/-! Texts on which a lexicon needs states whose numbers are too large for the cells of a table, which have 32 bits. -/
namespace TableLexer

open Automaton

namespace Automaton

variable {a : Automaton} {text rest : List Char}

/-- Behind some beginning of a text the automaton has a transition to a state that no cell can hold. -/
def Outgrows (a : Automaton) (text : List Char) : Prop :=
  ∃ v q s target, v <+: text ∧ a.stateAfter? v = some q ∧ a.transition? q s = some target ∧ 2 ^ 31 ≤ target

theorem WellFormed.staysIn_fitting (ha : a.WellFormed) (h : ¬ a.Outgrows text) : a.StaysIn a.fitting text :=
  fun v q hv hq => ⟨stateAfter?_lt ha hq, fun s target hs =>
    Nat.lt_of_not_le fun hle => h ⟨v, q, s, target, hv, hq, hs, hle⟩⟩

private theorem WellFormed.size_gt_of_outgrows (ha : a.WellFormed) (h : a.Outgrows text) : 2 ^ 31 < a.size := by
  obtain ⟨v, q, s, target, -, -, hs, hle⟩ := h
  exact hle.trans_lt (ha.edge_lt (edge_some.2 hs))

end Automaton

namespace Description

variable {d : Description} {n a : Automaton} {text : List Char}

/-- The automaton whose table the lexicon of a description gets outgrows the cells on a text. -/
def Outgrows (d : Description) (text : List Char) : Prop :=
  ∃ n a, d.build = .ok n ∧ n.determinize = .ok a ∧ (Lexicon.tabled d.options a).Outgrows text

/-- Within a state limit of 2 ^ 31 every number of a state fits into a cell. -/
theorem not_outgrows (hlimit : d.options.config.stateLimit ≤ 2 ^ 31) : ¬ d.Outgrows text := by
  rintro ⟨n, a, hn, ha, h⟩
  have hd := Lexicon.determinized_tabled (determinized hn ha)
  have hgt := hd.wellFormed.size_gt_of_outgrows h
  have hle := hd.size_le.trans (max_le (by decide) hlimit)
  omega

end Description

end TableLexer
