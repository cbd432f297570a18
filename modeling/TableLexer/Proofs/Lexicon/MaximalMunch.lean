import TableLexer.Proofs.Lexicon.Cells
import TableLexer.Proofs.Scanner.Course

/-! The scanners of a lexicon take the longest beginning that the described automaton matches. -/
namespace TableLexer

open Automaton

namespace Lexicon

variable {d : Description} {l : Lexicon}

/-- The scanners of a lexicon run over its tables, on what they have not consumed of the text. Wherever one
scans a token, this is the longest beginning of the unread text that the described automaton matches. -/
theorem scanner_munches (h : ofDescription d = .ok l) (hlimit : d.options.config.stateLimit ≤ 2 ^ 31) :
    ∃ n, d.build = .ok n ∧
      (∀ text, ∃ s, l.scanner text = .ok s ∧ ∀ requests,
        (s.after requests).table = l ∧ (s.after requests).input.unread <:+ text.toList) ∧
      ∀ s : Scanner Lexicon, s.table = l → s.ended = none → s.Munches n.matches? := by
  obtain ⟨n, a, ignored, hn, ha, hignored, rfl⟩ := ofDescription_eq_ok_iff.1 h
  have hd := determinized_tabled (Description.determinized hn ha)
  have himplements := ofAutomaton_implements d.options ignored hd.wellFormed
  refine ⟨n, hn, fun text => ?_, fun s hs hended => ?_⟩
  · have hmem := Description.mem_ignoredIds hignored
    rw [← hd.terminals, ← himplements.terminals] at hmem
    obtain ⟨s, hs, htable, htext⟩ : ∃ s, (ofAutomaton d.options a ignored).scanner text = .ok s ∧
        s.table = ofAutomaton d.options a ignored ∧ s.input.unread = text.toList :=
      ⟨_, Scanner.start_eq hmem text, rfl, rfl⟩
    refine ⟨s, hs, fun requests => ?_⟩
    have hcourse := Scanner.Continues.after s requests
    exact ⟨hcourse.table.trans htable, htext ▸ hcourse.suffix⟩
  · have hfits : ¬ (tabled d.options a).Outgrows s.input.unread :=
      fun h => Description.not_outgrows hlimit ⟨n, a, hn, ha, h⟩
    rw [← hs] at himplements
    rw [← hd.matches?_eq]
    exact Scanner.munches himplements hd.wellFormed hd.noEpsilon (hd.wellFormed.staysIn_fitting hfits) hended

theorem scanner_munches_words : ∃ l n, ofDescription words = .ok l ∧ words.build = .ok n ∧
    (∀ text, ∃ s, l.scanner text = .ok s ∧ ∀ requests,
      (s.after requests).table = l ∧ (s.after requests).input.unread <:+ text.toList) ∧
    ∀ s : Scanner Lexicon, s.table = l → s.ended = none → s.Munches n.matches? := by
  obtain ⟨l, hl⟩ := exists_words
  obtain ⟨n, hn⟩ := scanner_munches hl (by decide)
  exact ⟨l, n, hl, hn⟩

end Lexicon

end TableLexer
