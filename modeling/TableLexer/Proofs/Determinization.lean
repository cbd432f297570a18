import TableLexer.Proofs.Automaton.StateLimit
import TableLexer.Proofs.Builder.Public

/-! Whatever automaton has been built, its deterministic automaton accepts the same texts. -/
namespace TableLexer

namespace Automaton

/-- The deterministic automaton gives every text to the same terminal, and has a run on exactly the
words that some path spells. -/
theorem determinize_agrees {n d : Automaton} (hn : n.Constructed) (h : n.determinize = .ok d) :
    (∀ text, d.matches? text = n.matches? text) ∧
      (∀ w, (d.run? d.initial w).isSome ↔ ∃ q, Path n.Edge n.initial w q) ∧
      d.NoEpsilon ∧ d.initial = 0 ∧ d.terminals = n.terminals := by
  obtain ⟨config, hgrows⟩ := hn.grows
  have hwf := hgrows.wellFormed
  rw [determinize, hgrows.deterministic, if_neg Bool.false_ne_true] at h
  obtain ⟨subsets, hd⟩ := subsetConstruction_represents hwf h
  refine ⟨fun text => ?_, hd.isSome_run?_iff hwf, hd.noEpsilon, hd.initial_eq, hd.terminals_eq⟩
  rw [matches?, matches?]
  exact congrArg _ (funext fun w => hd.accepts_eq hwf w)

/-- One or more letters `a`. -/
def letters : Automaton :=
  (Builder.apply (Builder.addTerminal "LETTERS" (Builder.literal (.ofChar 'a') >>= Builder.plus)) {}).2

theorem constructed_letters : letters.Constructed :=
  ⟨{}, _, _, .addTerminal _ (.bind (.literal _) fun _ => .plus _), rfl⟩

theorem determinize_agrees_letters : letters.Constructed ∧ ∃ d, letters.determinize = .ok d ∧
    ((∀ text, d.matches? text = letters.matches? text) ∧
      (∀ w, (d.run? d.initial w).isSome ↔ ∃ q, Path letters.Edge letters.initial w q) ∧
      d.NoEpsilon ∧ d.initial = 0 ∧ d.terminals = letters.terminals) := by
  have hletters : letters.Constructed :=
    ⟨{}, _, _, .addTerminal _ (.bind (.literal _) fun _ => .plus _), rfl⟩
  obtain ⟨config, hgrows⟩ := hletters.grows
  obtain ⟨d, h⟩ : ∃ d, letters.determinize = .ok d :=
    exists_determinize_of_size hgrows.wellFormed (by decide +kernel) (by decide +kernel)
  exact ⟨hletters, d, h, determinize_agrees hletters h⟩

end Automaton

end TableLexer
