import TableLexer.Proofs.Builder.Landings
import TableLexer.Proofs.Description.Build

/-! Names are defined and terminals declared where the automaton has room for what their patterns cost. -/
namespace TableLexer

namespace Description

open Automaton Builder

variable {a : Automaton} {n k : Nat} (named : String × Pattern)

theorem exists_define (ha : a.WellFormed) (hmutable : a.deterministic = false)
    (hroom : a.size + n ≤ a.config.stateLimit) (h : Makes named.2.build a n k) :
    ∃ f b, define a named = .ok (b.defining named.1 f) ∧ b.owns f ∧ Made a b n k := by
  have hleads := h.leads hmutable hroom
  have haffords : Affords (addDefinition named.1 named.2.build) a n :=
    .addDefinition ha h.affords hleads fun _ _ hf => hf.1
  obtain ⟨_, c, happly, -⟩ := haffords hmutable hroom
  obtain ⟨f, b, -, hmade, -, rfl⟩ := (Leads.addDefinition ha hleads).good _ _ happly
  exact ⟨f, b, define_eq_ok_iff.2 happly, hmade⟩

/-- A terminal costs one state more than its pattern. -/
theorem exists_declareTerminal (ha : a.WellFormed) (hmutable : a.deterministic = false)
    (hroom : a.size + (n + 1) ≤ a.config.stateLimit) (hname : named.1 ≠ eofName)
    (h : Makes named.2.build a n k) : ∃ c, declareTerminal a named = .ok c ∧ a.Grows c ∧
      c.size ≤ a.size + (n + 1) ∧ c.landings.card ≤ a.landings.card + k := by
  have hleads := h.leads hmutable (by omega)
  have haffords : Affords (addTerminal named.1 named.2.build) a (n + 1) :=
    .addTerminal ha hname h.affords hleads fun _ _ hf => hf.1
  obtain ⟨id, c, happly, hsize, -⟩ := haffords hmutable hroom
  have hdeclares : Leads (addTerminal named.1 named.2.build) a _ := .addTerminal ha hleads
  have hgrows := hdeclares.grows_of_eq happly
  obtain ⟨f, b, hb, ⟨-, hmade⟩, hdeclared⟩ := hdeclares.good _ _ happly
  refine ⟨c, declareTerminal_eq_ok_iff.2 ⟨id, happly⟩, hgrows, hsize, ?_⟩
  refine (card_landings_le hb.wellFormed hgrows.wellFormed ∅ (k := 0) (fun p s q edge => ?_) (by simp)).trans
    hmade.landings_le
  rw [hdeclared.edge] at edge
  rcases edge with (edge | hbridge) | hbridge
  · exact .inl edge
  · exact absurd hbridge.2.2.1 (by simp)
  · exact absurd hbridge.2.2.1 (by simp)

end Description

end TableLexer
