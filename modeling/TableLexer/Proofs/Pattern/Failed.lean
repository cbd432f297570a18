import TableLexer.Proofs.Automaton.Obtained
import TableLexer.Proofs.Builder.Aside
import TableLexer.Proofs.Description.Build
import TableLexer.Proofs.Numbering

/-! A declaration that fails leaves nothing behind that could be noticed. It may have been given up in the middle of a
pattern, but the states that were made until then are out of reach. -/
namespace TableLexer

namespace Builder

open Automaton

variable {a b : Automaton} {e : ConstructionError} {name : String} {build : Builder Fragment}

private theorem newState_error (h : newState.apply a = (.error e, b)) : b = a := by
  rcases apply_bind_eq_error_iff.1 h with h | ⟨x, c, hget, h⟩
  · simp at h
  obtain ⟨-, rfl⟩ : a = x ∧ a = c := by simpa using hget
  split at h <;> simp at h
  exact h.2.symm

/-- A declaration that fails has done nothing yet but building, if that. -/
theorem addTerminal_error (hkeep : ∀ f b, build.apply a = (.ok f, b) → b.deterministic = a.deterministic)
    (h : (addTerminal name build).apply a = (.error e, b)) : b = a ∨ b = (build.apply a).2 := by
  have hfails (id : TerminalId) : ¬ ∃ c, (addTerminal name build).apply a = (.ok id, c) := by
    rintro ⟨c, hc⟩
    simp [h] at hc
  rcases apply_bind_eq_error_iff.1 h with h | ⟨_, _, hfirst, h⟩
  · exact .inl (Keeps.ensureMutable.eq h)
  obtain ⟨hmutable, rfl⟩ := ensureMutable_eq_ok_iff.1 hfirst
  split at h
  · exact .inl (Prod.mk.inj h).2.symm
  next hname =>
  rcases apply_bind_eq_error_iff.1 h with h | ⟨f, c, hbuild, h⟩
  · exact .inr (by rw [h])
  rw [hbuild]
  rcases apply_bind_eq_error_iff.1 h with h | ⟨_, _, hcheck, h⟩
  · exact .inr ((Keeps.check f).eq h)
  obtain ⟨howns, rfl⟩ := check_eq_ok_iff.1 hcheck
  rcases apply_bind_eq_error_iff.1 h with h | ⟨_, _, hnew, -⟩
  · exact .inr (newState_error h)
  · obtain ⟨hlimit, -, -⟩ := newState_eq_ok_iff.1 hnew
    exact absurd ((exists_addTerminal_iff hkeep).2 ⟨hmutable, hname, f, c, hbuild, howns, hlimit, rfl⟩) (hfails _)

private theorem addDefinition_error (h : (addDefinition name build).apply a = (.error e, b)) :
    b = a ∨ b = (build.apply a).2 := by
  rcases apply_bind_eq_error_iff.1 h with h | ⟨_, _, hfirst, h⟩
  · exact .inl (Keeps.ensureMutable.eq h)
  obtain ⟨-, rfl⟩ := ensureMutable_eq_ok_iff.1 hfirst
  rcases apply_bind_eq_error_iff.1 h with h | ⟨f, c, hbuild, h⟩
  · exact .inr (by rw [h])
  rw [hbuild]
  rcases apply_bind_eq_error_iff.1 h with h | ⟨_, _, -, h⟩
  · exact .inr ((Keeps.check f).eq h)
  · simp at h

end Builder

namespace Automaton

variable {a b : Automaton}

/-- What is left over from a step aside is out of reach from what there was before. -/
theorem Spares.renumbers (h : Spares a.size a b) (ha : a.WellFormed) : Renumbers id a b :=
  (h.embeds ha).renumbers ha ha.initial_lt h.initial

/-- What is out of reach makes no difference to running the automaton or to determinizing it. -/
theorem Spares.unnoticed (h : Spares a.size a b) (ha : a.WellFormed) (hb : b.WellFormed) :
    (∀ text, b.matches? text = a.matches? text) ∧
      (a.deterministic = false → b.determinize = a.determinize) := by
  have hrenumbers := h.renumbers ha
  refine ⟨fun text => ?_, fun hmutable => ?_⟩
  · rw [matches?, matches?]
    exact congrArg _ (funext (hrenumbers.accepts_eq ha hb))
  · have hmutable' : b.deterministic = false := h.deterministic.trans hmutable
    rw [determinize_eq_subsetConstruction hmutable, determinize_eq_subsetConstruction hmutable']
    exact hrenumbers.subsetConstruction_eq ha hb h.config h.terminals

end Automaton

namespace Pattern

open Builder Automaton

variable {a b : Automaton} {e : ConstructionError} {name : String}

private theorem spares_of_failed (ha : a.WellFormed) (pattern : Pattern)
    (h : (addTerminal name pattern.build).apply a = (.error e, b) ∨
      (addDefinition name pattern.build).apply a = (.error e, b)) : Spares a.size a b := by
  have hbuild := pattern.build_aside.spares a (Nat.le_refl _)
  have hcases : b = a ∨ b = (pattern.build.apply a).2 := by
    rcases h with h | h
    · exact addTerminal_error (fun f c hc => (pattern.build_public.grows ha hc).deterministic) h
    · exact addDefinition_error h
  rcases hcases with rfl | rfl
  · exact .refl _ _
  · exact hbuild

/-- A declaration that fails changes nothing that could be noticed. The terminals, the definitions and the states
there were stay as they are, all texts belong to the same terminals, and determinizing comes to the same. -/
theorem failed_declaration_unnoticed (ha : a.Obtained) (hmutable : a.deterministic = false) (pattern : Pattern)
    (h : (addTerminal name pattern.build).apply a = (.error e, b) ∨
      (addDefinition name pattern.build).apply a = (.error e, b)) :
    b.terminals = a.terminals ∧ b.definitions = a.definitions ∧ a.size ≤ b.size ∧
      (∀ p < a.size, b.state? p = a.state? p) ∧ (∀ text, b.matches? text = a.matches? text) ∧
      b.determinize = a.determinize := by
  have hwf := ha.kept.1
  have hspares := spares_of_failed hwf pattern h
  have hb : b.WellFormed := by
    rcases h with h | h
    · exact ((Public.addTerminal name pattern.build_public).grows hwf h).wellFormed
    · exact ((Public.addDefinition name pattern.build_public).grows hwf h).wellFormed
  obtain ⟨hmatches, hdeterminize⟩ := hspares.unnoticed hwf hb
  exact ⟨hspares.terminals, hspares.definitions, hspares.size_le, hspares.state, hmatches, hdeterminize hmutable⟩

/-- One terminal, in an automaton that has room for two more states. -/
def almostFull : Automaton :=
  (Builder.apply (addTerminal "A" (literal "a").build) { config := { stateLimit := 6 } }).2

/-- There is no room for the state that is to accept a second terminal, or for a star around its letter, when the
states for the letter have been made. -/
theorem failed_declaration_unnoticed_almostFull : almostFull.Obtained ∧ almostFull.deterministic = false ∧
    (∃ b, (addTerminal "B" (literal "b").build).apply almostFull = (.error (.stateLimit 6), b) ∧ b.size = 6 ∧
      b.terminals = almostFull.terminals ∧ (∀ text, b.matches? text = almostFull.matches? text) ∧
      b.determinize = almostFull.determinize) ∧
    ∃ b, (addDefinition "B" (star (literal "b")).build).apply almostFull = (.error (.stateLimit 6), b) ∧ b.size = 6 ∧
      b.definitions = almostFull.definitions ∧ (∀ text, b.matches? text = almostFull.matches? text) ∧
      b.determinize = almostFull.determinize := by
  have hobtained : almostFull.Obtained := .step (.start _) (.addTerminal _ (build_public _))
  have hterminal : (addTerminal "B" (literal "b").build).apply almostFull =
      (.error (.stateLimit 6), ((addTerminal "B" (literal "b").build).apply almostFull).2) :=
    Prod.ext (by decide +kernel) rfl
  have hdefinition : (addDefinition "B" (star (literal "b")).build).apply almostFull =
      (.error (.stateLimit 6), ((addDefinition "B" (star (literal "b")).build).apply almostFull).2) :=
    Prod.ext (by decide +kernel) rfl
  obtain ⟨hterminals, -, -, -, hmatches, hdeterminize⟩ :=
    failed_declaration_unnoticed hobtained (by decide +kernel) _ (.inl hterminal)
  obtain ⟨-, hdefinitions, -, -, hmatches', hdeterminize'⟩ :=
    failed_declaration_unnoticed hobtained (by decide +kernel) _ (.inr hdefinition)
  exact ⟨hobtained, by decide +kernel, ⟨_, hterminal, by decide +kernel, hterminals, hmatches, hdeterminize⟩,
    _, hdefinition, by decide +kernel, hdefinitions, hmatches', hdeterminize'⟩

end Pattern

end TableLexer
