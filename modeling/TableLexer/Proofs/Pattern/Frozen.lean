import TableLexer.Proofs.Automaton.Obtained
import TableLexer.Proofs.Description.Build
import TableLexer.Proofs.Determinization

/-! Nothing can be built in a deterministic automaton: every pattern is refused, some by way of their parts. -/
namespace TableLexer

namespace Automaton

variable {a d : Automaton}

/-- What the subset construction makes is frozen. -/
private theorem deterministic_of_subsetConstruction (hd : a.subsetConstruction = .ok d) : d.deterministic = true := by
  obtain ⟨_, -, hd⟩ := except_bind_eq_ok_iff.1 hd
  obtain ⟨_, -, hd⟩ := except_bind_eq_ok_iff.1 hd
  exact Except.ok.inj hd ▸ rfl

private theorem deterministic_of_determinize (hd : a.determinize = .ok d) : d.deterministic = true := by
  unfold determinize at hd
  split at hd
  · next hdet => exact Except.ok.inj hd ▸ hdet
  · exact deterministic_of_subsetConstruction hd

theorem deterministic_of_minimize (hd : a.minimize = .ok d) : d.deterministic = true := by
  obtain ⟨_, -, rfl⟩ := minimize_eq_ok_iff.1 hd
  rfl

end Automaton

namespace Pattern

open Builder

variable {a : Automaton}

/-- Whatever the pattern, some part of it that is built first cannot be built, if it has any parts at all. -/
theorem build_refuses (ha : a.deterministic = true) : (p : Pattern) → Refuses p.build a
  | literal text => string_refuses ha text
  | sequence [] => epsilon_refuses ha
  | sequence (p :: _) => ((build_refuses ha p).bind _).bind _
  | alternation [] => ⟨.emptyAlternation, rfl⟩
  | alternation (p :: _) => ((build_refuses ha p).bind _).bind _
  | oneOf _ => (fragment_refuses ha).bind _
  | noneOf _ => (fragment_refuses ha).bind _
  | star p => (build_refuses ha p).bind _
  | plus p => (build_refuses ha p).bind _
  | optional p => (build_refuses ha p).bind _
  | defined name => instantiate_refuses ha name
  | repeated p _ _ => (build_refuses ha p).bind _

end Pattern

namespace Automaton

open Builder

variable {a d : Automaton}

/-- What determinizing or minimizing gives is frozen. Whatever is done with it, it stays as it is, nothing more is
declared in it, and no pattern is built. -/
theorem frozen_for_good (hd : a.determinize = .ok d ∨ a.minimize = .ok d) :
    (∀ {α : Type} (p : Builder α), p.Public → (p.apply d).2 = d) ∧
      (∀ name build, (addTerminal name build).apply d = (.error .frozen, d)) ∧
      (∀ name build, (addDefinition name build).apply d = (.error .frozen, d)) ∧
      ∀ pattern : Pattern, pattern.build.Public ∧ ∃ e, pattern.build.apply d = (.error e, d) := by
  have hfrozen : d.deterministic = true := hd.elim deterministic_of_determinize deterministic_of_minimize
  refine ⟨fun p hp => hp.keeps hfrozen, fun name build => ?_, fun name build => ?_,
    fun pattern => ⟨pattern.build_public, pattern.build_refuses hfrozen⟩⟩
  · rw [addTerminal, apply_bind, apply_ensureMutable hfrozen]
  · rw [addDefinition, apply_bind, apply_ensureMutable hfrozen]

/-- A declaration that is tried again under another name after it has failed is refused again. -/
theorem frozen_for_good_letters : ∃ d m, letters.determinize = .ok d ∧ letters.minimize = .ok m ∧
    ((do
      let f ← tryCatch (star ⟨0, 1⟩) fun _ => pure ⟨0, 1⟩
      tryCatch (addTerminal "A" (append f f)) fun _ => addTerminal "B" (pure f) : Builder TerminalId).apply d).2 = d ∧
    (addDefinition "LETTER" (pure ⟨0, 1⟩)).apply m = (.error .frozen, m) ∧
    ∃ e, (Pattern.sequence [.optional (.defined "LETTER"), .alternation []]).build.apply m = (.error e, m) := by
  obtain ⟨config, hgrows⟩ := constructed_letters.grows
  obtain ⟨d, hd⟩ : ∃ d, letters.determinize = .ok d :=
    exists_determinize_of_size hgrows.wellFormed (by decide +kernel) (by decide +kernel)
  have hm : letters.minimize = .ok d.merged := minimize_eq_ok_iff.2 ⟨d, hd, rfl⟩
  obtain ⟨hkeeps, -⟩ := frozen_for_good (.inl hd)
  obtain ⟨-, -, hdefinition, hpattern⟩ := frozen_for_good (.inr hm)
  refine ⟨d, d.merged, hd, hm, hkeeps _ ?_, hdefinition _ _, (hpattern _).2⟩
  exact .bind (.tryCatch (.star _) fun _ => .pure _) fun f =>
    .tryCatch (.addTerminal _ (.append f f)) fun _ => .addTerminal _ (.pure f)

end Automaton

end TableLexer
