import TableLexer.Description.Basic
import TableLexer.Proofs.Builder.Public
import TableLexer.Proofs.Journal

/-! Building a description is a run of public steps: its definitions in order, then its terminals. -/
namespace TableLexer

namespace Pattern

open Builder (Public)

mutual

theorem build_public : (p : Pattern) → p.build.Public
  | literal text => .string text
  | sequence parts => .bind (buildAll_public parts) .sequence
  | alternation parts => .bind (buildAll_public parts) .alternate
  | oneOf ranges => .oneOf ranges
  | noneOf ranges => .noneOf ranges
  | star p => .bind (build_public p) .star
  | plus p => .bind (build_public p) .plus
  | optional p => .bind (build_public p) .optional
  | defined name => .instantiate name
  | repeated p min max => .bind (build_public p) fun f => .repeated f min max

theorem buildAll_public : (parts : List Pattern) → Public (buildAll parts)
  | [] => .pure []
  | p :: rest => .bind (build_public p) fun f => .bind (buildAll_public rest) fun fs => .pure (f :: fs)

end

end Pattern

namespace Description

open Automaton

variable {d : Description} {a b : Automaton} {named : String × Pattern}

/-- Declares a terminal in an automaton. -/
def declareTerminal (a : Automaton) (named : String × Pattern) : Except ConstructionError Automaton :=
  match (Builder.addTerminal named.1 named.2.build).apply a with
  | (.ok _, a) => .ok a
  | (.error e, _) => .error e

theorem declareTerminal_yields (a : Automaton) (named : String × Pattern) :
    (CharClass.declare named.1 named.2.build a).Yields (declareTerminal a named) := by
  unfold CharClass.declare declareTerminal
  rcases (Builder.addTerminal named.1 named.2.build).apply a with ⟨_ | id, b⟩
  · exact Journaled.yields_throw _
  · exact (Journaled.yields_note _).bind fun _ => Journaled.yields_pure b

theorem declare_yields (d : Description) :
    d.declare.Yields (d.definitions.foldlM define { config := d.options.config } >>= fun a =>
      d.terminals.foldlM declareTerminal a) :=
  (Journaled.yields_ofExcept_id _).bind fun a => .foldlM declareTerminal_yields a

/-- A description is built by defining its names and then declaring its terminals. -/
theorem build_eq_ok_iff : d.build = .ok b ↔ ∃ a,
    d.definitions.foldlM define { config := d.options.config } = .ok a ∧
      d.terminals.foldlM declareTerminal a = .ok b := by
  rw [build, d.declare_yields.result_eq, except_bind_eq_ok_iff]

theorem define_eq_ok_iff : define a named = .ok b ↔
    (Builder.addDefinition named.1 named.2.build).apply a = (.ok (), b) := by
  unfold define CharClass.define
  split <;> simp_all

theorem declareTerminal_eq_ok_iff : declareTerminal a named = .ok b ↔
    ∃ id, (Builder.addTerminal named.1 named.2.build).apply a = (.ok id, b) := by
  unfold declareTerminal
  split <;> simp_all

/-- The automaton of a description is well formed and can still be extended. -/
theorem grows_of_build (h : d.build = .ok a) :
    ({ config := d.options.config } : Automaton).Grows a := by
  obtain ⟨b, hdefinitions, hterminals⟩ := build_eq_ok_iff.1 h
  have hb : ({ config := d.options.config } : Automaton).Grows b := by
    refine foldlM_ok (fun _ a => Grows _ a) hdefinitions (.refl (wellFormed_start _)) ?_
    intro _ named _ a b _ ha hab
    exact ha.trans ((Builder.Public.addDefinition named.1 named.2.build_public).grows ha.wellFormed
      (define_eq_ok_iff.1 hab))
  refine foldlM_ok (fun _ a => Grows _ a) hterminals hb ?_
  intro _ named _ a b _ ha hab
  obtain ⟨id, hid⟩ := declareTerminal_eq_ok_iff.1 hab
  exact ha.trans ((Builder.Public.addTerminal named.1 named.2.build_public).grows ha.wellFormed hid)

end Description

end TableLexer
