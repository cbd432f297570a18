import TableLexer.Proofs.Builder.Follows
import TableLexer.Proofs.Description.Build

/-! Wherever a pattern is built, its fragment reads the same words: they depend on the pattern and on
the definitions it is built from, and not on the terminals that have been declared before. -/
namespace TableLexer

open Automaton Builder

namespace Automaton

variable {base ambient a b : Automaton} {f g : Fragment}

/-- What is built alongside has been built out of new states. -/
theorem Paired.placed (hpair : Paired base ambient a f g) (h : Alongside base ambient a b) :
    Placed ambient b g where
  frame := h.frame
  entry_le := by
    rw [hpair.eq]
    exact Alongside.le_add_gap hpair.entry.1
  exit_le := by
    rw [hpair.eq]
    exact Alongside.le_add_gap hpair.exit.1

end Automaton

namespace Pattern

variable {base ambient a b : Automaton} {p : Pattern} {w : List Symbol}

mutual

theorem build_follows : (p : Pattern) → {a b : Automaton} → Alongside base ambient a b →
    Follows base ambient p.build p.build a b fun f g a' _ => Paired base ambient a' f g
  | literal text, _, _, h => .string h text
  | sequence parts, _, _, h => (buildAll_follows parts h).bind fun _ _ _ _ _ h hparts => .sequence h hparts
  | alternation parts, _, _, h => (buildAll_follows parts h).bind fun _ _ _ _ _ h hparts => .alternate h hparts
  | oneOf _, _, _, h => .symbols h _
  | noneOf _, _, _, h => .symbols h _
  | star p, _, _, h => (build_follows p h).bind fun _ _ _ _ _ h hf => .star h hf
  | plus p, _, _, h => (build_follows p h).bind fun _ _ _ _ _ h hf => .plus h hf
  | optional p, _, _, h => (build_follows p h).bind fun _ _ _ _ _ h hf => .optional h hf
  | defined name, _, _, h => .instantiate h name
  | repeated p min max, _, _, h => (build_follows p h).bind fun _ _ _ _ _ h hf => .repeated h hf min max

theorem buildAll_follows : (parts : List Pattern) → {a b : Automaton} → Alongside base ambient a b →
    Follows base ambient (buildAll parts) (buildAll parts) a b
      fun fs gs a' _ => List.Forall₂ (Paired base ambient a') fs gs
  | [], _, _, h => .pure h .nil
  | p :: rest, _, _, h => (build_follows p h).bind fun _ _ _ _ _ h hf =>
    (buildAll_follows rest h).bind fun _ _ _ _ hgrows h hrest => .pure h (.cons (hf.grows hgrows) hrest)

end

/-- The fragment that is built for the pattern after the prelude spells the word. -/
def Reads (base : Automaton) (p : Pattern) (w : List Symbol) : Prop :=
  ∃ f a, p.build.apply base = (.ok f, a) ∧ Path a.Edge f.entry w f.exit

/-- The fragment that is built for the pattern after the prelude has a path that begins with the word. -/
def Begins (base : Automaton) (p : Pattern) (w : List Symbol) : Prop :=
  ∃ f a, p.build.apply base = (.ok f, a) ∧ ∃ q, Path a.Edge f.entry w q

section built

variable {f : Fragment} (hbuild : p.build.apply base = (.ok f, a))
include hbuild

theorem reads_iff : p.Reads base w ↔ Path a.Edge f.entry w f.exit := by
  constructor
  · intro hreads
    obtain ⟨f', a', hbuild', hpath⟩ := hreads
    obtain ⟨rfl, rfl⟩ := apply_unique hbuild hbuild'
    exact hpath
  · exact fun hpath => ⟨f, a, hbuild, hpath⟩

theorem begins_iff : p.Begins base w ↔ ∃ q, Path a.Edge f.entry w q := by
  constructor
  · intro hbegins
    obtain ⟨f', a', hbuild', hpath⟩ := hbegins
    obtain ⟨rfl, rfl⟩ := apply_unique hbuild hbuild'
    exact hpath
  · exact fun hpath => ⟨f, a, hbuild, hpath⟩

end built

/-- Wherever a pattern is built, it takes new states, and these read the same words. -/
theorem build_placed {g : Fragment} (h : base.Extends ambient) (hbuild : p.build.apply ambient = (.ok g, b)) :
    ambient.Since b ∧ Placed ambient b g ∧ (∀ w, Path b.Edge g.entry w g.exit ↔ p.Reads base w) ∧
      ∀ w, (∃ q, Path b.Edge g.entry w q) ↔ p.Begins base w := by
  obtain ⟨f, a, hbase, -, halong, hpair⟩ := build_follows p (.refl h) g b hbuild
  have hentry : g.entry = f.entry + gap base ambient := congrArg Fragment.entry hpair.eq
  have hexit : g.exit = f.exit + gap base ambient := congrArg Fragment.exit hpair.eq
  refine ⟨halong.since', hpair.placed halong, fun w => ?_, fun w => ?_⟩
  · rw [hentry, hexit, reads_iff hbase, halong.embeds.path_rename_iff halong.wellFormed hpair.entry.1]
  · simp only [hentry, begins_iff hbase, halong.embeds.path_iff halong.wellFormed hpair.entry.1]
    constructor
    · intro hpath
      obtain ⟨_, q, hpath, -⟩ := hpath
      exact ⟨q, hpath⟩
    · intro hpath
      obtain ⟨q, hpath⟩ := hpath
      exact ⟨_, q, hpath, rfl⟩

end Pattern

end TableLexer
