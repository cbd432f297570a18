import TableLexer.Proofs.Builder.Copy

/-! Repetitions are copies made one after the other. Whatever holds at first and is kept by each copy
holds in the end. -/
namespace TableLexer

namespace Builder

open Automaton

namespace Leads

variable {a : Automaton} {f : Fragment}

theorem copies {made : List Fragment} (inv : Nat → List Fragment → Automaton → Prop)
    (ha : a.WellFormed)
    (hstep : ∀ k made b g c, a.Grows b → b.Grows c → inv k made b → Copied b c f g →
      inv (k + 1) (g :: made) c) (k n : Nat) (hinv : inv k made a) :
    Leads (copies f n made) a (inv (k + n)) := by
  induction n generalizing a made k with
  | zero => exact pure ha hinv
  | succ n ih =>
    refine (copy ha f).bind fun g b hb hg => ?_
    rw [show k + (n + 1) = k + 1 + n by omega]
    exact ih hb.wellFormed (fun k made c g d hc => hstep k made c g d (hb.trans hc)) (k + 1)
      (hstep k made a g b (.refl ha) hb hinv hg)

theorem optionalCopies {exit last : StateId} (inv : Nat → StateId → Automaton → Prop)
    (ha : a.WellFormed) (hexit : exit < a.size) (hlt : ∀ k last b, inv k last b → last < b.size)
    (hstep : ∀ k last b part c d e, a.Grows b → b.Grows c → c.Grows e → inv k last b → Copied b c f part →
      c.Adds d (bridge last exit) → d.Adds e (bridge last part.entry) → inv (k + 1) part.exit e)
    (k n : Nat) (hinv : inv k last a) :
    Leads (optionalCopies f exit n last) a (inv (k + n)) := by
  induction n generalizing a last k with
  | zero => exact pure ha hinv
  | succ n ih =>
    refine (copy ha f).bind fun part b hb hpart => ?_
    have hlast := Nat.lt_of_lt_of_le (hlt k last a hinv) hb.size_le
    refine (addEpsilon hb.wellFormed hlast (Nat.lt_of_lt_of_le hexit hb.size_le)).bind
      fun _ c hc hout => ?_
    have hentry := (owns_iff.1 (hc.owns hpart.owns_copy)).1
    refine (addEpsilon hc.wellFormed (Nat.lt_of_lt_of_le hlast hc.size_le) hentry).bind
      fun _ d hd hin => ?_
    have hgrows := (hb.trans hc).trans hd
    rw [show k + (n + 1) = k + 1 + n by omega]
    exact ih hd.wellFormed (Nat.lt_of_lt_of_le hexit hgrows.size_le)
      (fun k last b part c d e hb => hstep k last b part c d e (hgrows.trans hb)) (k + 1)
      (hstep k last a part b c d (.refl ha) hb (hc.trans hd) hinv hpart hout hin)

theorem upTo (inv : Fragment → Nat → StateId → Automaton → Prop) (ha : a.WellFormed) (n : Nat)
    (hlt : ∀ g k last b, inv g k last b → last < b.size)
    (hstep : ∀ g k last b part c d e, a.Grows b → b.Grows c → c.Grows e → inv g k last b →
      Copied b c f part → c.Adds d (bridge last g.exit) → d.Adds e (bridge last part.entry) →
        inv g (k + 1) part.exit e)
    (hinv : ∀ b, a.Grows b → b.owns ⟨a.size, a.size + 1⟩ → a.Adds b ⊥ →
      inv ⟨a.size, a.size + 1⟩ 0 a.size b) :
    Leads (upTo f n) a fun g d => g = ⟨a.size, a.size + 1⟩ ∧ d.owns g ∧
      ∃ last c, a.Grows c ∧ c.Grows d ∧ inv g n last c ∧ c.Adds d (bridge last g.exit) := by
  refine (fragment ha).bind fun g b hb => ?_
  intro hadded
  obtain ⟨rfl, howns, hadds⟩ := hadded
  have hexit := (owns_iff.1 howns).2
  refine (optionalCopies (inv _) hb.wellFormed hexit (hlt _) (fun k last c part d e g hc =>
    hstep _ k last c part d e g (hb.trans hc)) 0 n (hinv b hb howns hadds)).bind fun last c hc hinv' => ?_
  rw [Nat.zero_add] at hinv'
  refine (addEpsilon hc.wellFormed (hlt _ _ _ _ hinv') (Nat.lt_of_lt_of_le hexit hc.size_le)).bind
    fun _ d hd hout => ?_
  exact pure hd.wellFormed
    ⟨rfl, hd.owns (hc.owns howns), last, c, hb.trans hc, hd, hinv', hout⟩

theorem upTo_owns (ha : a.WellFormed) (f : Fragment) (n : Nat) : Leads (Builder.upTo f n) a fun g b => b.owns g := by
  refine (upTo (fun _ _ last b => last < b.size) ha n (fun _ _ _ _ => id) ?_
    fun b _ howns _ => (owns_iff.1 howns).1).mono fun g b _ hg => hg.2.1
  intro _ _ _ _ part _ _ e _ _ he _ hpart _ _
  exact (owns_iff.1 (he.owns hpart.owns_copy)).2

/-- A repetition makes the required copies first. -/
theorem repeated (inv : Nat → List Fragment → Automaton → Prop)
    {good : Fragment → Automaton → Prop} {min : Nat} {max : Option Nat} (ha : a.WellFormed)
    (hstep : ∀ k made b g c, a.Grows b → b.Grows c → inv k made b → Copied b c f g →
      inv (k + 1) (g :: made) c)
    (hinv : inv 0 [] a)
    (hrest : ∀ made b, a.Grows b → (∀ n, max = some n → min ≤ n) → inv min made b →
      Leads (withMore f min max made) b good) :
    Leads (repeated f min max) a good := by
  refine (check ha f).bind fun _ b _ => ?_
  intro hresult
  obtain ⟨rfl, -⟩ := hresult
  have hcopies (hle : ∀ n, max = some n → min ≤ n) :
      Leads (do
        let limit := (← MonadState.get).config.stateLimit
        if min ≥ limit then MonadExcept.throw (ConstructionError.stateLimit limit)
        withMore f min max (← Builder.copies f min [])) b good := by
    refine (get ha).bind fun _ c _ => ?_
    intro hresult
    obtain ⟨rfl, rfl⟩ := hresult
    dsimp only
    split
    · exact throw_bind ha
    · refine (copies inv ha hstep 0 min hinv).bind fun made d hd hmade => ?_
      exact hrest made d hd hle (Nat.zero_add min ▸ hmade)
  cases max with
  | none => exact hcopies fun n hn => by simp at hn
  | some n =>
    dsimp only
    split
    · exact throw_bind ha
    · next hle =>
      refine hcopies fun m hm => ?_
      obtain rfl := Option.some.inj hm
      exact Nat.le_of_not_lt hle

end Leads

end Builder

end TableLexer
