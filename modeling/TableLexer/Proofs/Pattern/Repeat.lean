import Mathlib.Algebra.BigOperators.Group.List.Basic
import TableLexer.Proofs.Pattern.Build

/-! Repetitions of a piece stand for the powers of its language. -/
namespace TableLexer

open Computability

/-- The powers of a language with an exponent below a bound. -/
def powersBelow (L : Language Symbol) (n : Nat) : Language Symbol := fun w => ∃ i < n, w ∈ L ^ i

section languages

variable {L : Language Symbol} {min max n : Nat}

private theorem powersBelow_zero : powersBelow L 0 = 0 := by
  ext w
  exact ⟨fun ⟨_, h, _⟩ => absurd h (Nat.not_lt_zero _), fun h => absurd h (Language.notMem_zero w)⟩

private theorem powersBelow_succ : powersBelow L (n + 1) = powersBelow L n + L ^ n := by
  ext w
  rw [Language.mem_add]
  constructor
  · intro hword
    obtain ⟨i, hi, hw⟩ := hword
    rcases Nat.lt_succ_iff_lt_or_eq.1 hi with hi | rfl
    · exact .inl ⟨i, hi, hw⟩
    · exact .inr hw
  · intro hcases
    rcases hcases with ⟨i, hi, hw⟩ | hw
    · exact ⟨i, Nat.lt_succ_of_lt hi, hw⟩
    · exact ⟨n, Nat.lt_succ_self n, hw⟩

private theorem pow_mul_kstar : L ^ min * L∗ = powers L min none := by
  ext w
  rw [Language.kstar_eq_iSup_pow, Language.mul_iSup, Language.mem_iSup]
  constructor
  · intro hword
    obtain ⟨i, hw⟩ := hword
    rw [← pow_add] at hw
    exact ⟨min + i, Nat.le_add_right .., fun m h => by simp at h, hw⟩
  · intro hword
    obtain ⟨n, hle, -, hw⟩ := hword
    refine ⟨n - min, ?_⟩
    rwa [← pow_add, Nat.add_sub_of_le hle]

private theorem pow_mul_powersBelow (h : min ≤ max) :
    L ^ min * powersBelow L (max - min + 1) = powers L min (some max) := by
  ext w
  rw [Language.mem_mul]
  constructor
  · intro hword
    obtain ⟨u, hu, v, ⟨i, hi, hv⟩, rfl⟩ := hword
    refine ⟨min + i, Nat.le_add_right .., fun m hm => ?_, ?_⟩
    · obtain rfl := Option.some.inj hm
      omega
    · rw [pow_add]
      exact Language.append_mem_mul hu hv
  · intro hword
    obtain ⟨n, hle, hmax, hw⟩ := hword
    rw [← Nat.add_sub_of_le hle, pow_add, Language.mem_mul] at hw
    obtain ⟨u, hu, v, hv, rfl⟩ := hw
    have := hmax max rfl
    exact ⟨u, hu, v, ⟨n - min, by omega, hv⟩, rfl⟩

private theorem pow_eq_powers (h : ¬ max > min) (hle : min ≤ max) : L ^ min = powers L min (some max) := by
  obtain rfl : min = max := by omega
  ext w
  constructor
  · exact fun hw => ⟨min, Nat.le_refl _, fun m hm => Nat.le_of_eq (Option.some.inj hm), hw⟩
  · intro hword
    obtain ⟨n, hle, hmax, hw⟩ := hword
    obtain rfl := Nat.le_antisymm (hmax min rfl) hle
    exact hw

end languages

namespace Automaton

variable {a b : Automaton} {K : Piece}

/-- What has been built of up to `n` repetitions when `k` of them are there. -/
structure Climbs (a b : Automaton) (K : Piece) (entry exit last : StateId) (k : Nat) : Prop where
  grows : a.Grows b
  frame : Frame a.size a b
  ramp : ∃ S, Piece.Ramp b.Edge S entry last exit (K.language ^ k) (powersBelow K.language k) ∧
    ∀ p ∈ S, a.size ≤ p ∧ p < b.size

theorem Climbs.extend {c d e : Automaton} {entry exit last : StateId} {k : Nat} {part : Fragment}
    (h : Climbs a b K entry exit last k) (hK : a.Has K) (hc : b.Grows c) (he : c.Grows e)
    (hcopied : Builder.Copied b c K.fragment part) (hout : c.Adds d (bridge last exit))
    (hin : d.Adds e (bridge last part.entry)) : Climbs a e K entry exit part.exit (k + 1) := by
  obtain ⟨S, hramp, hS⟩ := h.ramp
  obtain ⟨M, rfl, hlanguage, hM⟩ := Builds.copy h.grows.wellFormed (hK.keep h.grows h.frame) hcopied
  have hlast := (hS last hramp.last_mem).1
  have hexit := (hS exit hramp.exit_mem).1
  have hentry := Nat.le_trans h.grows.size_le (hM.bounds _ hM.fits.entry_mem).1
  have hedge : e.Edge = c.Edge ⊔ bridge last exit ⊔ bridge last M.entry := by
    rw [hin.edge, hout.edge]
    rfl
  have hdisjoint : Disjoint S M.states := Set.disjoint_left.2 fun p hp hp' =>
    absurd (hM.bounds p hp').1 (Nat.not_le.2 (hS p hp).2)
  have hramp' := (hramp.congr fun p hp => hM.frame.edge p (hS p hp).2).extend hM.fits hdisjoint
  rw [hlanguage, ← pow_succ, ← powersBelow_succ, ← hedge] at hramp'
  refine ⟨(h.grows.trans hc).trans he, ?_, S ∪ M.states, hramp', ?_⟩
  · refine ((h.frame.trans hM.frame h.grows.size_le).trans (hout.frame ?_) (Nat.le_refl _)).trans
      (hin.frame ?_) (Nat.le_refl _)
    · intro p l q hbridge
      obtain ⟨-, rfl, -, rfl⟩ := hbridge
      exact ⟨hlast, hexit⟩
    · intro p l q hbridge
      obtain ⟨-, rfl, -, rfl⟩ := hbridge
      exact ⟨hlast, hentry⟩
  · intro p hcases
    rcases hcases with hp | hp
    · exact ⟨(hS p hp).1, Nat.lt_of_lt_of_le (hS p hp).2 (hc.trans he).size_le⟩
    · exact ⟨Nat.le_trans h.grows.size_le (hM.bounds p hp).1,
        Nat.lt_of_lt_of_le (hM.bounds p hp).2 he.size_le⟩

theorem Climbs.start (hb : a.Grows b) (howns : b.owns ⟨a.size, a.size + 1⟩) (hadds : a.Adds b ⊥) :
    Climbs a b K a.size (a.size + 1) a.size 0 := by
  obtain ⟨hentry, hexit⟩ := owns_iff.1 howns
  refine ⟨hb, hadds.frame fun _ _ _ h => h.elim, {a.size, a.size + 1}, ?_, ?_⟩
  · rw [pow_zero, powersBelow_zero]
    exact .start (Nat.ne_of_lt (Nat.lt_succ_self _))
      (hadds.idle (idle_of_size_le (Nat.le_refl _)) fun _ _ => id)
      (hadds.idle (idle_of_size_le (Nat.le_succ _)) fun _ _ => id)
  · intro p hcases
    rcases hcases with rfl | rfl
    · exact ⟨Nat.le_refl _, hentry⟩
    · exact ⟨Nat.le_succ _, hexit⟩

theorem Has.upTo (ha : a.WellFormed) (hK : a.Has K) (n : Nat) :
    Builder.Leads (Builder.upTo K.fragment n) a fun f b =>
      ∃ M : Piece, M.fragment = f ∧ M.language = powersBelow K.language (n + 1) ∧ Builds a b M := by
  refine (Builder.Leads.upTo (fun g k last b => g = ⟨a.size, a.size + 1⟩ ∧
    Climbs a b K g.entry g.exit last k) ha n ?_ ?_ ?_).mono ?_
  · intro g k last b hresult
    obtain ⟨-, h⟩ := hresult
    obtain ⟨S, hramp, hS⟩ := h.ramp
    exact (hS last hramp.last_mem).2
  · intro g k last b part c d e _ hc he hresult hcopied hout hin
    obtain ⟨hg, h⟩ := hresult
    exact ⟨hg, h.extend hK hc he hcopied hout hin⟩
  · exact fun b hb howns hadds => ⟨rfl, .start hb howns hadds⟩
  · intro g d _ hresult
    obtain ⟨rfl, -, last, c, -, hd, ⟨-, h⟩, hout⟩ := hresult
    obtain ⟨S, hramp, hS⟩ := h.ramp
    refine ⟨⟨S, a.size, a.size + 1, powersBelow K.language n + K.language ^ n⟩, rfl,
      powersBelow_succ.symm, ?_, ?_, fun p hp => ?_⟩
    · refine h.frame.trans (hout.frame ?_) (Nat.le_refl _)
      intro p l q hbridge
      obtain ⟨-, rfl, -, rfl⟩ := hbridge
      exact ⟨(hS _ hramp.last_mem).1, (hS _ hramp.exit_mem).1⟩
    · rw [hout.edge]
      exact hramp.finish
    · exact ⟨(hS p hp).1, Nat.lt_of_lt_of_le (hS p hp).2 hd.size_le⟩

/-- Copies for the required repetitions have been made, of which the newest comes first. -/
structure Repeats (a b : Automaton) (K : Piece) (k : Nat) (made : List Fragment) : Prop where
  grows : a.Grows b
  pieces : ∃ Ks : List Piece, Ks.map Piece.fragment = made ∧
    Ks.map Piece.language = List.replicate k K.language ∧ BuildsAll a b Ks

theorem Repeats.start (ha : a.WellFormed) : Repeats a a K 0 [] :=
  ⟨.refl ha, [], rfl, rfl, .nil a⟩

theorem Repeats.copy {c : Automaton} {k : Nat} {made : List Fragment} {g : Fragment}
    (h : Repeats a b K k made) (hK : a.Has K) (hc : b.Grows c)
    (hcopied : Builder.Copied b c K.fragment g) : Repeats a c K (k + 1) (g :: made) := by
  obtain ⟨Ks, rfl, hlanguages, hKs⟩ := h.pieces
  obtain ⟨M, rfl, hlanguage, hM⟩ := Builds.copy h.grows.wellFormed (hK.keep h.grows hKs.frame) hcopied
  refine ⟨h.grows.trans hc, M :: Ks, rfl, ?_, hKs.after hM h.grows.size_le⟩
  rw [List.map_cons, hlanguages, hlanguage, List.replicate_succ]

/-- The required copies and, before them in the list, a piece for what may follow, in sequence. -/
theorem Repeats.sequence {k : Nat} {made : List Fragment} (h : Repeats a b K k made) {c : Automaton}
    {M : Piece} (hc : b.Grows c) (hM : Builds b c M) :
    Builder.Leads (Builder.sequence (M.fragment :: made).reverse) c fun f d =>
      ∃ N : Piece, N.fragment = f ∧ N.language = K.language ^ k * M.language ∧ Builds a d N := by
  obtain ⟨Ks, rfl, hlanguages, hKs⟩ := h.pieces
  have hall := (hKs.after hM h.grows.size_le).reverse
  have hprod : ((M :: Ks).reverse.map Piece.language).prod = K.language ^ k * M.language := by
    rw [List.map_reverse, List.map_cons, hlanguages, List.reverse_cons, List.reverse_replicate,
      List.prod_append, List.prod_replicate, List.prod_singleton]
  have hsequence := hall.sequence hc.wellFormed (h.grows.trans hc).size_le
  rw [hprod, List.map_reverse, List.map_cons] at hsequence
  exact hsequence

theorem Has.withMore (hK : a.Has K) {min : Nat} {max : Option Nat} {made : List Fragment}
    (h : Repeats a b K min made) (hle : ∀ m, max = some m → min ≤ m) :
    Builder.Leads (Builder.withMore K.fragment min max made) b fun f c =>
      ∃ M : Piece, M.fragment = f ∧ M.language = powers K.language min max ∧ Builds a c M := by
  obtain ⟨Ks, hmade, hlanguages, hKs⟩ := h.pieces
  have hK' := hK.keep h.grows hKs.frame
  have hb := h.grows.wellFormed
  unfold Builder.withMore
  cases max with
  | none =>
    refine (Builder.Leads.copy hb K.fragment).bind fun g c hc hcopied => ?_
    obtain ⟨M, rfl, hlanguage, hM⟩ := Builds.copy hb hK' hcopied
    refine (Builder.Leads.star hc.wellFormed M.fragment).bind fun g d hd => ?_
    intro hadded
    obtain ⟨rfl, howns, -, hadds⟩ := hadded
    refine (h.sequence (hc.trans hd) (hM.star howns hadds)).mono ?_
    intro f e _ hpiece
    obtain ⟨N, hf, hN, hbuilds⟩ := hpiece
    refine ⟨N, hf, hN.trans ?_, hbuilds⟩
    rw [← pow_mul_kstar, ← hlanguage]
    rfl
  | some max =>
    dsimp only
    split
    · refine (hK'.upTo hb (max - min)).bind fun g c hc => ?_
      intro hpiece
      obtain ⟨M, rfl, hlanguage, hM⟩ := hpiece
      refine (h.sequence hc hM).mono ?_
      intro f d _ hpiece
      obtain ⟨N, hf, hN, hbuilds⟩ := hpiece
      refine ⟨N, hf, hN.trans ?_, hbuilds⟩
      rw [hlanguage, pow_mul_powersBelow (hle max rfl)]
    · next hge =>
      have hsequence := hKs.reverse.sequence hb h.grows.size_le
      rw [List.map_reverse, List.map_reverse, hmade, hlanguages, List.reverse_replicate,
        List.prod_replicate, pow_eq_powers hge (hle max rfl)] at hsequence
      exact hsequence

/-- Repeating a piece stands for the powers of its language. -/
theorem Has.repeated (ha : a.WellFormed) (hK : a.Has K) (min : Nat) (max : Option Nat) :
    Builder.Leads (Builder.repeated K.fragment min max) a fun f b =>
      ∃ M : Piece, M.fragment = f ∧ M.language = powers K.language min max ∧ Builds a b M :=
  .repeated (fun k made b => Repeats a b K k made) ha
    (fun _ _ _ _ _ _ hc h hcopied => h.copy hK hc hcopied) (.start ha)
    fun _ _ _ hle h => hK.withMore h hle

end Automaton

end TableLexer
