import TableLexer.Proofs.Builder.Aside
import TableLexer.Proofs.Builder.Duplicate
import TableLexer.Proofs.Builder.Room

/-! Exactly how many states a repetition takes. It fails if its copies do not fit, and only then: the copies stay of
one size while the automaton grows. -/
namespace TableLexer

namespace Automaton

variable {a b : Automaton} {f : Fragment}

private theorem Spares.members_eq (h : Spares a.size a b) (ha : a.WellFormed) (hb : b.WellFormed) (hf : a.owns f) :
    b.members f = a.members f := by
  obtain ⟨hentry, hexit⟩ := owns_iff.1 hf
  have hmembers := ((h.embeds ha).members_eq ha hb hf (owns_of_size_le hf h.size_le) hentry hexit).1
  rwa [Fragment.renamed_id, List.map_id] at hmembers

end Automaton

namespace Builder

open Automaton

variable {α : Type} {a b base : Automaton} {p : Builder α} {f g : Fragment} {n : Nat} {source target : StateId}

/-- The automaton came of another one without changing any of its states. -/
structure Grown (base a : Automaton) : Prop where
  wellFormed : a.WellFormed
  spares : Spares base.size base a

namespace Grown

variable {good : α → Automaton → Prop} {good' : α → Prop} {x : α}

theorem refl (ha : a.WellFormed) : Grown a a := ⟨ha, .refl a.size a⟩

private theorem size_le (h : Grown base a) : base.size ≤ a.size := h.spares.size_le

theorem owns (h : Grown base a) (hf : base.owns f) : a.owns f := owns_of_size_le hf h.size_le

/-- A step aside of the states that were there first leaves them alone once more. -/
private theorem step (h : Grown base a) (hleads : Leads p a good) (haside : Aside base.size p good')
    (hx : p.apply a = (.ok x, b)) : Grown base b ∧ good x b ∧ good' x := by
  have hspares := haside.spares a h.size_le
  rw [hx] at hspares
  exact ⟨⟨(hleads.grows_of_eq hx).wellFormed, h.spares.trans hspares⟩, hleads.good x b hx,
    haside.good a x b h.size_le hx⟩

theorem addEpsilon (h : Grown base a) (hsource : base.size ≤ source ∧ source < a.size) (htarget : target < a.size)
    {x : Unit} (hx : (addEpsilon source target).apply a = (.ok x, b)) : Grown base b :=
  (h.step (.addEpsilon h.wellFormed hsource.2 htarget) (.addEpsilon hsource.1 target) hx).1

end Grown

/-- What a repetition takes if a copy takes `m` states: the copies, two states more unless their number is fixed,
and two states if there are to be none. -/
def repetitionCost (m min : Nat) : Option Nat → Nat
  | none => min * m + m + 2
  | some max => if max > min then min * m + 2 + (max - min) * m else if min = 0 then 2 else min * m

/-- The part of it that is taken once the required copies are made. -/
def extraCost (m min : Nat) : Option Nat → Nat
  | none => m + 2
  | some max => if max > min then 2 + (max - min) * m else if min = 0 then 2 else 0

private theorem repetitionCost_eq (m min : Nat) (max : Option Nat) :
    repetitionCost m min max = min * m + extraCost m min max := by
  cases max with
  | none => exact Nat.add_assoc ..
  | some max =>
    simp only [repetitionCost, extraCost]
    split
    · exact Nat.add_assoc ..
    · split
      · next hmin => rw [hmin, Nat.zero_mul, Nat.zero_add]
      · rfl

private theorem le_repetitionCost {m : Nat} (hm : 0 < m) (min : Nat) (max : Option Nat) :
    0 < repetitionCost m min max ∧ min ≤ repetitionCost m min max := by
  have hle : min ≤ min * m := Nat.le_mul_of_pos_right min hm
  have hpos : 0 < min ∨ 0 < extraCost m min max := by
    unfold extraCost
    grind
  rw [repetitionCost_eq]
  omega

namespace Takes

variable {min : Nat} {max : Option Nat} {last exit : StateId}
variable (hbase : base.WellFormed) (hf : base.owns f) (h : Grown base a)
include hbase hf h

/-- However much has been added since, a copy takes what it took at first. -/
private theorem copy_grown : Takes (Builder.copy f) a (base.members f).length := by
  rw [← h.spares.members_eq hbase h.wellFormed hf]
  exact copy (h.owns hf)

theorem copies (n : Nat) (made : List Fragment) : Takes (copies f n made) a (n * (base.members f).length) := by
  induction n generalizing a made with
  | zero =>
    rw [Nat.zero_mul]
    exact pure made a
  | succ n ih =>
    refine (copy_grown hbase hf h).bind (n := n * (base.members f).length) (fun g b hg _ => ?_)
      (by rw [Nat.succ_mul, Nat.add_comm])
    exact ih (h.step (.copy h.wellFormed f) (.copy f) hg).1 _

/-- Between the copies, edges are added that take no states. -/
theorem optionalCopies (hlast : base.size ≤ last ∧ last < a.size) (hexit : exit < a.size) (n : Nat) :
    Takes (optionalCopies f exit n last) a (n * (base.members f).length) := by
  induction n generalizing a last with
  | zero =>
    rw [Nat.zero_mul]
    exact pure last a
  | succ n ih =>
    refine (copy_grown hbase hf h).bind (n := n * (base.members f).length) (fun part b hpart hsize => ?_)
      (by rw [Nat.succ_mul, Nat.add_comm])
    obtain ⟨hb, hcopied, hfrom⟩ := h.step (.copy h.wellFormed f) (.copy f) hpart
    obtain ⟨hentry, hend⟩ := owns_iff.1 hcopied.owns_copy
    have hle : a.size ≤ b.size := by rw [hsize]; exact Nat.le_add_right ..
    have hlast' : base.size ≤ last ∧ last < b.size := ⟨hlast.1, Nat.lt_of_lt_of_le hlast.2 hle⟩
    have hexit' : exit < b.size := Nat.lt_of_lt_of_le hexit hle
    refine (addEpsilon last exit b).bind (fun _ c hc hsize => ?_) (Nat.zero_add _)
    rw [Nat.add_zero] at hsize
    rw [← hsize] at hlast' hexit' hentry hend
    have hc' := hb.addEpsilon (hsize ▸ hlast') (hsize ▸ hexit') hc
    refine (addEpsilon last part.entry c).bind (fun _ d hd hsize => ?_) (Nat.zero_add _)
    rw [Nat.add_zero] at hsize
    exact ih (hc'.addEpsilon hlast' hentry hd) ⟨hfrom.2, hsize ▸ hend⟩ (hsize ▸ hexit')

theorem upTo (n : Nat) : Takes (upTo f n) a (2 + n * (base.members f).length) := by
  refine (fragment a).bind (fun g b hg _ => ?_) rfl
  obtain ⟨hb, ⟨-, howns, -⟩, hfrom⟩ := h.step (.fragment h.wellFormed) .fragment hg
  obtain ⟨hentry, hexit⟩ := owns_iff.1 howns
  refine (optionalCopies hbase hf hb ⟨hfrom.1, hentry⟩ hexit n).bind (n := 0) (fun last c _ _ => ?_) (Nat.add_zero _)
  exact (addEpsilon last g.exit c).returning _

/-- Besides the required copies, a repetition takes what is needed for more of them, or an empty fragment if it is
to be empty. -/
theorem withMore {required : List Fragment} (hrequired : required.length = min ∧ ∀ part ∈ required, a.owns part) :
    Takes (withMore f min max required) a (extraCost (base.members f).length min max) := by
  obtain ⟨hlength, howns⟩ := hrequired
  have hsequence {b : Automaton} {g : Fragment} (hle : a.size ≤ b.size) (hg : b.owns g) :
      Takes (Builder.sequence (g :: required).reverse) b 0 := by
    have htakes : Takes (Builder.sequence (g :: required).reverse) b _ := sequence fun part hpart =>
      List.forall_mem_cons (p := fun part => b.owns part).2
        ⟨hg, fun part hpart => owns_of_size_le (howns part hpart) hle⟩ part (List.mem_reverse.1 hpart)
    rwa [if_neg (by simp)] at htakes
  unfold Builder.withMore extraCost
  cases max with
  | none =>
    refine (copy_grown hbase hf h).bind (fun g b hg hb => ?_) rfl
    obtain ⟨hgrown, hcopied, -⟩ := h.step (.copy h.wellFormed f) (.copy f) hg
    refine (star hcopied.owns_copy).bind (n := 0) (fun g c hg hc => ?_) (Nat.add_zero _)
    have hstar := ((Leads.star hgrown.wellFormed _).good g c hg).2.1
    exact hsequence (by omega) hstar
  | some max =>
    dsimp only
    split
    · refine (upTo hbase hf h (max - min)).bind (n := 0) (fun g b hg hb => ?_) (Nat.add_zero _)
      exact hsequence (by omega) ((Leads.upTo_owns h.wellFormed f _).good g b hg)
    · have htakes : Takes (Builder.sequence required.reverse) a _ := sequence fun part hpart =>
        howns part (List.mem_reverse.1 hpart)
      rwa [List.length_reverse, hlength] at htakes

end Takes

section repetition

variable {min : Nat} {max : Option Nat} (ha : a.WellFormed) (hf : a.owns f)
include ha hf

/-- All the copies and what follows them, without a look at their number first. -/
private theorem Takes.copying : Takes (Builder.copies f min [] >>= Builder.withMore f min max) a
    (repetitionCost (a.members f).length min max) := by
  refine (Takes.copies ha hf (.refl ha) min []).bind (fun made b hmade _ => ?_) (repetitionCost_eq ..).symm
  obtain ⟨hgrown, hrequired, -⟩ := (Grown.refl ha).step
    (.copies (fun k made b => made.length = k ∧ ∀ part ∈ made, b.owns part) ha
      (fun k made b g c _ hc hmade hg => ⟨congrArg Nat.succ hmade.1, List.forall_mem_cons.2
        ⟨hg.owns_copy, fun part hpart => hc.owns (hmade.2 part hpart)⟩⟩) 0 min ⟨rfl, by simp⟩)
    (.copies f min (by simp)) hmade
  rw [Nat.zero_add] at hrequired
  exact .withMore ha hf hgrown hrequired

omit ha in
/-- Only a look at the number of copies comes before the copying. -/
private theorem apply_repeated (hle : ∀ n, max = some n → min ≤ n) : (repeated f min max).apply a =
    if min ≥ a.config.stateLimit then (.error (.stateLimit a.config.stateLimit), a)
    else (copies f min [] >>= withMore f min max).apply a := by
  have hcheck : (check f).apply a = (.ok (), a) := check_eq_ok_iff.2 ⟨hf, rfl⟩
  rw [repeated, apply_bind, hcheck]
  dsimp only
  cases max with
  | none =>
    rw [apply_bind, apply_get]
    dsimp only
    split <;> simp [apply_bind]
  | some n =>
    simp only [Nat.not_lt.2 (hle n rfl), if_false]
    rw [apply_bind, apply_get]
    dsimp only
    split <;> simp [apply_bind]

omit ha in
/-- If there may be no more states than copies, the copies do not fit. -/
private theorem lt_repetitionCost (hmany : min ≥ a.config.stateLimit) (max : Option Nat) :
    Nat.max a.size a.config.stateLimit < a.size + repetitionCost (a.members f).length min max := by
  obtain ⟨hpos, hmin⟩ := le_repetitionCost (length_members_pos a f) min max
  have hsize : 0 < a.size := Nat.zero_lt_of_lt (owns_iff.1 hf).1
  exact Nat.max_lt.2 ⟨by omega, by omega⟩

variable (hle : ∀ n, max = some n → min ≤ n)
include hle

theorem Takes.repeated : Takes (Builder.repeated f min max) a (repetitionCost (a.members f).length min max) := by
  rw [Takes, apply_repeated hf hle]
  split
  · next hmany =>
    exact fun _ => ⟨fun hfits => absurd hfits (Nat.not_le.2 (lt_repetitionCost hf hmany max)), fun _ => ⟨a, rfl⟩⟩
  · exact Takes.copying ha hf

/-- More copies are asked for than there may be states only if they do not fit anyway. -/
private theorem repeated_eq_copying (hmutable : a.deterministic = false) :
    ((repeated f min max).apply a).1 = ((copies f min [] >>= withMore f min max).apply a).1 := by
  rw [apply_repeated hf hle]
  split
  · next hmany =>
    obtain ⟨b, hb⟩ := (Takes.copying ha hf hmutable).2 (lt_repetitionCost hf hmany max)
    rw [hb]
  · rfl

end repetition

/-- The step succeeds if and only if `n` more states fit. It takes them then, and fails for the state limit
otherwise. -/
structure TakesExactly (p : Builder α) (a : Automaton) (n : Nat) : Prop where
  succeeds_iff : (∃ x b, p.apply a = (.ok x, b)) ↔ a.size + n ≤ a.config.stateLimit
  size_eq : ∀ x b, p.apply a = (.ok x, b) → b.size = a.size + n
  fails : a.config.stateLimit < a.size + n → (p.apply a).1 = .error (.stateLimit a.config.stateLimit)

private theorem Takes.exactly (h : Takes p a n) (hmutable : a.deterministic = false) (hn : 0 < n) :
    TakesExactly p a n := by
  obtain ⟨hfits, hfull⟩ := h hmutable
  have hfail (hlt : a.config.stateLimit < a.size + n) :
      (p.apply a).1 = .error (.stateLimit a.config.stateLimit) := by
    obtain ⟨b, hb⟩ := hfull (by omega)
    rw [hb]
  have hle {x b} (hx : p.apply a = (.ok x, b)) : a.size + n ≤ a.config.stateLimit := by
    by_contra hlt
    have herror := hfail (Nat.lt_of_not_le hlt)
    simp [hx] at herror
  refine ⟨⟨fun ⟨x, b, hx⟩ => hle hx, fun hle => ?_⟩, fun x b hx => ?_, hfail⟩
  · obtain ⟨x, b, hx, -⟩ := hfits (by omega)
    exact ⟨x, b, hx⟩
  · obtain ⟨y, c, hy, hsize, -⟩ := hfits (Nat.le_trans (hle hx) (Nat.le_max_right ..))
    obtain ⟨rfl, rfl⟩ := apply_unique hx hy
    exact hsize

/-- A repetition fails if its copies do not fit, and only then. The look at the number of copies that comes before
the copying turns none away that could be made. -/
theorem repeated_fits_exactly (ha : a.WellFormed) (hmutable : a.deterministic = false) (hf : a.owns f)
    (min : Nat) (max : Option Nat) (hle : ∀ n, max = some n → min ≤ n) :
    TakesExactly (copy f) a (a.core f).ncard ∧
      TakesExactly (repeated f min max) a (repetitionCost (a.core f).ncard min max) ∧
      ((repeated f min max).apply a).1 = ((copies f min [] >>= withMore f min max).apply a).1 := by
  have hpos := length_members_pos a f
  rw [← length_members ha hf]
  exact ⟨(Takes.copy hf).exactly hmutable hpos,
    (Takes.repeated ha hf hle).exactly hmutable (le_repetitionCost hpos min max).1,
    repeated_eq_copying ha hf hle hmutable⟩

/-- A letter, in an automaton that has three of twelve states. -/
def crampedLetter : Automaton :=
  (apply (literal (.ofChar 'a')) { config := { stateLimit := 12 } }).2

/-- Four copies of two states and two states besides do not fit, although there may be more than two states. -/
theorem repeated_fits_exactly_crampedLetter : crampedLetter.WellFormed ∧ crampedLetter.deterministic = false ∧
    crampedLetter.owns ⟨1, 2⟩ ∧ (crampedLetter.core ⟨1, 2⟩).ncard = 2 ∧
    (∀ g b, (repeated ⟨1, 2⟩ 2 (some 3)).apply crampedLetter = (.ok g, b) → b.size = 11) ∧
    (∃ g b, (repeated ⟨1, 2⟩ 2 (some 3)).apply crampedLetter = (.ok g, b)) ∧
    ((repeated ⟨1, 2⟩ 2 (some 4)).apply crampedLetter).1 = .error (.stateLimit 12) := by
  have hconstructed : crampedLetter.Constructed := ⟨_, _, _, .literal _, rfl⟩
  obtain ⟨config, hgrows⟩ := hconstructed.grows
  have ha := hgrows.wellFormed
  have hf : crampedLetter.owns ⟨1, 2⟩ := by decide +kernel
  have hsize : crampedLetter.size = 3 := by decide +kernel
  have hlimit : crampedLetter.config.stateLimit = 12 := by decide +kernel
  have hcore : (crampedLetter.core ⟨1, 2⟩).ncard = 2 := by
    rw [← length_members ha hf]
    decide +kernel
  obtain ⟨-, hthree, -⟩ := repeated_fits_exactly ha hgrows.deterministic hf 2 (some 3) (by simp)
  obtain ⟨-, hfour, -⟩ := repeated_fits_exactly ha hgrows.deterministic hf 2 (some 4) (by simp)
  have hsucceeds := hthree.succeeds_iff
  have hsize_eq := hthree.size_eq
  have hfails := hfour.fails
  rw [hcore, hsize, hlimit] at hsucceeds hfails
  rw [hcore, hsize] at hsize_eq
  exact ⟨ha, hgrows.deterministic, hf, hcore, hsize_eq, hsucceeds.2 (by decide), hfails (by decide)⟩

end Builder

end TableLexer
