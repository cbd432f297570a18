import Mathlib.Data.List.Pairwise
import TableLexer.Proofs.Builder.Combinators
import TableLexer.Proofs.Pattern.Piece

/-! Putting several pieces of a graph together: in a row, side by side, and as optional repetitions. -/
namespace TableLexer

open Computability

namespace Piece

variable {E E' : Graph} {K M : Piece} {Ks : List Piece} {p q : StateId} {w : List Symbol}

/-- No two of the pieces share a state. -/
def Apart (Ks : List Piece) : Prop := Ks.Pairwise fun K M => Disjoint K.states M.states

private theorem Apart.eq (h : Apart Ks) (hK : K ∈ Ks) (hM : M ∈ Ks) (hpK : p ∈ K.states) (hpM : p ∈ M.states) :
    K = M := by
  have hsymm : Std.Symm fun K M : Piece => Disjoint K.states M.states := ⟨fun _ _ h => h.symm⟩
  by_contra hne
  exact Set.disjoint_left.1 (h.forall hK hM hne) hpK hpM

/-- Pieces in a row after a first one. -/
def row (K : Piece) (Ks : List Piece) : Piece := Ks.foldl append K

theorem fragment_row (K : Piece) (Ks : List Piece) :
    (K.row Ks).fragment = joined K.fragment (Ks.map fragment) := by
  induction Ks generalizing K with
  | nil => rfl
  | cons M Ks ih => exact ih (K.append M)

theorem language_row (K : Piece) (Ks : List Piece) :
    (K.row Ks).language = K.language * (Ks.map language).prod := by
  induction Ks generalizing K with
  | nil => exact (mul_one _).symm
  | cons M Ks ih =>
    rw [row, List.foldl_cons, ← row, ih, List.map_cons, List.prod_cons, ← mul_assoc]
    rfl

theorem mem_states_row (K : Piece) (Ks : List Piece) :
    p ∈ (K.row Ks).states ↔ ∃ M ∈ K :: Ks, p ∈ M.states := by
  induction Ks generalizing K with
  | nil => simp [row]
  | cons M Ks ih =>
    rw [row, List.foldl_cons, ← row, ih]
    simp [append, or_assoc]

theorem Fits.row (hK : K.Fits E) (hKs : ∀ M ∈ Ks, M.Fits E) (hapart : Apart (K :: Ks)) :
    (K.row Ks).Fits (E ⊔ joints K.fragment (Ks.map fragment)) := by
  induction Ks generalizing E K with
  | nil => exact hK.congr fun p _ l q => ⟨fun edge => edge.resolve_right id, .inl⟩
  | cons M Ks ih =>
    obtain ⟨hM, hKs⟩ := List.forall_mem_cons.1 hKs
    obtain ⟨hhead, htail⟩ := List.pairwise_cons.1 hapart
    obtain ⟨hM', hKs'⟩ := List.pairwise_cons.1 htail
    have hexit (N : Piece) (hN : N ∈ Ks) : K.exit ∉ N.states :=
      Set.disjoint_left.1 (hhead N (List.mem_cons_of_mem M hN)) hK.exit_mem
    have hfits := ih (hK.append hM (hhead M List.mem_cons_self)) (fun N hN => (hKs N hN).congr
      fun p hp l q => ?_) (List.pairwise_cons.2 ⟨fun N hN => ?_, hKs'⟩)
    · rw [sup_assoc] at hfits
      exact hfits
    · exact ⟨fun edge => edge.resolve_right fun hb => hexit N hN (hb.2.1 ▸ hp), .inl⟩
    · exact Set.disjoint_union_left.2 ⟨hhead N (List.mem_cons_of_mem M hN), hM' N hN⟩

/-- Pieces side by side between a new entry and a new exit. -/
def choice (Ks : List Piece) (entry exit : StateId) : Piece :=
  ⟨{entry, exit} ∪ {p | ∃ K ∈ Ks, p ∈ K.states}, entry, exit, (Ks.map language).sum⟩

/-- The bridges into and out of such pieces. -/
def choiceBridges (Ks : List Piece) (entry exit : StateId) : Graph :=
  fun p l q => ∃ K ∈ Ks, (bridge entry K.entry ⊔ bridge K.exit exit) p l q

private theorem mem_sum_language : w ∈ (Ks.map language).sum ↔ ∃ K ∈ Ks, w ∈ K.language := by
  induction Ks with
  | nil => simp [Language.notMem_zero]
  | cons K Ks ih => rw [List.map_cons, List.sum_cons, Language.mem_add, ih]; simp

/-- Pieces that lie apart from each other and from two states without edges. -/
structure Framed (E : Graph) (Ks : List Piece) (entry exit : StateId) : Prop where
  fits : ∀ K ∈ Ks, K.Fits E
  apart : Apart Ks
  ne : entry ≠ exit
  entry_not_mem : ∀ K ∈ Ks, entry ∉ K.states
  exit_not_mem : ∀ K ∈ Ks, exit ∉ K.states
  entry_idle : ∀ l q, ¬ E entry l q
  exit_idle : ∀ l q, ¬ E exit l q

namespace Framed

variable {entry exit : StateId} (h : Framed E Ks entry exit)
include h

private theorem edge_iff {l : Option Symbol} : (E ⊔ choiceBridges Ks entry exit) p l q ↔
    E p l q ∨ l = none ∧ ∃ K ∈ Ks, p = entry ∧ q = K.entry ∨ p = K.exit ∧ q = exit := by
  show E p l q ∨ (∃ K ∈ Ks, (entry ≠ K.entry ∧ p = entry ∧ l = none ∧ q = K.entry) ∨
    (K.exit ≠ exit ∧ p = K.exit ∧ l = none ∧ q = exit)) ↔ _
  have hin (K : Piece) (hK : K ∈ Ks) : entry ≠ K.entry := fun heq =>
    h.entry_not_mem K hK (heq ▸ (h.fits K hK).entry_mem)
  have hout (K : Piece) (hK : K ∈ Ks) : K.exit ≠ exit := fun heq =>
    h.exit_not_mem K hK (heq ▸ (h.fits K hK).exit_mem)
  refine or_congr_right ⟨?_, ?_⟩
  · intro hstate
    rcases hstate with ⟨K, hK, ⟨-, hp, hl, hq⟩ | ⟨-, hp, hl, hq⟩⟩
    · exact ⟨hl, K, hK, .inl ⟨hp, hq⟩⟩
    · exact ⟨hl, K, hK, .inr ⟨hp, hq⟩⟩
  · intro hstate
    rcases hstate with ⟨hl, K, hK, ⟨hp, hq⟩ | ⟨hp, hq⟩⟩
    · exact ⟨K, hK, .inl ⟨hin K hK, hp, hl, hq⟩⟩
    · exact ⟨K, hK, .inr ⟨hout K hK, hp, hl, hq⟩⟩

private theorem closed : ∀ p ∈ (choice Ks entry exit).states, ∀ l q,
    (E ⊔ choiceBridges Ks entry exit) p l q → q ∈ (choice Ks entry exit).states := by
  intro p hp l q edge
  rcases h.edge_iff.1 edge with old | ⟨rfl, K, hK, hcases⟩
  · rcases hp with (rfl | rfl) | ⟨K, hK, hp⟩
    · exact absurd old (h.entry_idle l q)
    · exact absurd old (h.exit_idle l q)
    · exact .inr ⟨K, hK, (h.fits K hK).closed p hp l q old⟩
  · rcases hcases with ⟨rfl, rfl⟩ | ⟨rfl, rfl⟩
    · exact .inr ⟨K, hK, (h.fits K hK).entry_mem⟩
    · exact .inl (.inr rfl)

theorem choice_open : (choice Ks entry exit).Open (E ⊔ choiceBridges Ks entry exit) := by
  refine ⟨fun p hp l edge => ?_, fun l q edge => ?_⟩
  · rcases h.edge_iff.1 edge with old | ⟨rfl, K, hK, hcases⟩
    · rcases hp with (rfl | rfl) | ⟨K, hK, hp⟩
      · exact h.entry_idle _ _ old
      · exact h.exit_idle _ _ old
      · exact h.entry_not_mem K hK ((h.fits K hK).closed p hp l entry old)
    · rcases hcases with ⟨-, heq⟩ | ⟨-, heq⟩
      · exact h.entry_not_mem K hK ((show entry = K.entry from heq) ▸ (h.fits K hK).entry_mem)
      · exact h.ne heq
  · rcases h.edge_iff.1 edge with old | ⟨rfl, K, hK, hcases⟩
    · exact h.exit_idle _ _ old
    · rcases hcases with ⟨heq, -⟩ | ⟨heq, -⟩
      · exact h.ne heq.symm
      · exact h.exit_not_mem K hK ((show exit = K.exit from heq) ▸ (h.fits K hK).exit_mem)

private theorem backward (hpath : Path (E ⊔ choiceBridges Ks entry exit) p w exit) :
    (p = entry → ∃ K ∈ Ks, w ∈ K.language) ∧ (∀ K ∈ Ks, p ∈ K.states → Path E p w K.exit) := by
  have hopen := h.choice_open
  refine (Piece.backward (I := fun p w => (p = exit → w = []) ∧ (p = entry → ∃ K ∈ Ks, w ∈ K.language) ∧
    ∀ K ∈ Ks, p ∈ K.states → Path E p w K.exit) ?_ ?_ hpath).2
  · exact ⟨fun _ => rfl, fun heq => absurd heq.symm h.ne, fun K hK hp => absurd hp (h.exit_not_mem K hK)⟩
  · intro p l m w edge hresult
    obtain ⟨hend, -, hin⟩ := hresult
    refine ⟨?_, ?_⟩
    · intro heq
      obtain rfl := heq
      exact absurd edge (hopen.no_out l m)
    · rcases h.edge_iff.1 edge with old | ⟨rfl, K, hK, hcases⟩
      · refine ⟨?_, fun K hK hp => .step old (hin K hK ((h.fits K hK).closed p hp l m old))⟩
        intro heq
        obtain rfl := heq
        exact absurd old (h.entry_idle l m)
      · rcases hcases with ⟨rfl, rfl⟩ | ⟨rfl, rfl⟩
        · refine ⟨fun _ => ⟨K, hK, ?_⟩, fun M hM hp => absurd hp (h.entry_not_mem M hM)⟩
          exact ((h.fits K hK).spells w).1 (hin K hK (h.fits K hK).entry_mem)
        · refine ⟨fun heq => absurd (heq ▸ (h.fits K hK).exit_mem) (h.entry_not_mem K hK), fun M hM hp => ?_⟩
          obtain rfl := h.apart.eq hK hM (h.fits K hK).exit_mem hp
          rw [hend rfl]
          exact .refl _

theorem choice_fits : (choice Ks entry exit).Fits (E ⊔ choiceBridges Ks entry exit) := by
  have hclosed := h.closed
  have hopen := h.choice_open
  have hedge (p q : StateId) :=
    (h.edge_iff (p := p) (q := q) (l := none)).2
  refine ⟨.inl (.inl rfl), .inl (.inr rfl), h.ne, hclosed, fun w => ?_, fun p hp _ w hw => ?_⟩
  · rw [choice, mem_sum_language]
    constructor
    · exact fun hw => (h.backward hw).1 rfl
    · intro hword
      obtain ⟨K, hK, hw⟩ := hword
      have hle : E ≤ E ⊔ choiceBridges Ks entry exit := le_sup_left
      have hpath := (((h.fits K hK).spells w).2 hw).mono hle
      refine .silent (hedge entry K.entry (.inr ⟨rfl, K, hK, .inl ⟨rfl, rfl⟩⟩)) ?_
      simpa using hpath.trans (.single (hedge K.exit exit (.inr ⟨rfl, K, hK, .inr ⟨rfl, rfl⟩⟩)))
  · exact ⟨w, onward_of_no_in hclosed hopen.no_in hp hw⟩

end Framed

/-- Optional repetitions under construction: the words that lead from the entry to the end of the last
repetition, and those that lead from the entry to the exit already. -/
structure Ramp (E : Graph) (S : Set StateId) (entry last exit : StateId) (full part : Language Symbol) :
    Prop where
  entry_mem : entry ∈ S
  last_mem : last ∈ S
  exit_mem : exit ∈ S
  entry_ne_exit : entry ≠ exit
  last_ne_exit : last ≠ exit
  closed : ∀ p ∈ S, ∀ l q, E p l q → q ∈ S
  no_in : ∀ p ∈ S, ∀ l, ¬ E p l entry
  no_out : ∀ l q, ¬ E exit l q
  full_iff : ∀ w, Path E entry w last ↔ w ∈ full
  part_iff : ∀ w, Path E entry w exit ↔ w ∈ part

namespace Ramp

variable {S : Set StateId} {entry last exit : StateId} {full part : Language Symbol}

theorem congr (h : Ramp E S entry last exit full part)
    (hE : ∀ p ∈ S, ∀ l q, E' p l q ↔ E p l q) : Ramp E' S entry last exit full part := by
  have hto : ∀ p ∈ S, ∀ l q, E' p l q → q ∈ S ∧ E p l q := fun p hp l q edge =>
    have edge := (hE p hp l q).1 edge
    ⟨h.closed p hp l q edge, edge⟩
  have hfrom : ∀ p ∈ S, ∀ l q, E p l q → q ∈ S ∧ E' p l q := fun p hp l q edge =>
    ⟨h.closed p hp l q edge, (hE p hp l q).2 edge⟩
  have hpath {q : StateId} {w : List Symbol} : Path E' entry w q ↔ Path E entry w q :=
    ⟨fun hw => (hw.transport hto h.entry_mem).2, fun hw => (hw.transport hfrom h.entry_mem).2⟩
  refine ⟨h.entry_mem, h.last_mem, h.exit_mem, h.entry_ne_exit, h.last_ne_exit,
    fun p hp l q edge => (hto p hp l q edge).1, fun p hp l edge => h.no_in p hp l (hto p hp l _ edge).2,
    fun l q edge => h.no_out l q (hto exit h.exit_mem l q edge).2, fun w => ?_, fun w => ?_⟩
  · rw [hpath, h.full_iff]
  · rw [hpath, h.part_iff]

/-- At first there are an entry and an exit without edges. -/
theorem start (hne : entry ≠ exit) (hentry : ∀ l q, ¬ E entry l q) (hexit : ∀ l q, ¬ E exit l q) :
    Ramp E {entry, exit} entry entry exit 1 0 := by
  have hidle : ∀ p ∈ ({entry, exit} : Set StateId), ∀ l q, ¬ E p l q := by
    intro p hcases
    rcases hcases with rfl | rfl
    · exact hentry
    · exact hexit
  refine ⟨.inl rfl, .inl rfl, .inr rfl, hne, hne, fun p hp l q edge => absurd edge (hidle p hp l q),
    fun p hp l => hidle p hp l entry, hexit, fun w => ?_, fun w => ?_⟩
  · rw [Language.mem_one]
    constructor
    · intro hw
      cases hw with
      | refl _ => rfl
      | step edge _ => exact absurd edge (hentry _ _)
    · intro heq
      obtain rfl := heq
      exact .refl _
  · refine ⟨fun hw => ?_, fun hw => absurd hw (Language.notMem_zero w)⟩
    cases hw with
    | refl _ => exact absurd rfl hne
    | step edge _ => exact absurd edge (hentry _ _)

variable (h : Ramp E S entry last exit full part)
include h

private theorem exit_path (hpath : Path E exit w q) : w = [] ∧ q = exit := by
  cases hpath with
  | refl _ => exact ⟨rfl, rfl⟩
  | step edge _ => exact absurd edge (h.no_out _ _)

private theorem leave_iff : Path (E ⊔ bridge last exit) entry w exit ↔
    Path E entry w exit ∨ Path E entry w last := by
  constructor
  · intro hpath
    refine (backward (I := fun p w => p ∈ S → Path E p w exit ∨ Path E p w last) ?_ ?_ hpath) h.entry_mem
    · exact fun _ => .inl (.refl _)
    · intro p l m w hedge hin hp
      rcases hedge with edge | ⟨-, rfl, rfl, rfl⟩
      · exact (hin (h.closed p hp l m edge)).imp (.step edge) (.step edge)
      · rcases hin h.exit_mem with hw | hw
        · obtain ⟨rfl, -⟩ := h.exit_path hw
          exact .inr (.refl _)
        · exact absurd (h.exit_path hw).2 h.last_ne_exit
  · intro hcases
    rcases hcases with hw | hw
    · exact hw.mono (le_sup_left (a := E))
    · have hbridge : (E ⊔ bridge last exit) last none exit := .inr ⟨h.last_ne_exit, rfl, rfl, rfl⟩
      simpa using (hw.mono (le_sup_left (a := E))).trans (.single hbridge)

/-- In the end the last repetition is left, too. -/
theorem finish : Fits (E ⊔ bridge last exit) ⟨S, entry, exit, part + full⟩ := by
  have hclosed : ∀ p ∈ S, ∀ l q, (E ⊔ bridge last exit) p l q → q ∈ S := by
    intro p hp l q hedge
    rcases hedge with edge | ⟨-, rfl, rfl, rfl⟩
    · exact h.closed p hp l q edge
    · exact h.exit_mem
  refine ⟨h.entry_mem, h.exit_mem, h.entry_ne_exit, hclosed, fun w => ?_, fun p hp _ w hw => ⟨w, ?_⟩⟩
  · rw [h.leave_iff, Language.mem_add, h.full_iff, h.part_iff]
  · refine onward_of_no_in hclosed ?_ hp hw
    intro p hp l hedge
    rcases hedge with edge | ⟨-, -, -, heq⟩
    · exact h.no_in p hp l edge
    · exact h.entry_ne_exit heq

section extend

variable (hK : K.Fits E) (hdisjoint : Disjoint S K.states)
include hK hdisjoint

private theorem full_backward
    (hpath : Path (E ⊔ bridge last exit ⊔ bridge last K.entry) p w K.exit) :
    (p ∈ K.states → Path E p w K.exit) ∧
      (p ∈ S → ∃ u v, Path E p u last ∧ Path E K.entry v K.exit ∧ u ++ v = w) := by
  have hnot {p : StateId} (hp : p ∈ S) : p ∉ K.states := Set.disjoint_left.1 hdisjoint hp
  refine backward (I := fun p w => (p ∈ K.states → Path E p w K.exit) ∧
    (p ∈ S → ∃ u v, Path E p u last ∧ Path E K.entry v K.exit ∧ u ++ v = w)) ?_ ?_ hpath
  · exact ⟨fun _ => .refl _, fun hp => absurd hK.exit_mem (hnot hp)⟩
  · intro p l m w hedge hresult
    obtain ⟨hinK, hinS⟩ := hresult
    rcases hedge with (edge | ⟨-, rfl, rfl, rfl⟩) | ⟨-, rfl, rfl, rfl⟩
    · refine ⟨fun hp => .step edge (hinK (hK.closed p hp l m edge)), fun hp => ?_⟩
      obtain ⟨u, v, hu, hv, rfl⟩ := hinS (h.closed p hp l m edge)
      exact ⟨_, v, .step edge hu, hv, List.append_assoc ..⟩
    · obtain ⟨u, v, hu, -, -⟩ := hinS h.exit_mem
      exact absurd (h.exit_path hu).2 h.last_ne_exit
    · refine ⟨fun hp => absurd hp (hnot h.last_mem), fun _ => ?_⟩
      exact ⟨[], w, .refl _, hinK hK.entry_mem, rfl⟩

private theorem part_backward
    (hpath : Path (E ⊔ bridge last exit ⊔ bridge last K.entry) p w exit) :
    p ∉ K.states ∧ (p ∈ S → Path (E ⊔ bridge last exit) p w exit) := by
  have hnot {p : StateId} (hp : p ∈ S) : p ∉ K.states := Set.disjoint_left.1 hdisjoint hp
  refine backward (I := fun p w => p ∉ K.states ∧ (p ∈ S → Path (E ⊔ bridge last exit) p w exit))
    ?_ ?_ hpath
  · exact ⟨hnot h.exit_mem, fun _ => .refl _⟩
  · intro p l m w hedge hresult
    obtain ⟨hinK, hinS⟩ := hresult
    rcases hedge with edge | ⟨-, rfl, rfl, rfl⟩
    · rcases edge with edge | ⟨hne, rfl, rfl, rfl⟩
      · exact ⟨fun hp => hinK (hK.closed p hp l m edge),
          fun hp => .step (.inl edge) (hinS (h.closed p hp l m edge))⟩
      · exact ⟨hnot h.last_mem, fun _ => .step (.inr ⟨hne, rfl, rfl, rfl⟩) (hinS h.exit_mem)⟩
    · exact absurd hK.entry_mem hinK

/-- One more repetition: the last one may be left for the exit before it starts. -/
theorem extend : Ramp (E ⊔ bridge last exit ⊔ bridge last K.entry) (S ∪ K.states) entry K.exit exit
    (full * K.language) (part + full) := by
  have hnot {p : StateId} (hp : p ∈ S) : p ∉ K.states := Set.disjoint_left.1 hdisjoint hp
  have hne : last ≠ K.entry := fun heq => hnot h.last_mem (heq ▸ hK.entry_mem)
  have hle : E ⊔ bridge last exit ≤ E ⊔ bridge last exit ⊔ bridge last K.entry := le_sup_left
  have hbridge : (E ⊔ bridge last exit ⊔ bridge last K.entry) last none K.entry :=
    .inr ⟨hne, rfl, rfl, rfl⟩
  refine ⟨.inl h.entry_mem, .inr hK.exit_mem, .inl h.exit_mem, h.entry_ne_exit, fun heq => ?_, ?_, ?_, ?_,
    fun w => ?_, fun w => ?_⟩
  · exact hnot h.exit_mem (heq ▸ hK.exit_mem)
  · intro p hp l q hedge
    rcases hedge with (edge | ⟨-, rfl, rfl, rfl⟩) | ⟨-, rfl, rfl, rfl⟩
    · exact hp.imp (fun hp => h.closed p hp l q edge) (fun hp => hK.closed p hp l q edge)
    · exact .inl h.exit_mem
    · exact .inr hK.entry_mem
  · intro p hp l hedge
    rcases hedge with (edge | ⟨-, -, -, heq⟩) | ⟨-, -, -, heq⟩
    · rcases hp with hp | hp
      · exact h.no_in p hp l edge
      · exact hnot h.entry_mem (hK.closed p hp l _ edge)
    · exact h.entry_ne_exit heq
    · exact hnot h.entry_mem (heq ▸ hK.entry_mem)
  · intro l q hedge
    rcases hedge with (edge | ⟨-, heq, -⟩) | ⟨-, heq, -⟩
    · exact h.no_out l q edge
    · exact h.last_ne_exit heq.symm
    · exact h.last_ne_exit heq.symm
  · rw [Language.mem_mul]
    constructor
    · intro hw
      obtain ⟨u, v, hu, hv, rfl⟩ := (h.full_backward hK hdisjoint hw).2 h.entry_mem
      exact ⟨u, (h.full_iff u).1 hu, v, (hK.spells v).1 hv, rfl⟩
    · intro hword
      obtain ⟨u, hu, v, hv, rfl⟩ := hword
      have hu := ((h.full_iff u).2 hu).mono (le_sup_left.trans hle)
      exact hu.trans (.silent hbridge (((hK.spells v).2 hv).mono (le_sup_left.trans hle)))
  · rw [Language.mem_add, ← h.part_iff, ← h.full_iff, ← h.leave_iff]
    exact ⟨fun hw => (h.part_backward hK hdisjoint hw).2 h.entry_mem, fun hw => hw.mono hle⟩

end extend

end Ramp

end Piece

end TableLexer
