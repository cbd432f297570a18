import Mathlib.Computability.Language
import Mathlib.Data.Set.Lattice
import Mathlib.Order.CompletePartialOrder
import TableLexer.Proofs.Automaton.Change

/-! Pieces of a graph that stand for regular languages, and how they are put together by bridges. The
entry of a piece may have edges that lead back to it, and its exit edges that lead on. -/
namespace TableLexer

open Computability

/-- A set of states with an entry, an exit, and the words to be spelled from one to the other. -/
structure Piece where
  states : Set StateId
  entry : StateId
  exit : StateId
  language : Language Symbol

namespace Piece

def fragment (K : Piece) : Fragment := ⟨K.entry, K.exit⟩

/-- A graph has the piece: no edge leaves it, the paths from its entry to its exit spell its words,
and whoever reaches the exit need not come back to the entry for it. -/
structure Fits (E : Graph) (K : Piece) : Prop where
  entry_mem : K.entry ∈ K.states
  exit_mem : K.exit ∈ K.states
  entry_ne_exit : K.entry ≠ K.exit
  closed : ∀ p ∈ K.states, ∀ l q, E p l q → q ∈ K.states
  spells : ∀ w, Path E K.entry w K.exit ↔ w ∈ K.language
  onward : ∀ p ∈ K.states, p ≠ K.entry → ∀ w, Path E p w K.exit →
    ∃ w', Path (E.onward K.entry) p w' K.exit

variable {E E' : Graph} {K M : Piece} {p q : StateId} {w : List Symbol}

/-- Only the edges from its own states matter for a piece. -/
theorem Fits.congr (h : K.Fits E) (hE : ∀ p ∈ K.states, ∀ l q, E' p l q ↔ E p l q) : K.Fits E' := by
  have hto : ∀ p ∈ K.states, ∀ l q, E' p l q → q ∈ K.states ∧ E p l q := fun p hp l q edge =>
    have edge := (hE p hp l q).1 edge
    ⟨h.closed p hp l q edge, edge⟩
  have hfrom : ∀ p ∈ K.states, ∀ l q, E p l q → q ∈ K.states ∧ E' p l q := fun p hp l q edge =>
    ⟨h.closed p hp l q edge, (hE p hp l q).2 edge⟩
  refine ⟨h.entry_mem, h.exit_mem, h.entry_ne_exit, fun p hp l q edge => (hto p hp l q edge).1,
    fun w => ?_, fun p hp hne w hw => ?_⟩
  · rw [← h.spells w]
    exact ⟨fun hw => (hw.transport hto h.entry_mem).2, fun hw => (hw.transport hfrom h.entry_mem).2⟩
  · obtain ⟨w', hw'⟩ := h.onward p hp hne w (hw.transport hto hp).2
    refine ⟨w', (hw'.transport (fun p hp l q edge => ?_) hp).2⟩
    exact ⟨h.closed p hp l q edge.2, edge.1, (hfrom p hp l q edge.2).2⟩

/-- A path within a piece keeps clear of an entry elsewhere, also in a graph with more edges. -/
theorem Fits.lift (h : K.Fits E) (hE : E ≤ E') {entry : StateId} (hentry : entry ∉ K.states)
    (hp : p ∈ K.states) (hpath : Path E p w q) : Path (E'.onward entry) p w q := by
  refine (hpath.transport (fun p hp l q edge => ?_) hp).2
  have hq := h.closed p hp l q edge
  exact ⟨hq, fun heq => hentry (heq ▸ hq), hE p l q edge⟩

/-- Whatever holds of the empty word at the end of paths, and is passed on against the edges, holds
of the words that paths to this end spell. -/
theorem backward {I : StateId → List Symbol → Prop} (hend : I q [])
    (hstep : ∀ p l m w, E p l m → I m w → I p (l.toList ++ w)) (hpath : Path E p w q) : I p w := by
  induction hpath with
  | refl _ => exact hend
  | step edge _ ih => exact hstep _ _ _ _ edge (ih hend)

/-- One piece after another. -/
def append (K M : Piece) : Piece :=
  ⟨K.states ∪ M.states, K.entry, M.exit, K.language * M.language⟩

/-- A path to the new exit stays in the second piece, or leaves the first one by the bridge. -/
private theorem path_append (hK : K.Fits E) (hM : M.Fits E) (hdisjoint : Disjoint K.states M.states)
    {p : StateId} {w : List Symbol} (hpath : Path (E ⊔ bridge K.exit M.entry) p w M.exit) :
    (p ∈ M.states → Path E p w M.exit) ∧
      (p ∈ K.states → ∃ u v, Path E p u K.exit ∧ Path E M.entry v M.exit ∧ u ++ v = w) := by
  have hnot {p : StateId} (hp : p ∈ K.states) : p ∉ M.states := Set.disjoint_left.1 hdisjoint hp
  refine backward (I := fun p w => (p ∈ M.states → Path E p w M.exit) ∧
    (p ∈ K.states → ∃ u v, Path E p u K.exit ∧ Path E M.entry v M.exit ∧ u ++ v = w)) ?_ ?_ hpath
  · exact ⟨fun _ => .refl _, fun h => absurd hM.exit_mem (hnot h)⟩
  · intro p l m w hedge hresult
    obtain ⟨hinM, hinK⟩ := hresult
    rcases hedge with edge | ⟨-, rfl, rfl, rfl⟩
    · refine ⟨fun hp => .step edge (hinM (hM.closed p hp l m edge)), fun hp => ?_⟩
      obtain ⟨u, v, hu, hv, rfl⟩ := hinK (hK.closed p hp l m edge)
      exact ⟨_, v, .step edge hu, hv, List.append_assoc ..⟩
    · refine ⟨fun hp => absurd hp (hnot hK.exit_mem), fun _ => ?_⟩
      exact ⟨[], w, .refl _, hinM hM.entry_mem, rfl⟩

theorem Fits.append (hK : K.Fits E) (hM : M.Fits E) (hdisjoint : Disjoint K.states M.states) :
    (K.append M).Fits (E ⊔ bridge K.exit M.entry) := by
  have hnot {p : StateId} (hp : p ∈ K.states) : p ∉ M.states := Set.disjoint_left.1 hdisjoint hp
  have hne : K.exit ≠ M.entry := fun heq => hnot hK.exit_mem (heq ▸ hM.entry_mem)
  have hle : E ≤ E ⊔ bridge K.exit M.entry := le_sup_left
  have hbridge : (E ⊔ bridge K.exit M.entry) K.exit none M.entry := .inr ⟨hne, rfl, rfl, rfl⟩
  refine ⟨.inl hK.entry_mem, .inr hM.exit_mem, fun heq => ?_, ?_, fun w => ?_, ?_⟩
  · exact hnot hK.entry_mem (heq ▸ hM.exit_mem)
  · rintro p (hp | hp) l q (edge | ⟨-, rfl, rfl, rfl⟩)
    · exact .inl (hK.closed p hp l q edge)
    · exact .inr hM.entry_mem
    · exact .inr (hM.closed p hp l q edge)
    · exact .inr hM.entry_mem
  · rw [Piece.append, Language.mem_mul]
    constructor
    · intro hw
      obtain ⟨u, v, hu, hv, rfl⟩ := (path_append hK hM hdisjoint hw).2 hK.entry_mem
      exact ⟨u, (hK.spells u).1 hu, v, (hM.spells v).1 hv, rfl⟩
    · intro hword
      obtain ⟨u, hu, v, hv, rfl⟩ := hword
      have hu := ((hK.spells u).2 hu).mono hle
      exact hu.trans (.silent hbridge (((hM.spells v).2 hv).mono hle))
  · intro p hcases hne' w hw
    rcases hcases with hp | hp
    · obtain ⟨u, v, hu, hv, rfl⟩ := (path_append hK hM hdisjoint hw).2 hp
      obtain ⟨u', hu'⟩ := hK.onward p hp hne' u hu
      have hbridge' : (Graph.onward (E ⊔ bridge K.exit M.entry) K.entry) K.exit none M.entry :=
        ⟨fun heq => hnot hK.entry_mem (heq ▸ hM.entry_mem), hbridge⟩
      have hv' := hM.lift hle (hnot hK.entry_mem) hM.entry_mem hv
      exact ⟨_, (hu'.mono fun _ _ _ edge => ⟨edge.1, .inl edge.2⟩).trans (.silent hbridge' hv')⟩
    · exact ⟨w, hM.lift hle (hnot hK.entry_mem) hp ((path_append hK hM hdisjoint hw).1 hp)⟩

private theorem append_mem_kstar {L : Language Symbol} {u v : List Symbol} (hu : u ∈ L) (hv : v ∈ L∗) :
    u ++ v ∈ L∗ := by
  rw [← Language.one_add_self_mul_kstar_eq_kstar]
  exact .inr (Language.append_mem_mul hu hv)

/-- A state that has no edges and is not in a piece. -/
structure Fresh (E : Graph) (K : Piece) (p : StateId) : Prop where
  not_mem : p ∉ K.states
  idle : ∀ l q, ¬ E p l q

/-- Any number of passes through a piece, from a new entry to a new exit. -/
def star (K : Piece) (entry exit : StateId) : Piece :=
  ⟨insert entry (insert exit K.states), entry, exit, K.language∗⟩

/-- The bridges of such passes. -/
def starBridges (K : Piece) (entry exit : StateId) : Graph :=
  bridge entry exit ⊔ bridge entry K.entry ⊔ bridge K.exit exit ⊔ bridge exit entry

section star

variable {entry exit : StateId} (hK : K.Fits E) (hentry : K.Fresh E entry) (hexit : K.Fresh E exit)
  (hne : entry ≠ exit)
include hK hentry hexit hne

private theorem starEdge {l : Option Symbol} : (E ⊔ K.starBridges entry exit) p l q ↔ E p l q ∨
    l = none ∧ (p = entry ∧ q = exit ∨ p = entry ∧ q = K.entry ∨ p = K.exit ∧ q = exit ∨
      p = exit ∧ q = entry) := by
  have hin : entry ≠ K.entry := fun heq => hentry.not_mem (heq ▸ hK.entry_mem)
  have hout : K.exit ≠ exit := fun heq => hexit.not_mem (heq ▸ hK.exit_mem)
  show E p l q ∨ (((_ ∧ _) ∨ (_ ∧ _)) ∨ (_ ∧ _)) ∨ (_ ∧ _) ↔ _
  simp only [arc, ne_eq, hne, hne.symm, hin, hout, not_false_iff, true_and]
  tauto

private theorem star_backward (hpath : Path (E ⊔ K.starBridges entry exit) p w exit) :
    (p = entry ∨ p = exit → w ∈ K.language∗) ∧
      (p ∈ K.states → ∃ u v, Path E p u K.exit ∧ v ∈ K.language∗ ∧ u ++ v = w) := by
  refine backward (I := fun p w => (p = entry ∨ p = exit → w ∈ K.language∗) ∧
    (p ∈ K.states → ∃ u v, Path E p u K.exit ∧ v ∈ K.language∗ ∧ u ++ v = w)) ?_ ?_ hpath
  · exact ⟨fun _ => Language.nil_mem_kstar _, fun h => absurd h hexit.not_mem⟩
  · intro p l m w edge hresult
    obtain ⟨hends, hin⟩ := hresult
    rcases (starEdge hK hentry hexit hne).1 edge with old | ⟨rfl, hcases⟩
    · refine ⟨?_, fun hp => ?_⟩
      · intro hcases
        rcases hcases with rfl | rfl
        · exact absurd old (hentry.idle l m)
        · exact absurd old (hexit.idle l m)
      · obtain ⟨u, v, hu, hv, rfl⟩ := hin (hK.closed p hp l m old)
        exact ⟨_, v, .step old hu, hv, List.append_assoc ..⟩
    · rcases hcases with ⟨rfl, rfl⟩ | ⟨rfl, rfl⟩ | ⟨rfl, rfl⟩ | ⟨rfl, rfl⟩
      · exact ⟨fun _ => hends (.inr rfl), fun hp => absurd hp hentry.not_mem⟩
      · refine ⟨fun _ => ?_, fun hp => absurd hp hentry.not_mem⟩
        obtain ⟨u, v, hu, hv, rfl⟩ := hin hK.entry_mem
        show u ++ v ∈ K.language∗
        exact append_mem_kstar ((hK.spells u).1 hu) hv
      · refine ⟨fun _ => hends (.inr rfl), fun _ => ?_⟩
        exact ⟨[], w, .refl _, hends (.inr rfl), rfl⟩
      · exact ⟨fun _ => hends (.inl rfl), fun hp => absurd hp hexit.not_mem⟩

private theorem star_round {words : List (List Symbol)} (hwords : ∀ u ∈ words, u ∈ K.language) :
    Path (E ⊔ K.starBridges entry exit) entry words.flatten exit := by
  have hedge (p q : StateId) := (starEdge (p := p) (q := q) (l := none) hK hentry hexit hne).2
  induction words with
  | nil => exact .single (hedge _ _ (.inr ⟨rfl, .inl ⟨rfl, rfl⟩⟩))
  | cons u words ih =>
    obtain ⟨hu, hwords⟩ := List.forall_mem_cons.1 hwords
    refine .silent (hedge _ K.entry (.inr ⟨rfl, .inr (.inl ⟨rfl, rfl⟩)⟩)) ?_
    refine (((hK.spells u).2 hu).mono (le_sup_left (a := E))).trans ?_
    refine .silent (hedge _ exit (.inr ⟨rfl, .inr (.inr (.inl ⟨rfl, rfl⟩))⟩)) ?_
    exact .silent (hedge _ entry (.inr ⟨rfl, .inr (.inr (.inr ⟨rfl, rfl⟩))⟩)) (ih hwords)

theorem Fits.star : (K.star entry exit).Fits (E ⊔ K.starBridges entry exit) := by
  refine ⟨.inl rfl, .inr (.inl rfl), hne, ?_, fun w => ⟨fun hw => ?_, fun hw => ?_⟩, ?_⟩
  · intro p hp l q edge
    rcases (starEdge hK hentry hexit hne).1 edge with old | ⟨rfl, hcases⟩
    · rcases hp with rfl | rfl | hp
      · exact absurd old (hentry.idle l q)
      · exact absurd old (hexit.idle l q)
      · exact .inr (.inr (hK.closed p hp l q old))
    · rcases hcases with ⟨rfl, rfl⟩ | ⟨rfl, rfl⟩ | ⟨rfl, rfl⟩ | ⟨rfl, rfl⟩
      · exact .inr (.inl rfl)
      · exact .inr (.inr hK.entry_mem)
      · exact .inr (.inl rfl)
      · exact .inl rfl
  · exact (star_backward hK hentry hexit hne hw).1 (.inl rfl)
  · obtain ⟨words, rfl, hwords⟩ := Language.mem_kstar.1 hw
    exact star_round hK hentry hexit hne hwords
  · intro p hcases hp' w hw
    rcases hcases with rfl | rfl | hp
    · exact absurd rfl hp'
    · exact ⟨[], .refl _⟩
    · obtain ⟨u, v, hu, -, -⟩ := (star_backward hK hentry hexit hne hw).2 hp
      have hout := (starEdge (l := none) hK hentry hexit hne).2
        (.inr ⟨rfl, .inr (.inr (.inl ⟨rfl, rfl⟩))⟩)
      exact ⟨_, (hK.lift le_sup_left hentry.not_mem hp hu).trans (.single (l := none) ⟨hne.symm, hout⟩)⟩

end star

/-- One or more passes through a piece, from a new entry to the same exit. -/
def plus (K : Piece) (entry : StateId) : Piece :=
  ⟨insert entry K.states, entry, K.exit, K.language * K.language∗⟩

/-- The bridges of such passes. -/
def plusBridges (K : Piece) (entry : StateId) : Graph := bridge entry K.entry ⊔ bridge K.exit entry

section plus

variable {entry : StateId} (hK : K.Fits E) (hentry : K.Fresh E entry)
include hK hentry

private theorem plusEdge {l : Option Symbol} : (E ⊔ K.plusBridges entry) p l q ↔ E p l q ∨
    l = none ∧ (p = entry ∧ q = K.entry ∨ p = K.exit ∧ q = entry) := by
  have hin : entry ≠ K.entry := fun heq => hentry.not_mem (heq ▸ hK.entry_mem)
  have hout : K.exit ≠ entry := fun heq => hentry.not_mem (heq ▸ hK.exit_mem)
  show E p l q ∨ (_ ∧ _) ∨ (_ ∧ _) ↔ _
  simp only [arc, ne_eq, hin, hout, not_false_iff, true_and]
  tauto

private theorem plus_backward (hpath : Path (E ⊔ K.plusBridges entry) p w K.exit) :
    (p = entry → w ∈ K.language * K.language∗) ∧
      (p ∈ K.states → ∃ u v, Path E p u K.exit ∧ v ∈ K.language∗ ∧ u ++ v = w) := by
  refine backward (I := fun p w => (p = entry → w ∈ K.language * K.language∗) ∧
    (p ∈ K.states → ∃ u v, Path E p u K.exit ∧ v ∈ K.language∗ ∧ u ++ v = w)) ?_ ?_ hpath
  · exact ⟨fun h => absurd (h ▸ hK.exit_mem) hentry.not_mem,
      fun _ => ⟨[], [], .refl _, Language.nil_mem_kstar _, rfl⟩⟩
  · intro p l m w edge hresult
    obtain ⟨hat, hin⟩ := hresult
    rcases (plusEdge hK hentry).1 edge with old | ⟨rfl, ⟨rfl, rfl⟩ | ⟨rfl, rfl⟩⟩
    · refine ⟨?_, fun hp => ?_⟩
      · intro heq
        obtain rfl := heq
        exact absurd old (hentry.idle l m)
      · obtain ⟨u, v, hu, hv, rfl⟩ := hin (hK.closed p hp l m old)
        exact ⟨_, v, .step old hu, hv, List.append_assoc ..⟩
    · refine ⟨fun _ => ?_, fun hp => absurd hp hentry.not_mem⟩
      obtain ⟨u, v, hu, hv, rfl⟩ := hin hK.entry_mem
      show u ++ v ∈ K.language * K.language∗
      exact Language.append_mem_mul ((hK.spells u).1 hu) hv
    · refine ⟨fun h => absurd (h ▸ hK.exit_mem) hentry.not_mem, fun _ => ⟨[], w, .refl _, ?_, rfl⟩⟩
      rw [← Language.one_add_self_mul_kstar_eq_kstar]
      exact .inr (hat rfl)

private theorem plus_round {words : List (List Symbol)} (hwords : ∀ u ∈ words, u ∈ K.language) :
    Path (E ⊔ K.plusBridges entry) K.exit words.flatten K.exit := by
  have hedge (p q : StateId) := (plusEdge (p := p) (q := q) (l := none) hK hentry).2
  induction words with
  | nil => exact .refl _
  | cons u words ih =>
    obtain ⟨hu, hwords⟩ := List.forall_mem_cons.1 hwords
    refine .silent (hedge _ entry (.inr ⟨rfl, .inr ⟨rfl, rfl⟩⟩)) ?_
    refine .silent (hedge _ K.entry (.inr ⟨rfl, .inl ⟨rfl, rfl⟩⟩)) ?_
    exact (((hK.spells u).2 hu).mono (le_sup_left (a := E))).trans (ih hwords)

theorem Fits.plus : (K.plus entry).Fits (E ⊔ K.plusBridges entry) := by
  have hne : entry ≠ K.exit := fun heq => hentry.not_mem (heq ▸ hK.exit_mem)
  refine ⟨.inl rfl, .inr hK.exit_mem, hne, ?_,
    fun w => ⟨fun hw => (plus_backward hK hentry hw).1 rfl, fun hw => ?_⟩, ?_⟩
  · intro p hp l q edge
    rcases (plusEdge hK hentry).1 edge with old | ⟨rfl, ⟨rfl, rfl⟩ | ⟨rfl, rfl⟩⟩
    · rcases hp with rfl | hp
      · exact absurd old (hentry.idle l q)
      · exact .inr (hK.closed p hp l q old)
    · exact .inr hK.entry_mem
    · exact .inl rfl
  · obtain ⟨u, hu, v, hv, rfl⟩ := hw
    obtain ⟨words, rfl, hwords⟩ := Language.mem_kstar.1 hv
    refine .silent ((plusEdge hK hentry).2 (.inr ⟨rfl, .inl ⟨rfl, rfl⟩⟩)) ?_
    exact (((hK.spells u).2 hu).mono (le_sup_left (a := E))).trans (plus_round hK hentry hwords)
  · intro p hcases hp' w hw
    rcases hcases with rfl | hp
    · exact absurd rfl hp'
    · obtain ⟨u, v, hu, -, -⟩ := (plus_backward hK hentry hw).2 hp
      exact ⟨u, hK.lift le_sup_left hentry.not_mem hp hu⟩

end plus

/-- No edge of the piece leads to its entry, and none leaves its exit. -/
structure Open (E : Graph) (K : Piece) : Prop where
  no_in : ∀ p ∈ K.states, ∀ l, ¬ E p l K.entry
  no_out : ∀ l q, ¬ E K.exit l q

/-- If no edge leads to the entry of a piece, no path can come back to it. -/
theorem onward_of_no_in {entry : StateId} {S : Set StateId} (hclosed : ∀ p ∈ S, ∀ l q, E p l q → q ∈ S)
    (hno : ∀ p ∈ S, ∀ l, ¬ E p l entry) (hp : p ∈ S) (hpath : Path E p w q) :
    Path (E.onward entry) p w q := by
  refine (hpath.transport (S := S) (fun p hp l q edge => ?_) hp).2
  exact ⟨hclosed p hp l q edge, fun heq => hno p hp l (heq ▸ edge), edge⟩

theorem Open.eq_nil_of_path (h : K.Open E) (hpath : Path E K.exit w q) : w = [] ∧ q = K.exit := by
  cases hpath with
  | refl _ => exact ⟨rfl, rfl⟩
  | step edge _ => exact absurd edge (h.no_out _ _)

/-- A piece that may be passed by. -/
def optional (K : Piece) : Piece := { K with language := K.language + 1 }

theorem Fits.optional (hK : K.Fits E) (hopen : K.Open E) :
    K.optional.Fits (E ⊔ bridge K.entry K.exit) := by
  have hbridge : (E ⊔ bridge K.entry K.exit) K.entry none K.exit :=
    .inr ⟨hK.entry_ne_exit, rfl, rfl, rfl⟩
  have hclosed : ∀ p ∈ K.states, ∀ l q, (E ⊔ bridge K.entry K.exit) p l q → q ∈ K.states := by
    intro p hp l q hedge
    rcases hedge with edge | ⟨-, rfl, rfl, rfl⟩
    · exact hK.closed p hp l q edge
    · exact hK.exit_mem
  have hno : ∀ p ∈ K.states, ∀ l, ¬ (E ⊔ bridge K.entry K.exit) p l K.entry := by
    intro p hp l hedge
    rcases hedge with edge | ⟨-, -, -, heq⟩
    · exact hopen.no_in p hp l edge
    · exact hK.entry_ne_exit heq
  have hback {p : StateId} {w : List Symbol} (hpath : Path (E ⊔ bridge K.entry K.exit) p w K.exit) :
      p ∈ K.states → Path E p w K.exit ∨ p = K.entry ∧ w = [] := by
    refine backward (I := fun p w => p ∈ K.states → Path E p w K.exit ∨ p = K.entry ∧ w = []) ?_ ?_ hpath
    · exact fun _ => .inl (.refl _)
    · intro p l m w hedge hin hp
      rcases hedge with edge | ⟨-, rfl, rfl, rfl⟩
      · rcases hin (hK.closed p hp l m edge) with hw | ⟨rfl, -⟩
        · exact .inl (.step edge hw)
        · exact absurd edge (hopen.no_in p hp l)
      · rcases hin hK.exit_mem with hw | ⟨heq, -⟩
        · exact .inr ⟨rfl, (hopen.eq_nil_of_path hw).1⟩
        · exact absurd heq.symm hK.entry_ne_exit
  refine ⟨hK.entry_mem, hK.exit_mem, hK.entry_ne_exit, hclosed, fun w => ?_, fun p hp _ w hw => ?_⟩
  · rw [Piece.optional, Language.mem_add, Language.mem_one, ← hK.spells w]
    constructor
    · exact fun hw => (hback hw hK.entry_mem).imp_right And.right
    · intro hcases
      rcases hcases with hw | rfl
      · exact hw.mono (le_sup_left (a := E))
      · exact .single hbridge
  · exact ⟨w, onward_of_no_in hclosed hno hp hw⟩

end Piece

end TableLexer
