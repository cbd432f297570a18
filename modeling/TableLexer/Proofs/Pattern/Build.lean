import TableLexer.Proofs.Builder.Public
import TableLexer.Proofs.Pattern.Atom
import TableLexer.Proofs.Pattern.Denotation
import TableLexer.Proofs.Pattern.Duplicate
import TableLexer.Proofs.Pattern.Pieces

/-! Building a pattern makes a piece for its language out of new states, and leaves all others alone. -/
namespace TableLexer

open Computability

namespace Automaton

variable {a b c : Automaton} {n m : Nat} {new : Graph}

/-- Only edges among the states from `n` on have been added. -/
structure Frame (n : Nat) (a b : Automaton) : Prop where
  keep : ∀ p l q, a.Edge p l q → b.Edge p l q
  added : ∀ p l q, b.Edge p l q → a.Edge p l q ∨ n ≤ p ∧ n ≤ q
  terminal : b.terminal? = a.terminal?
  initial : b.initial = a.initial
  terminals : b.terminals = a.terminals
  definitions : b.definitions = a.definitions

theorem Frame.edge (h : Frame n a b) (p : StateId) (hp : p < n) (l : Option Symbol) (q : StateId) :
    b.Edge p l q ↔ a.Edge p l q :=
  ⟨fun hedge => (h.added p l q hedge).resolve_right fun ⟨hle, _⟩ => Nat.not_le.2 hp hle, h.keep p l q⟩

theorem Frame.refl (n : Nat) (a : Automaton) : Frame n a a :=
  ⟨fun _ _ _ => id, fun _ _ _ => .inl, rfl, rfl, rfl, rfl⟩

theorem Frame.trans (h : Frame n a b) (h' : Frame m b c) (hle : n ≤ m) : Frame n a c where
  keep p l q hedge := h'.keep p l q (h.keep p l q hedge)
  added p l q hedge := by
    rcases h'.added p l q hedge with hedge | ⟨hp, hq⟩
    · exact h.added p l q hedge
    · exact .inr ⟨Nat.le_trans hle hp, Nat.le_trans hle hq⟩
  terminal := h'.terminal.trans h.terminal
  initial := h'.initial.trans h.initial
  terminals := h'.terminals.trans h.terminals
  definitions := h'.definitions.trans h.definitions

theorem Adds.frame (h : a.Adds b new) (hnew : ∀ p l q, new p l q → n ≤ p ∧ n ≤ q) : Frame n a b where
  keep _ _ _ hedge := h.edge_iff.2 (.inl hedge)
  added p l q hedge := (h.edge_iff.1 hedge).imp_right (hnew p l q)
  terminal := h.terminal
  initial := h.initial
  terminals := h.terminals
  definitions := h.definitions

/-- A piece of the automaton whose states accept nothing themselves. -/
structure Has (a : Automaton) (K : Piece) : Prop where
  fits : K.Fits a.Edge
  lt : ∀ p ∈ K.states, p < a.size
  silent : ∀ p ∈ K.states, a.terminal? p = none

theorem Has.keep {K : Piece} (h : a.Has K) (hgrows : a.Grows b) (hframe : Frame a.size a b) :
    b.Has K where
  fits := h.fits.congr fun p hp => hframe.edge p (h.lt p hp)
  lt p hp := Nat.lt_of_lt_of_le (h.lt p hp) hgrows.size_le
  silent p hp := by
    rw [hframe.terminal]
    exact h.silent p hp

/-- A piece has been built out of states that were not there before. -/
structure Builds (a b : Automaton) (K : Piece) : Prop where
  frame : Frame a.size a b
  fits : K.Fits b.Edge
  bounds : ∀ p ∈ K.states, a.size ≤ p ∧ p < b.size

theorem Builds.has {K : Piece} (h : Builds a b K) : b.Has K where
  fits := h.fits
  lt p hp := (h.bounds p hp).2
  silent p hp := by
    rw [h.frame.terminal]
    exact terminal?_eq_none (h.bounds p hp).1

/-- Pieces have been built one after the other, each out of states that were not there before. -/
structure BuildsAll (a b : Automaton) (Ks : List Piece) : Prop where
  frame : Frame a.size a b
  fits : ∀ K ∈ Ks, K.Fits b.Edge
  bounds : ∀ K ∈ Ks, ∀ p ∈ K.states, a.size ≤ p ∧ p < b.size
  apart : Piece.Apart Ks

namespace Builds

variable {K : Piece}

theorem size_le (h : Builds a b K) : a.size ≤ b.size :=
  Nat.le_trans (h.bounds _ h.fits.entry_mem).1 (Nat.le_of_lt (h.bounds _ h.fits.entry_mem).2)

theorem fresh (h : Builds a b K) {p : StateId} (hp : b.size ≤ p) : K.Fresh b.Edge p where
  not_mem hmem := Nat.not_le.2 (h.bounds p hmem).2 hp
  idle := idle_of_size_le hp

/-- A piece that takes in new states is one of states that were not there before, either. -/
private theorem extend {M : Piece} (h : Builds a b K) (hsize : b.size ≤ c.size) (hadds : b.Adds c new)
    (hnew : ∀ p l q, new p l q → a.size ≤ p ∧ a.size ≤ q) (hM : M.Fits (b.Edge ⊔ new))
    (hstates : ∀ p ∈ M.states, p ∈ K.states ∨ b.size ≤ p ∧ p < c.size) : Builds a c M where
  frame := h.frame.trans (hadds.frame hnew) (Nat.le_refl _)
  fits := hadds.edge ▸ hM
  bounds p hp := by
    rcases hstates p hp with hp | ⟨hle, hlt⟩
    · exact ⟨(h.bounds p hp).1, Nat.lt_of_lt_of_le (h.bounds p hp).2 hsize⟩
    · exact ⟨Nat.le_trans h.size_le hle, hlt⟩

theorem star (h : Builds a b K) (howns : c.owns ⟨b.size, b.size + 1⟩)
    (hadds : b.Adds c (K.starBridges b.size (b.size + 1))) :
    Builds a c (K.star b.size (b.size + 1)) := by
  obtain ⟨hentry, hexit⟩ := owns_iff.1 howns
  have hle := h.size_le
  have hin := (h.bounds _ h.fits.entry_mem).1
  have hout := (h.bounds _ h.fits.exit_mem).1
  refine h.extend (Nat.le_of_lt hentry) hadds ?_ (h.fits.star (h.fresh (Nat.le_refl _))
    (h.fresh (Nat.le_succ _)) (Nat.ne_of_lt (Nat.lt_succ_self _))) ?_
  · intro p l q hcases
    rcases hcases with ((⟨-, rfl, -, rfl⟩ | ⟨-, rfl, -, rfl⟩) | ⟨-, rfl, -, rfl⟩) | ⟨-, rfl, -, rfl⟩
    · exact ⟨hle, Nat.le_succ_of_le hle⟩
    · exact ⟨hle, hin⟩
    · exact ⟨hout, Nat.le_succ_of_le hle⟩
    · exact ⟨Nat.le_succ_of_le hle, hle⟩
  · intro p hcases
    rcases hcases with rfl | rfl | hp
    · exact .inr ⟨Nat.le_refl _, hentry⟩
    · exact .inr ⟨Nat.le_succ _, hexit⟩
    · exact .inl hp

theorem plus (h : Builds a b K) (howns : c.owns ⟨b.size, K.exit⟩)
    (hadds : b.Adds c (K.plusBridges b.size)) : Builds a c (K.plus b.size) := by
  have hentry := (owns_iff.1 howns).1
  have hin := (h.bounds _ h.fits.entry_mem).1
  have hout := (h.bounds _ h.fits.exit_mem).1
  refine h.extend (Nat.le_of_lt hentry) hadds ?_ (h.fits.plus (h.fresh (Nat.le_refl _))) ?_
  · intro p l q hcases
    rcases hcases with ⟨-, rfl, -, rfl⟩ | ⟨-, rfl, -, rfl⟩
    · exact ⟨h.size_le, hin⟩
    · exact ⟨hout, h.size_le⟩
  · intro p hcases
    rcases hcases with rfl | hp
    · exact .inr ⟨Nat.le_refl _, hentry⟩
    · exact .inl hp

theorem optional (h : Builds a b K) (hopen : K.Open b.Edge) (hsize : b.size ≤ c.size)
    (hadds : b.Adds c (bridge K.entry K.exit)) : Builds a c K.optional := by
  refine h.extend hsize hadds ?_ (h.fits.optional hopen) fun p hp => .inl hp
  intro p l q hbridge
  obtain ⟨-, rfl, -, rfl⟩ := hbridge
  exact ⟨(h.bounds _ h.fits.entry_mem).1, (h.bounds _ h.fits.exit_mem).1⟩

/-- What has been built counts as built since an earlier time. -/
theorem since (hframe : Frame a.size a b) (hsize : a.size ≤ b.size) (h : Builds b c K) :
    Builds a c K where
  frame := hframe.trans h.frame hsize
  fits := h.fits
  bounds p hp := ⟨Nat.le_trans hsize (h.bounds p hp).1, (h.bounds p hp).2⟩

theorem atom (howns : b.owns ⟨a.size, a.size + 1⟩) (hadds : a.Adds b new)
    (hnew : ∀ p l q, new p l q → p = a.size ∧ q = a.size + 1) :
    Builds a b (Piece.atom new a.size (a.size + 1)) ∧
      (Piece.atom new a.size (a.size + 1)).Open b.Edge := by
  obtain ⟨hentry, hexit⟩ := owns_iff.1 howns
  obtain ⟨hfits, hopen⟩ := Piece.fits_atom (Nat.ne_of_lt (Nat.lt_succ_self a.size))
    (idle_of_size_le (Nat.le_refl _)) (idle_of_size_le (Nat.le_succ _)) hnew
  rw [← hadds.edge] at hfits hopen
  refine ⟨⟨hadds.frame fun p l q h => ?_, hfits, ?_⟩, hopen⟩
  · obtain ⟨rfl, rfl⟩ := hnew p l q h
    exact ⟨Nat.le_refl _, Nat.le_succ _⟩
  · intro p hcases
    rcases hcases with rfl | rfl
    · exact ⟨Nat.le_refl _, hentry⟩
    · exact ⟨Nat.le_succ _, hexit⟩

theorem ofChain {w : List Symbol} (hw : w ≠ [])
    (howns : b.owns ⟨a.size, chainEnd a.size (a.size + 1) w⟩)
    (hadds : a.Adds b (chain a.size (a.size + 1) w)) :
    Builds a b (Piece.ofChain a.size (a.size + 1) w) ∧
      (Piece.ofChain a.size (a.size + 1) w).Open b.Edge := by
  obtain ⟨hfits, hopen⟩ := Piece.fits_ofChain hw (Nat.lt_succ_self a.size)
    (idle_of_size_le (Nat.le_refl _)) fun p hp => idle_of_size_le (Nat.le_of_succ_le hp)
  rw [← hadds.edge] at hfits hopen
  have hexit : chainEnd a.size (a.size + 1) w < b.size := (owns_iff.1 howns).2
  refine ⟨⟨hadds.frame fun p l q h => ?_, hfits, fun p hp => ?_⟩, hopen⟩
  · obtain ⟨hp | hle, hq, -⟩ := Piece.chain_bounds h
    · exact ⟨Nat.le_of_eq hp.symm, Nat.le_of_succ_le hq⟩
    · exact ⟨Nat.le_of_succ_le hle, Nat.le_of_succ_le hq⟩
  · cases w with
    | nil => exact absurd rfl hw
    | cons s w =>
      rw [Piece.chainEnd_cons] at hexit
      have hentry : a.size < b.size := by omega
      rcases hp with rfl | ⟨hle, hlt⟩
      · exact ⟨Nat.le_refl _, hentry⟩
      · rw [List.length_cons] at hlt
        exact ⟨Nat.le_of_succ_le hle, Nat.lt_of_lt_of_le hlt (by omega)⟩

/-- A copy of a piece stands for the same language. -/
theorem copy {g : Fragment} (ha : a.WellFormed) (hK : a.Has K)
    (h : Builder.Copied a b K.fragment g) :
    ∃ M : Piece, M.fragment = g ∧ M.language = K.language ∧ Builds a b M := by
  have hnames := Piece.names_of_copied ha hK.fits h
  have hbounds {p q : StateId} (hmem : (p, q) ∈ (a.members K.fragment).zipIdx a.size) :
      a.size ≤ q ∧ q < b.size := h.bounds hmem
  have hsilent : ∀ id ∈ a.members K.fragment, a.terminal? id = none := by
    intro id hid
    obtain ⟨i, hi⟩ := List.getElem?_of_mem hid
    refine hK.silent id (hnames.mem id (a.size + i) ?_)
    exact List.mem_zipIdx_iff_le_and_getElem?_sub.2 ⟨Nat.le_add_right .., by simpa using hi⟩
  have hadds := h.adds hsilent
  refine ⟨K.duplicate ((a.members K.fragment).zipIdx a.size) g.entry g.exit, rfl, rfl,
    hadds.frame ?_, ?_, ?_⟩
  · intro p l q hstate
    obtain ⟨p', q', hp, hq, -⟩ := hstate
    exact ⟨(hbounds hp).1, (hbounds hq).1⟩
  · rw [hadds.edge]
    exact hK.fits.duplicate hnames
  · intro q hstate
    obtain ⟨p, hp⟩ := hstate
    exact hbounds hp

end Builds

namespace BuildsAll

variable {K : Piece} {Ks : List Piece}

theorem nil (a : Automaton) : BuildsAll a a [] where
  frame := .refl _ a
  fits K hK := by simp at hK
  bounds K hK := by simp at hK
  apart := List.Pairwise.nil

/-- A piece that is built after some others. -/
theorem after (h : BuildsAll a b Ks) (hK : Builds b c K) (hsize : a.size ≤ b.size) :
    BuildsAll a c (K :: Ks) where
  frame := h.frame.trans hK.frame hsize
  fits := List.forall_mem_cons.2 ⟨hK.fits, fun M hM => (h.fits M hM).congr fun p hp =>
    hK.frame.edge p (h.bounds M hM p hp).2⟩
  bounds := List.forall_mem_cons.2
    ⟨fun p hp => ⟨Nat.le_trans hsize (hK.bounds p hp).1, (hK.bounds p hp).2⟩,
      fun M hM p hp => ⟨(h.bounds M hM p hp).1, Nat.lt_of_lt_of_le (h.bounds M hM p hp).2 hK.size_le⟩⟩
  apart := List.pairwise_cons.2 ⟨fun M hM => Set.disjoint_left.2 fun p hp hp' =>
    absurd (hK.bounds p hp).1 (Nat.not_le.2 (h.bounds M hM p hp').2), h.apart⟩

/-- A piece that is built before some others. -/
theorem before (hK : Builds a b K) (h : BuildsAll b c Ks) (hsize : b.size ≤ c.size) :
    BuildsAll a c (K :: Ks) where
  frame := hK.frame.trans h.frame hK.size_le
  fits := List.forall_mem_cons.2 ⟨hK.fits.congr fun p hp => h.frame.edge p (hK.bounds p hp).2, h.fits⟩
  bounds := List.forall_mem_cons.2
    ⟨fun p hp => ⟨(hK.bounds p hp).1, Nat.lt_of_lt_of_le (hK.bounds p hp).2 hsize⟩,
      fun M hM p hp => ⟨Nat.le_trans hK.size_le (h.bounds M hM p hp).1, (h.bounds M hM p hp).2⟩⟩
  apart := List.pairwise_cons.2 ⟨fun M hM => Set.disjoint_left.2 fun p hp hp' =>
    absurd (h.bounds M hM p hp').1 (Nat.not_le.2 (hK.bounds p hp).2), h.apart⟩

theorem reverse (h : BuildsAll a b Ks) : BuildsAll a b Ks.reverse where
  frame := h.frame
  fits K hK := h.fits K (List.mem_reverse.1 hK)
  bounds K hK := h.bounds K (List.mem_reverse.1 hK)
  apart := List.pairwise_reverse.2 (h.apart.imp fun hd => hd.symm)

private theorem ends_of_joints {first : Fragment} {parts : List Fragment} {p q : StateId}
    {l : Option Symbol} (h : joints first parts p l q) :
    (∃ part ∈ first :: parts, p = part.exit) ∧ ∃ part ∈ parts, q = part.entry := by
  induction parts generalizing first with
  | nil => exact h.elim
  | cons part parts ih =>
    rcases h with ⟨-, rfl, -, rfl⟩ | h
    · exact ⟨⟨first, List.mem_cons_self, rfl⟩, part, List.mem_cons_self, rfl⟩
    · obtain ⟨⟨left, hleft, rfl⟩, right, hright, rfl⟩ := ih h
      refine ⟨?_, right, List.mem_cons_of_mem _ hright, rfl⟩
      rcases List.mem_cons.1 hleft with rfl | hleft
      · exact ⟨part, List.mem_cons_of_mem _ List.mem_cons_self, rfl⟩
      · exact ⟨left, List.mem_cons_of_mem _ (List.mem_cons_of_mem _ hleft), rfl⟩

/-- Pieces that have been built are put in a row. -/
theorem sequence (h : BuildsAll a b Ks) (hb : b.WellFormed) (hsize : a.size ≤ b.size) :
    Builder.Leads (Builder.sequence (Ks.map Piece.fragment)) b fun f c =>
      ∃ K : Piece, K.fragment = f ∧ K.language = (Ks.map Piece.language).prod ∧ Builds a c K := by
  cases Ks with
  | nil =>
    refine (Builder.Leads.epsilon hb).mono ?_
    intro f c _ hadded
    obtain ⟨rfl, howns, hadds⟩ := hadded
    refine ⟨_, rfl, Piece.language_atom_bridge b.size, ?_⟩
    exact .since h.frame hsize (Builds.atom howns hadds fun p l q h => ⟨h.2.1, h.2.2.2⟩).1
  | cons K Ks =>
    refine (Builder.Leads.foldlM_append hb K.fragment).mono ?_
    intro f c hc hadded
    obtain ⟨rfl, hadds⟩ := hadded
    obtain ⟨hK, hKs⟩ := List.forall_mem_cons.1 h.fits
    refine ⟨K.row Ks, K.fragment_row Ks, K.language_row Ks, ?_, ?_, fun p hp => ?_⟩
    · refine h.frame.trans (hadds.frame fun p l q hnew => ?_) (Nat.le_refl _)
      obtain ⟨⟨left, hleft, rfl⟩, right, hright, rfl⟩ := ends_of_joints hnew
      rw [← List.map_cons] at hleft
      obtain ⟨M, hM, rfl⟩ := List.mem_map.1 hleft
      obtain ⟨N, hN, rfl⟩ := List.mem_map.1 hright
      exact ⟨(h.bounds M hM _ (h.fits M hM).exit_mem).1,
        (h.bounds N (.tail _ hN) _ (h.fits N (.tail _ hN)).entry_mem).1⟩
    · rw [hadds.edge]
      exact hK.row hKs h.apart
    · obtain ⟨M, hM, hp⟩ := (Piece.mem_states_row K Ks).1 hp
      exact ⟨(h.bounds M hM p hp).1, Nat.lt_of_lt_of_le (h.bounds M hM p hp).2 hc.size_le⟩

/-- Pieces that have been built are put side by side. -/
theorem alternate (h : BuildsAll a b Ks) (hb : b.WellFormed) (hsize : a.size ≤ b.size) :
    Builder.Leads (Builder.alternate (Ks.map Piece.fragment)) b fun f c =>
      ∃ K : Piece, K.fragment = f ∧ K.language = (Ks.map Piece.language).sum ∧ Builds a c K ∧
        K.Open c.Edge := by
  refine (Builder.Leads.alternate hb (Ks.map Piece.fragment)).mono ?_
  intro f c hc hadded
  obtain ⟨rfl, howns, -, hadds⟩ := hadded
  obtain ⟨hentry, hexit⟩ := owns_iff.1 howns
  have hnot (p : StateId) (hp : b.size ≤ p) (K : Piece) (hK : K ∈ Ks) : p ∉ K.states := fun hmem =>
    Nat.not_le.2 (h.bounds K hK p hmem).2 hp
  have hframed : Piece.Framed b.Edge Ks b.size (b.size + 1) :=
    ⟨h.fits, h.apart, Nat.ne_of_lt (Nat.lt_succ_self _), hnot _ (Nat.le_refl _),
      hnot _ (Nat.le_succ _), idle_of_size_le (Nat.le_refl _), idle_of_size_le (Nat.le_succ _)⟩
  have hedge : c.Edge = b.Edge ⊔ Piece.choiceBridges Ks b.size (b.size + 1) := by
    rw [hadds.edge]
    congr 1
    funext p l q
    simp [Piece.choiceBridges, Piece.fragment]
  refine ⟨Piece.choice Ks b.size (b.size + 1), rfl, rfl, ⟨?_, ?_, ?_⟩, ?_⟩
  · refine h.frame.trans (hadds.frame ?_) (Nat.le_refl _)
    intro p l q hresult
    obtain ⟨part, hpart, hbridge⟩ := hresult
    obtain ⟨K, hK, rfl⟩ := List.mem_map.1 hpart
    rcases hbridge with ⟨-, rfl, -, rfl⟩ | ⟨-, rfl, -, rfl⟩
    · exact ⟨hsize, (h.bounds K hK _ (h.fits K hK).entry_mem).1⟩
    · exact ⟨(h.bounds K hK _ (h.fits K hK).exit_mem).1, Nat.le_succ_of_le hsize⟩
  · rw [hedge]
    exact hframed.choice_fits
  · intro p hcases
    rcases hcases with (rfl | rfl) | ⟨K, hK, hp⟩
    · exact ⟨hsize, hentry⟩
    · exact ⟨Nat.le_succ_of_le hsize, hexit⟩
    · exact ⟨(h.bounds K hK p hp).1, Nat.lt_of_lt_of_le (h.bounds K hK p hp).2 hc.size_le⟩
  · rw [hedge]
    exact hframed.choice_open

end BuildsAll

end Automaton

end TableLexer
