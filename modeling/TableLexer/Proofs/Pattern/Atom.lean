import TableLexer.Proofs.Builder.Combinators
import TableLexer.Proofs.Pattern.Piece

/-! The pieces that patterns start from: a choice of single edges, and a chain of symbols. No edge leads
to their entry, and none leaves their exit. -/
namespace TableLexer

namespace Piece

variable {E new : Graph} {entry exit : StateId}

/-- The piece of some edges from an entry to an exit. -/
def atom (new : Graph) (entry exit : StateId) : Piece :=
  ⟨{entry, exit}, entry, exit, fun w => ∃ l, new entry l exit ∧ l.toList = w⟩

theorem fits_atom (hne : entry ≠ exit) (hentry : ∀ l q, ¬ E entry l q) (hexit : ∀ l q, ¬ E exit l q)
    (hnew : ∀ p l q, new p l q → p = entry ∧ q = exit) :
    (atom new entry exit).Fits (E ⊔ new) ∧ (atom new entry exit).Open (E ⊔ new) := by
  have hedge {p q : StateId} {l : Option Symbol} (hp : p ∈ ({entry, exit} : Set StateId))
      (edge : (E ⊔ new) p l q) : p = entry ∧ q = exit ∧ new p l q := by
    rcases edge with edge | edge
    · rcases hp with rfl | rfl
      · exact absurd edge (hentry l q)
      · exact absurd edge (hexit l q)
    · exact ⟨(hnew p l q edge).1, (hnew p l q edge).2, edge⟩
  have hopen : (atom new entry exit).Open (E ⊔ new) :=
    ⟨fun p hp l edge => hne (hedge hp edge).2.1, fun l q edge => hne (hedge (.inr rfl) edge).1.symm⟩
  have hclosed : ∀ p ∈ ({entry, exit} : Set StateId), ∀ l q, (E ⊔ new) p l q →
      q ∈ ({entry, exit} : Set StateId) := fun p hp l q edge => .inr (hedge hp edge).2.1
  refine ⟨⟨.inl rfl, .inr rfl, hne, hclosed, fun w => ?_, fun p hp _ w hw => ⟨w, ?_⟩⟩, hopen⟩
  · constructor
    · intro hw
      cases hw with
      | refl _ => exact absurd rfl hne
      | @step _ q _ l w edge rest =>
        obtain ⟨-, rfl, hl⟩ := hedge (.inl rfl) edge
        obtain ⟨rfl, -⟩ := hopen.eq_nil_of_path rest
        exact ⟨l, hl, (List.append_nil _).symm⟩
    · intro hresult
      obtain ⟨l, hl, rfl⟩ := hresult
      exact .single (.inr hl)
  · exact onward_of_no_in hclosed hopen.no_in hp hw

theorem language_atom_bridge (entry : StateId) :
    (atom (bridge entry (entry + 1)) entry (entry + 1)).language = 1 := by
  ext w
  rw [Language.mem_one]
  constructor
  · intro hbridge
    obtain ⟨l, ⟨-, -, rfl, -⟩, rfl⟩ := hbridge
    rfl
  · intro heq
    obtain rfl := heq
    exact ⟨none, ⟨Nat.ne_of_lt (Nat.lt_succ_self entry), rfl, rfl, rfl⟩, rfl⟩

/-- The states of a chain, the first of which comes before the others. -/
def chainStates (last next : Nat) (w : List Symbol) : Set StateId :=
  {p | p = last ∨ next ≤ p ∧ p < next + w.length}

/-- The piece of a chain. -/
def ofChain (last next : Nat) (w : List Symbol) : Piece :=
  ⟨chainStates last next w, last, chainEnd last next w, {w}⟩

section chain

variable {last next p q : Nat} {w : List Symbol} {l : Option Symbol}

theorem chain_bounds (h : chain last next w p l q) :
    (p = last ∨ next ≤ p) ∧ next ≤ q ∧ q < next + w.length := by
  induction w generalizing last next with
  | nil => exact h.elim
  | cons s w ih =>
    rw [List.length_cons]
    rcases h with ⟨rfl, -, rfl⟩ | h
    · exact ⟨.inl rfl, Nat.le_refl _, by omega⟩
    · obtain ⟨hp, hq, hlt⟩ := ih h
      exact ⟨.inr (by omega), by omega, by omega⟩

theorem chainEnd_cons (last next : Nat) (s : Symbol) (w : List Symbol) :
    chainEnd last next (s :: w) = next + w.length := by
  induction w generalizing last next s with
  | nil => rfl
  | cons t w ih =>
    rw [chainEnd, ih, List.length_cons]
    omega

theorem le_chainEnd (last : Nat) (w : List Symbol) : last ≤ chainEnd last (last + 1) w := by
  cases w with
  | nil => exact Nat.le_refl _
  | cons s w =>
    rw [chainEnd_cons]
    omega

/-- Every state of a chain from which an edge leaves comes before its end. -/
theorem lt_chainEnd (hlt : last < next) (h : chain last next w p l q) : p < chainEnd last next w := by
  induction w generalizing last next with
  | nil => exact h.elim
  | cons s w ih =>
    rw [chainEnd]
    rcases h with ⟨rfl, -, rfl⟩ | h
    · exact Nat.lt_of_lt_of_le hlt (le_chainEnd q w)
    · exact ih (Nat.lt_succ_self next) h

private theorem chain_path (last next : Nat) (w : List Symbol) :
    Path (chain last next w) last w (chainEnd last next w) := by
  induction w generalizing last next with
  | nil => exact .refl _
  | cons s w ih =>
    refine .symbol (.inl ⟨rfl, rfl, rfl⟩) ((ih next (next + 1)).mono ?_)
    exact fun _ _ _ edge => .inr edge

private theorem eq_of_chain_path {v : List Symbol} (hlt : last < next)
    (hpath : Path (chain last next w) last v (chainEnd last next w)) : v = w := by
  induction w generalizing last next v with
  | nil =>
    cases hpath with
    | refl _ => rfl
    | step edge _ => exact edge.elim
  | cons s w ih =>
    rw [chainEnd] at hpath
    have hend : last < chainEnd next (next + 1) w := Nat.lt_of_lt_of_le hlt (le_chainEnd next w)
    generalize hgoal : chainEnd next (next + 1) w = goal at hpath hend
    cases hpath with
    | refl _ => exact absurd hend (Nat.lt_irrefl last)
    | @step _ q _ l v edge rest =>
      rcases edge with ⟨-, rfl, rfl⟩ | edge
      · refine congrArg (s :: ·) (@ih q (q + 1) v (Nat.lt_succ_self q) ?_)
        rw [hgoal]
        refine (rest.transport (S := {p | q ≤ p}) ?_ (Nat.le_refl q)).2
        intro p hp l m hedge
        rcases hedge with ⟨rfl, -⟩ | edge
        · exact absurd hlt (Nat.not_lt.2 hp)
        · exact ⟨Nat.le_of_succ_le (chain_bounds edge).2.1, edge⟩
      · rcases (chain_bounds edge).1 with heq | hle <;> omega

/-- A chain of at least one symbol, through states that have no other edges, spells its word. -/
theorem fits_ofChain (hw : w ≠ []) (hlt : last < next) (hlast : ∀ l q, ¬ E last l q)
    (hfresh : ∀ p, next ≤ p → ∀ l q, ¬ E p l q) :
    (ofChain last next w).Fits (E ⊔ chain last next w) ∧
      (ofChain last next w).Open (E ⊔ chain last next w) := by
  have hend : next ≤ chainEnd last next w ∧ chainEnd last next w < next + w.length := by
    cases w with
    | nil => exact absurd rfl hw
    | cons s w =>
      rw [chainEnd_cons, List.length_cons]
      omega
  have hedge {p q : StateId} {l : Option Symbol} (hp : p ∈ chainStates last next w)
      (edge : (E ⊔ chain last next w) p l q) : chain last next w p l q := by
    rcases edge with edge | edge
    · rcases hp with rfl | ⟨hle, -⟩
      · exact absurd edge (hlast l q)
      · exact absurd edge (hfresh p hle l q)
    · exact edge
  have hclosed : ∀ p ∈ chainStates last next w, ∀ l q, (E ⊔ chain last next w) p l q →
      q ∈ chainStates last next w := fun p hp l q edge => .inr (chain_bounds (hedge hp edge)).2
  have hopen : (ofChain last next w).Open (E ⊔ chain last next w) := by
    refine ⟨fun p hp l edge => ?_, fun l q edge => ?_⟩
    · exact absurd (chain_bounds (hedge hp edge)).2.1 (Nat.not_le.2 hlt)
    · exact Nat.lt_irrefl _ (lt_chainEnd hlt (hedge (.inr hend) edge))
  refine ⟨⟨.inl rfl, .inr hend, Nat.ne_of_lt (Nat.lt_of_lt_of_le hlt hend.1), hclosed, fun w' => ?_,
    fun p hp _ w' hw' => ⟨w', onward_of_no_in hclosed hopen.no_in hp hw'⟩⟩, hopen⟩
  constructor
  · intro hpath
    refine eq_of_chain_path hlt (hpath.transport (S := chainStates last next w) ?_ (.inl rfl)).2
    exact fun p hp l q edge => ⟨hclosed p hp l q edge, hedge hp edge⟩
  · intro heq
    obtain rfl := heq
    exact (chain_path last next w').mono fun _ _ _ edge => .inr edge

end chain

end Piece

end TableLexer
