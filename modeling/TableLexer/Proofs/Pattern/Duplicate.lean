import TableLexer.Proofs.Builder.Copy
import TableLexer.Proofs.Pattern.Piece

/-! A copy of a piece stands for the same language. Since the exit of a piece can be reached without
coming back to the entry, the states that are copied are all that its paths go through. -/
namespace TableLexer

namespace Piece

/-- Some states of a piece with new names: its entry, and all states on a way from it to its exit. -/
structure Names (E : Graph) (K : Piece) (pairs : List (StateId × StateId)) (entry exit : StateId) :
    Prop where
  entry_mem : (K.entry, entry) ∈ pairs
  exit_mem : (K.exit, exit) ∈ pairs
  functional : ∀ p q q', (p, q) ∈ pairs → (p, q') ∈ pairs → q = q'
  injective : ∀ p p' q, (p, q) ∈ pairs → (p', q) ∈ pairs → p = p'
  mem : ∀ p q, (p, q) ∈ pairs → p ∈ K.states
  reached : ∀ p q, (p, q) ∈ pairs → p = K.exit ∨ ∃ w, Path E K.entry w p
  named : ∀ p, (∃ w, Path E K.entry w p) → (∃ w, Path (E.onward K.entry) p w K.exit) →
    ∃ q, (p, q) ∈ pairs
  unused : ∀ p q, (p, q) ∈ pairs → ∀ l m, ¬ E q l m

/-- The new states of a piece. -/
def duplicate (K : Piece) (pairs : List (StateId × StateId)) (entry exit : StateId) : Piece :=
  ⟨{q | ∃ p, (p, q) ∈ pairs}, entry, exit, K.language⟩

variable {E F : Graph} {K : Piece} {pairs : List (StateId × StateId)} {entry exit p q : StateId}
  {w : List Symbol}

/-- A path to the exit goes through named states, from one that can be reached from the entry on. -/
private theorem Names.forward (hK : K.Fits E) (h : K.Names E pairs entry exit)
    (hF : ∀ p l q, F p l q → E p l q) (hpath : Path F p w K.exit) (hpq : (p, q) ∈ pairs)
    (hreached : ∃ w, Path E K.entry w p) :
    Path (duplicated pairs F) q w exit := by
  generalize hend : K.exit = r at hpath
  induction hpath generalizing q with
  | refl p =>
    subst hend
    obtain rfl := h.functional _ _ _ hpq h.exit_mem
    exact .refl _
  | @step p m r l w edge rest ih =>
    obtain ⟨u, hu⟩ := hreached
    have hm := hK.closed p (h.mem p q hpq) l m (hF p l m edge)
    have hreached : ∃ w, Path E K.entry w m := ⟨_, hu.trans (.single (hF p l m edge))⟩
    obtain ⟨q', hq'⟩ : ∃ q', (m, q') ∈ pairs := by
      by_cases hentry : m = K.entry
      · exact ⟨entry, hentry ▸ h.entry_mem⟩
      · exact h.named m hreached (hK.onward m hm hentry w (hend ▸ rest.mono hF))
    exact .step ⟨p, m, hpq, hq', edge⟩ (ih hq' hreached hend)

private theorem Names.backward (h : K.Names E pairs entry exit)
    (hpath : Path (E ⊔ duplicated pairs E) q w exit) (hpq : (p, q) ∈ pairs) : Path E p w K.exit := by
  refine Piece.backward (I := fun q w => ∀ p, (p, q) ∈ pairs → Path E p w K.exit) ?_ ?_ hpath p hpq
  · intro p hp
    obtain rfl := h.injective _ _ _ hp h.exit_mem
    exact .refl _
  · intro q l m w hedge ih p hp
    rcases hedge with edge | ⟨p', q', hp', hq', edge⟩
    · exact absurd edge (h.unused p q hp l m)
    · obtain rfl := h.injective _ _ _ hp hp'
      exact .step edge (ih q' hq')

theorem Fits.duplicate (hK : K.Fits E) (h : K.Names E pairs entry exit) :
    (K.duplicate pairs entry exit).Fits (E ⊔ duplicated pairs E) := by
  refine ⟨⟨_, h.entry_mem⟩, ⟨_, h.exit_mem⟩, fun heq => ?_, ?_, fun w => ?_, ?_⟩
  · exact hK.entry_ne_exit (h.injective _ _ _ h.entry_mem
      ((show entry = exit from heq) ▸ h.exit_mem))
  · intro q hstate l m hedge
    obtain ⟨p, hp⟩ := hstate
    rcases hedge with edge | ⟨p', q', hp', hq', edge⟩
    · exact absurd edge (h.unused p q hp l m)
    · exact ⟨q', hq'⟩
  · rw [Piece.duplicate, ← hK.spells]
    constructor
    · exact fun hw => h.backward hw h.entry_mem
    · exact fun hw => (h.forward hK (fun _ _ _ => id) hw h.entry_mem ⟨[], .refl _⟩).mono (le_sup_right (a := E))
  · intro q hstate hne w hw
    obtain ⟨p, hp⟩ := hstate
    have hne' : p ≠ K.entry := by
      intro heq
      obtain rfl := heq
      exact hne (h.functional _ _ _ hp h.entry_mem)
    rcases h.reached p q hp with rfl | hreached
    · obtain rfl := h.functional _ _ _ hp h.exit_mem
      exact ⟨[], .refl _⟩
    obtain ⟨w', hw'⟩ := hK.onward p (h.mem p q hp) hne' w (h.backward hw hp)
    refine ⟨w', (h.forward hK (fun _ _ _ edge => edge.2) hw' hp hreached).mono ?_⟩
    intro q l m hedge
    obtain ⟨p, p', hp, hp', hback, edge⟩ := hedge
    refine ⟨?_, .inr ⟨p, p', hp, hp', edge⟩⟩
    intro heq
    obtain rfl := heq
    exact hback (h.injective _ _ _ hp' h.entry_mem)

/-- Copying the fragment of a piece names its states. -/
theorem names_of_copied {a b : Automaton} {g : Fragment} (ha : a.WellFormed) (hK : K.Fits a.Edge)
    (h : Builder.Copied a b K.fragment g) :
    K.Names a.Edge ((a.members K.fragment).zipIdx a.size) g.entry g.exit := by
  have hmem {p q : StateId} (hpq : (p, q) ∈ (a.members K.fragment).zipIdx a.size) :
      a.size ≤ q ∧ (a.members K.fragment)[q - a.size]? = some p :=
    List.mem_zipIdx_iff_le_and_getElem?_sub.1 hpq
  have hmembers {p q : StateId} (hpq : (p, q) ∈ (a.members K.fragment).zipIdx a.size) :=
    (Automaton.mem_members ha h.owns hK.entry_ne_exit).1 (List.mem_of_getElem? (hmem hpq).2)
  have hin {p : StateId} {w : List Symbol} (hpath : Path a.Edge K.entry w p) : p ∈ K.states :=
    (hpath.transport (fun p hp l q edge => ⟨hK.closed p hp l q edge, edge⟩) hK.entry_mem).1
  refine ⟨h.entry, h.exit, fun p q q' hq hq' => ?_, fun p p' q hp hp' => ?_, fun p q hpq => ?_,
    fun p q hpq => ?_, fun p hreached honward => ?_, fun p q hpq => ?_⟩
  · exact congrArg Prod.snd (List.inj_on_of_nodup_map (Builder.nodup_old a K.fragment) hq hq' rfl)
  · exact congrArg Prod.fst (List.inj_on_of_nodup_map (Builder.nodup_new a K.fragment) hp hp' rfl)
  · rcases hmembers hpq with rfl | ⟨rfl | ⟨w, hw⟩, -⟩
    · exact hK.entry_mem
    · exact hK.exit_mem
    · exact hin hw
  · rcases hmembers hpq with rfl | ⟨heq | hw, -⟩
    · exact .inr ⟨[], .refl _⟩
    · exact .inl heq
    · exact .inr hw
  · have hp := (Automaton.mem_members ha h.owns hK.entry_ne_exit).2 (.inr ⟨.inr hreached, honward⟩)
    obtain ⟨i, hi⟩ := List.getElem?_of_mem hp
    exact ⟨a.size + i, List.mem_zipIdx_iff_le_and_getElem?_sub.2 ⟨Nat.le_add_right .., by simpa using hi⟩⟩
  · exact Automaton.idle_of_size_le (hmem hpq).1

end Piece

end TableLexer
