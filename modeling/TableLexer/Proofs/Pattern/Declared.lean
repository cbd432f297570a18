import TableLexer.Proofs.Automaton.Bridge
import TableLexer.Proofs.Pattern.Correct

/-! Declaring a terminal over a fragment that has just been built: the words of the fragment come to
be spelled for it, and all other terminals and the definitions stay as they are. -/
namespace TableLexer

namespace Automaton

variable {a b c : Automaton} {K : Piece} {f : Fragment} {name : String} {id i : TerminalId}
  {p q : StateId} {l : Option Symbol} {w : List Symbol}

/-- No edge leads back to the initial state. -/
def Rooted (a : Automaton) : Prop := ∀ p l, ¬ a.Edge p l a.initial

theorem Rooted.frame (h : a.Rooted) (ha : a.WellFormed) (hframe : Frame a.size a b) : b.Rooted := by
  intro p l edge
  rw [hframe.initial] at edge
  rcases hframe.added p l _ edge with edge | ⟨-, hle⟩
  · exact h p l edge
  · exact Nat.not_le.2 ha.initial_lt hle

/-- New states that no edge from an old state leads to are out of reach. -/
theorem Frame.spells_iff (h : Frame a.size a b) (ha : a.WellFormed) : b.Spells w i ↔ a.Spells w i := by
  refine exists_congr fun q => ?_
  rw [h.initial, h.terminal]
  refine and_congr_left' ⟨fun hpath => ?_, fun hpath => hpath.mono h.keep⟩
  refine (hpath.transport (S := {p | p < a.size}) ?_ ha.initial_lt).2
  intro p hp l q edge
  have edge := (h.edge p hp l q).1 edge
  exact ⟨ha.edge_lt edge, edge⟩

theorem Has.defining {f : Fragment} (h : a.Has K) : (a.defining name f).Has K := ⟨h.fits, h.lt, h.silent⟩

/-- Every state but the new one accepts what it accepted before. -/
private theorem Declared.terminal?_of_lt {f : Fragment} (h : Declared b c name f id) {q : StateId}
    (hq : q < b.size) : c.terminal? q = b.terminal? q := by
  rw [h.terminal, if_neg (Nat.ne_of_lt hq)]

/-- A fragment has been built out of states that were not there before. -/
structure Placed (a b : Automaton) (f : Fragment) : Prop where
  frame : Frame a.size a b
  entry_le : a.size ≤ f.entry
  exit_le : a.size ≤ f.exit

theorem Builds.placed (h : Builds a b K) : Placed a b K.fragment :=
  ⟨h.frame, (h.bounds _ h.fits.entry_mem).1, (h.bounds _ h.fits.exit_mem).1⟩

namespace Placed

variable (hplaced : Placed a b f) (ha : a.WellFormed) (hb : b.WellFormed) (h : Declared b c name f id)
include hplaced

/-- New states lead to new states only. -/
private theorem edge_le (hp : a.size ≤ p) (edge : b.Edge p l q) : a.size ≤ q :=
  ((hplaced.frame.added p l q edge).resolve_left (idle_of_size_le hp l q)).2

private theorem path_le (hp : a.size ≤ p) (hpath : Path b.Edge p w q) : a.size ≤ q :=
  (hpath.transport (S := {p | a.size ≤ p}) (fun _ hp _ _ edge => ⟨hplaced.edge_le hp edge, edge⟩) hp).1

include h in
private theorem size_le : a.size ≤ b.size :=
  Nat.le_trans hplaced.entry_le (Nat.le_of_lt (owns_iff.1 h.owns).1)

include ha h

/-- Of the edges from new states, only the one behind the exit is made by the declaration. -/
private theorem edge_declared (hp : a.size ≤ p) : c.Edge p l q ↔ (b.Edge ⊔ bridge f.exit b.size) p l q := by
  rw [h.edge]
  refine or_iff_left ?_
  intro hbridge
  obtain ⟨-, rfl, -⟩ := hbridge
  rw [hplaced.frame.initial] at hp
  exact Nat.not_le.2 ha.initial_lt hp

omit ha in
/-- The older states keep their edges, the initial state apart. -/
theorem edge_declared_of_lt (hp : p < a.size) (hinitial : p ≠ a.initial) : c.Edge p l q ↔ a.Edge p l q := by
  rw [h.edge, ← hplaced.frame.edge p hp l q]
  refine (or_iff_left ?_).trans (or_iff_left ?_)
  · intro hbridge
    obtain ⟨-, rfl, -⟩ := hbridge
    exact hinitial hplaced.frame.initial
  · intro hbridge
    obtain ⟨-, rfl, -⟩ := hbridge
    exact Nat.not_le.2 hp hplaced.exit_le

include hb in
theorem rooted_declared (hrooted : a.Rooted) : c.Rooted := by
  intro p l edge
  rw [h.initial, h.edge] at edge
  rcases edge with (edge | ⟨-, -, -, heq⟩) | ⟨hne, -, -, heq⟩
  · exact hrooted.frame ha hplaced.frame p l edge
  · exact Nat.ne_of_lt hb.initial_lt heq
  · exact hne heq

/-- The paths from a new state are those there were, and those that go on from the exit to the state
that accepts the terminal. -/
theorem path_declared (hp : a.size ≤ p) : Path c.Edge p w q ↔
    Path b.Edge p w q ∨ q = b.size ∧ Path b.Edge p w f.exit := by
  have hto : ∀ p ∈ {p | a.size ≤ p}, ∀ l q, (b.Edge ⊔ bridge f.exit b.size) p l q →
      q ∈ {p | a.size ≤ p} ∧ c.Edge p l q := by
    intro p hp l q edge
    refine ⟨?_, (hplaced.edge_declared ha h hp).2 edge⟩
    rcases edge with edge | ⟨-, -, -, rfl⟩
    · exact hplaced.edge_le hp edge
    · exact hplaced.size_le h
  have hfrom : ∀ p ∈ {p | a.size ≤ p}, ∀ l q, c.Edge p l q →
      q ∈ {p | a.size ≤ p} ∧ (b.Edge ⊔ bridge f.exit b.size) p l q := fun p hp l q edge =>
    have edge := (hplaced.edge_declared ha h hp).1 edge
    ⟨(hto p hp l q edge).1, edge⟩
  rw [← path_bridge_idle_iff (Nat.ne_of_lt (owns_iff.1 h.owns).2) (idle_of_size_le (Nat.le_refl _))]
  exact ⟨fun hpath => (hpath.transport hfrom hp).2, fun hpath => (hpath.transport hto hp).2⟩

/-- The new entry joins what the initial state leads to. -/
theorem path_initial_declared (hrooted : a.Rooted) : Path c.Edge c.initial w q ↔
    Path a.Edge a.initial w q ∨ Path c.Edge f.entry w q := by
  have hinitial : c.initial = a.initial := h.initial.trans hplaced.frame.initial
  have hclosed : ∀ p ∈ {p | p < a.size ∧ p ≠ a.initial}, ∀ l m, c.Edge p l m →
      m ∈ {p | p < a.size ∧ p ≠ a.initial} ∧ a.Edge p l m := by
    intro p hstate l m edge
    obtain ⟨hp, hne⟩ := hstate
    have edge := (hplaced.edge_declared_of_lt h hp hne).1 edge
    exact ⟨⟨ha.edge_lt edge, fun heq => hrooted p l (heq ▸ edge)⟩, edge⟩
  rw [hinitial]
  constructor
  · intro hpath
    cases hpath with
    | refl _ => exact .inl (.refl _)
    | @step _ m _ l w edge rest =>
      rw [h.edge] at edge
      rcases edge with (edge | ⟨-, heq, -⟩) | ⟨-, -, rfl, rfl⟩
      · have edge := (hplaced.frame.edge _ ha.initial_lt l m).1 edge
        obtain ⟨-, rest⟩ :=
          rest.transport hclosed ⟨ha.edge_lt edge, fun heq => hrooted _ l (heq ▸ edge)⟩
        exact .inl (.step edge rest)
      · exact absurd hplaced.exit_le (Nat.not_le.2 (heq ▸ ha.initial_lt))
      · exact .inr rest
  · intro hcases
    rcases hcases with hpath | hpath
    · refine hpath.mono fun p l q edge => ?_
      rw [h.edge]
      exact .inl (.inl (hplaced.frame.keep p l q edge))
    · have hne : a.initial ≠ f.entry := fun heq =>
        Nat.not_le.2 ha.initial_lt (Nat.le_trans hplaced.entry_le (Nat.le_of_eq heq.symm))
      refine .silent ?_ hpath
      rw [h.edge, hplaced.frame.initial]
      exact .inr ⟨hne, rfl, rfl, rfl⟩

/-- A word leads somewhere if it led somewhere before or is begun by the new fragment. -/
theorem leads_declared (hrooted : a.Rooted) : (∃ q, Path c.Edge c.initial w q) ↔
    (∃ q, Path a.Edge a.initial w q) ∨ ∃ q, Path b.Edge f.entry w q := by
  simp only [hplaced.path_initial_declared ha h hrooted, hplaced.path_declared ha h hplaced.entry_le,
    exists_or, exists_eq_left]
  exact or_congr_right (or_iff_left_of_imp fun hpath => ⟨_, hpath⟩)

include hb in
/-- A declared terminal is spelled by the words of its fragment, and all others as before. -/
theorem spells_declared (hrooted : a.Rooted) :
    c.Spells w i ↔ a.Spells w i ∨ i = id ∧ Path b.Edge f.entry w f.exit := by
  have hframe := hplaced.frame
  have hterminal {q : StateId} (hq : q < b.size) : c.terminal? q = a.terminal? q := by
    rw [h.terminal?_of_lt hq, hframe.terminal]
  constructor
  · intro hresult
    obtain ⟨q, hpath, hq⟩ := hresult
    rcases (hplaced.path_initial_declared ha h hrooted).1 hpath with hpath | hpath
    · have hlt := Nat.lt_of_lt_of_le (ha.path_lt hpath ha.initial_lt) (hplaced.size_le h)
      exact .inl ⟨q, hpath, hterminal hlt ▸ hq⟩
    · rcases (hplaced.path_declared ha h hplaced.entry_le).1 hpath with hnew | ⟨rfl, hnew⟩
      · rw [hterminal (hb.path_lt hnew (owns_iff.1 h.owns).1),
          terminal?_eq_none (hplaced.path_le hplaced.entry_le hnew)] at hq
        simp at hq
      · rw [h.terminal, if_pos rfl] at hq
        exact .inr ⟨(Option.some.inj hq).symm, hnew⟩
  · intro hcases
    rcases hcases with ⟨q, hpath, hq⟩ | ⟨rfl, hpath⟩
    · have hlt := Nat.lt_of_lt_of_le (ha.path_lt hpath ha.initial_lt) (hplaced.size_le h)
      exact ⟨q, (hplaced.path_initial_declared ha h hrooted).2 (.inl hpath), (hterminal hlt).trans hq⟩
    · refine ⟨b.size, (hplaced.path_initial_declared ha h hrooted).2 (.inr ?_), ?_⟩
      · exact (hplaced.path_declared ha h hplaced.entry_le).2 (.inr ⟨rfl, hpath⟩)
      · rw [h.terminal, if_pos rfl]

end Placed

namespace Builds

variable (hbuilds : Builds a b K)
include hbuilds

theorem initial_not_mem (ha : a.WellFormed) : b.initial ∉ K.states := fun hmem => by
  have hle := (hbuilds.bounds _ hmem).1
  rw [hbuilds.frame.initial] at hle
  exact Nat.not_le.2 ha.initial_lt hle

/-- Older pieces stay as they are when a terminal is declared. -/
theorem means_declared (h : Declared b c name K.fragment id) {meaning : Meaning}
    (hmeans : a.Means meaning) : c.Means meaning := by
  intro other f hf
  rw [h.definitions, hbuilds.frame.definitions] at hf
  obtain ⟨M, hM, hlanguage, hhas, hinitial⟩ := hmeans other f hf
  refine ⟨M, hM, hlanguage, ⟨?_, fun p hp => ?_, fun p hp => ?_⟩, ?_⟩
  · exact hhas.fits.congr fun p hp l q =>
      hbuilds.placed.edge_declared_of_lt h (hhas.lt p hp) fun heq => hinitial (heq ▸ hp)
  · exact Nat.lt_of_lt_of_le (hhas.lt p hp) (Nat.le_trans hbuilds.size_le (Nat.le_of_lt h.size_lt))
  · rw [h.terminal?_of_lt (Nat.lt_of_lt_of_le (hhas.lt p hp) hbuilds.size_le), hbuilds.frame.terminal]
    exact hhas.silent p hp
  · rw [h.initial, hbuilds.frame.initial]
    exact hinitial

end Builds

end Automaton

end TableLexer
