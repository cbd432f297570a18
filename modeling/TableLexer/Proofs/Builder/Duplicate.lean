import Mathlib.Data.Set.Card
import TableLexer.Proofs.Builder.Alongside
import TableLexer.Proofs.Builder.Public

/-! Which states of a fragment a copy stands for, and what this makes of the words of the fragment. States that
lead to the exit only by way of the entry are left out. -/
namespace TableLexer

/-- The edges between states of a set. -/
def Graph.within (E : Graph) (S : Set StateId) : Graph := fun p l q => p ∈ S ∧ q ∈ S ∧ E p l q

namespace Automaton

variable {a b : Automaton} {f g : Fragment} {p q : StateId} {w : List Symbol}

/-- The entry and the exit of a fragment, and all states on the paths from one to the other. -/
def span (a : Automaton) (f : Fragment) : Set StateId :=
  {p | p = f.entry ∨ p = f.exit ∨ (∃ w, Path a.Edge f.entry w p) ∧ ∃ w, Path a.Edge p w f.exit}

/-- The entry and the exit of a fragment, and the states on the paths from one to the other from which a direct
path leads to the exit. -/
def core (a : Automaton) (f : Fragment) : Set StateId :=
  {p | p = f.entry ∨ p = f.exit ∨ (∃ w, Path a.Edge f.entry w p) ∧ ∃ w, Path (a.direct f) p w f.exit}

private theorem core_subset_span (a : Automaton) (f : Fragment) : a.core f ⊆ a.span f := by
  intro p hp
  refine hp.imp_right (Or.imp_right fun h => ⟨h.1, ?_⟩)
  obtain ⟨w, hw⟩ := h.2
  exact ⟨w, hw.mono fun _ _ _ edge => edge.2⟩

/-- If its entry is its exit, all paths in a fragment are direct. -/
theorem span_subset_core (h : f.entry = f.exit) : a.span f ⊆ a.core f := by
  intro p hp
  refine hp.imp_right (Or.imp_right fun hpath => ⟨hpath.1, ?_⟩)
  obtain ⟨w, hw⟩ := hpath.2
  exact ⟨w, hw.mono fun _ _ _ edge => ⟨fun heq => heq.trans h, edge⟩⟩

/-- A path on which every state is in the core is a path within the core. -/
theorem path_within_core {F : Graph} (hF : ∀ p l q, F p l q → a.Edge p l q)
    (hcore : ∀ p, (∃ w, Path a.Edge f.entry w p) → (∃ w, Path F p w f.exit) → p ∈ a.core f)
    (hreach : ∃ w, Path a.Edge f.entry w p) (hpath : Path F p w f.exit) :
    Path (a.Edge.within (a.core f)) p w f.exit := by
  generalize hexit : f.exit = r at hpath
  induction hpath with
  | refl p => exact .refl p
  | @step p m r l w edge rest ih =>
    subst hexit
    obtain ⟨u, hu⟩ := hreach
    have hm : ∃ w, Path a.Edge f.entry w m := ⟨_, hu.trans (.single (hF p l m edge))⟩
    have hp := hcore p ⟨u, hu⟩ ⟨_, .step edge rest⟩
    exact .step ⟨hp, hcore m hm ⟨_, rest⟩, hF p l m edge⟩ (ih hm rfl)

section owned

variable (ha : a.WellFormed) (hf : a.owns f)
include ha hf

private theorem mem_members_iff_mem_core : p ∈ a.members f ↔ p ∈ a.core f := by
  rw [mem_members_iff ha hf]
  constructor
  · intro h
    rcases h with rfl | ⟨rfl | hreach, hexit⟩
    · exact .inl rfl
    · exact .inr (.inl rfl)
    · exact .inr (.inr ⟨hreach, hexit⟩)
  · intro h
    rcases h with rfl | rfl | ⟨hreach, hexit⟩
    · exact .inl rfl
    · exact .inr ⟨.inl rfl, [], .refl _⟩
    · exact .inr ⟨.inr hreach, hexit⟩

theorem length_members : (a.members f).length = (a.core f).ncard := by
  have hcore : a.core f = ((a.members f).toFinset : Set StateId) := by
    ext p
    rw [Finset.mem_coe, List.mem_toFinset, mem_members_iff_mem_core ha hf]
  rw [hcore, Set.ncard_coe_finset, List.toFinset_card_of_nodup (members_nodup a f)]

private theorem finite_span : (a.span f).Finite := by
  obtain ⟨hentry, hexit⟩ := owns_iff.1 hf
  refine (Set.finite_lt_nat a.size).subset fun p hp => ?_
  rcases hp with rfl | rfl | ⟨⟨w, hw⟩, -⟩
  · exact hentry
  · exact hexit
  · exact ha.path_lt hw hentry

theorem ncard_core_eq_iff : (a.core f).ncard = (a.span f).ncard ↔ a.span f ⊆ a.core f := by
  constructor
  · intro h
    exact (Set.eq_of_subset_of_ncard_le (a.core_subset_span f) h.ge (finite_span ha hf)).ge
  · intro h
    rw [(a.core_subset_span f).antisymm h]

end owned

end Automaton

namespace Builder

open Automaton

variable {a b c : Automaton} {f g : Fragment} {p q : StateId} {w : List Symbol} {l : Option Symbol}

private theorem since_duplicate {ids : List StateId} {made pairs : List (StateId × StateId)} (h : a.Since b)
    (hduplicate : (duplicate ids made).apply b = (.ok pairs, c)) : a.Since c := by
  induction ids generalizing b made with
  | nil =>
    obtain ⟨-, rfl⟩ : made.reverse = pairs ∧ b = c := by simpa [duplicate] using hduplicate
    exact h
  | cons id ids ih =>
    obtain ⟨new, d, hnew, hrest⟩ := apply_bind_eq_ok_iff.1 hduplicate
    obtain ⟨hlimit, rfl, rfl⟩ := newState_eq_ok_iff.1 hnew
    exact ih (h.extended (.extended h.grows.wellFormed hlimit)) hrest

/-- The state that stands for a state of a fragment in a copy. -/
def copyOf (a : Automaton) (f : Fragment) (p : StateId) : StateId := ((pairsOf a f).lookup p).getD p

theorem mem_pairsOf_iff : (p, q) ∈ pairsOf a f ↔ p ∈ a.members f ∧ copyOf a f p = q := by
  constructor
  · intro h
    have hp := List.fst_mem_of_mem_zipIdx h
    exact ⟨hp, congrArg Prod.snd (List.inj_on_of_nodup_map (nodup_old a f) (mem_of_lookup hp) h rfl)⟩
  · intro h
    obtain ⟨hp, rfl⟩ := h
    exact mem_of_lookup hp

private theorem injOn_copyOf : Set.InjOn (copyOf a f) {p | p ∈ a.members f} := by
  intro p hp q hq heq
  exact congrArg Prod.fst (List.inj_on_of_nodup_map (nodup_new a f) (mem_pairsOf_iff.2 ⟨hp, rfl⟩)
    (mem_pairsOf_iff.2 ⟨hq, rfl⟩) heq)

/-- What a copy adds to an automaton: states for those of the fragment, with the edges between them. -/
structure Duplicates (a b : Automaton) (f g : Fragment) : Prop where
  owns : a.owns f
  fragment : g = f.renamed (copyOf a f)
  size_eq : b.size = a.size + (a.members f).length
  edge : b.Edge = a.Edge ⊔ duplicated (pairsOf a f) a.Edge
  state : ∀ p < a.size, b.state? p = a.state? p
  rest : b = { a with states := b.states }

private theorem duplicates_of_copy (ha : a.WellFormed) (h : (copy f).apply a = (.ok g, b)) : Duplicates a b f g := by
  obtain ⟨_, _, hcheck, h⟩ := apply_bind_eq_ok_iff.1 h
  obtain ⟨hf, rfl⟩ := check_eq_ok_iff.1 hcheck
  obtain ⟨_, _, hmutable, h⟩ := apply_bind_eq_ok_iff.1 h
  obtain ⟨-, rfl⟩ := ensureMutable_eq_ok_iff.1 hmutable
  obtain ⟨_, _, hget, h⟩ := apply_bind_eq_ok_iff.1 h
  obtain ⟨rfl, rfl⟩ : a = _ ∧ a = _ := by simpa using hget
  obtain ⟨pairs, c, hduplicate, h⟩ := apply_bind_eq_ok_iff.1 h
  obtain ⟨_, _, hfill, h⟩ := apply_bind_eq_ok_iff.1 h
  obtain rfl : fillIn pairs c = _ := by simpa using hfill
  obtain ⟨rfl, rfl⟩ : _ = g ∧ fillIn pairs c = b := by simpa using h
  obtain ⟨hpairs, hsize, hadds⟩ := (Leads.duplicate ha).good pairs c hduplicate
  obtain rfl : pairs = pairsOf a f := hpairs
  have hsince := since_duplicate (.refl ha) hduplicate
  have hnaming : Naming (pairsOf a f) a.size c.size := hsize ▸ naming_pairsOf ha hf
  obtain ⟨hkept, hdeterministic, hconfig⟩ := fillIn_keeps (pairsOf a f) c
  obtain ⟨hinitial, hterminals, hdefinitions⟩ := initial_fillIn (pairsOf a f) c
  have hedge : c.Edge = a.Edge := by rw [hadds.edge, sup_bot_eq]
  refine ⟨hf, rfl, hkept.trans hsize, ?_, fun p hp => ?_, ?_⟩
  · rw [edge_fillIn hsince.grows.wellFormed hnaming, hedge]
    exact fun p hp => hadds.idle (idle_of_size_le hp) fun _ _ => id
  · rw [(state?_fillIn hnaming).1 p (hnaming.notMem_of_lt hp), hsince.state p hp]
  · have hinitial := hinitial.trans hsince.initial
    have hterminals := hterminals.trans hsince.terminals
    have hdefinitions := hdefinitions.trans hsince.definitions
    have hdeterministic := hdeterministic.trans hsince.grows.deterministic
    have hconfig := hconfig.trans hsince.grows.config
    cases hb : fillIn (pairsOf a f) c
    simp_all

namespace Duplicates

variable (h : Duplicates a b f g) (ha : a.WellFormed)
include h ha

private theorem size_le_copyOf (hp : p ∈ a.core f) : a.size ≤ copyOf a f p := by
  rw [← mem_members_iff_mem_core ha h.owns] at hp
  exact ((naming_pairsOf ha h.owns).fresh _ (mem_pairsOf_iff.2 ⟨hp, rfl⟩)).2

/-- A new state has the edges between states of the core of the one that it stands for. -/
private theorem edge_copyOf (hp : p ∈ a.core f) :
    b.Edge (copyOf a f p) l q ↔ ∃ m, (a.Edge.within (a.core f)) p l m ∧ copyOf a f m = q := by
  have hle := h.size_le_copyOf ha hp
  rw [h.edge]
  constructor
  · intro hedge
    rcases hedge with edge | ⟨p', m, hp', hm, edge⟩
    · exact absurd edge (idle_of_size_le hle l q)
    · rw [mem_pairsOf_iff] at hp' hm
      obtain rfl := injOn_copyOf hp'.1 ((mem_members_iff_mem_core ha h.owns).2 hp) hp'.2
      exact ⟨m, ⟨hp, (mem_members_iff_mem_core ha h.owns).1 hm.1, edge⟩, hm.2⟩
  · intro hedge
    obtain ⟨m, ⟨-, hm, edge⟩, rfl⟩ := hedge
    rw [← mem_members_iff_mem_core ha h.owns] at hp hm
    exact .inr ⟨p, m, mem_pairsOf_iff.2 ⟨hp, rfl⟩, mem_pairsOf_iff.2 ⟨hm, rfl⟩, edge⟩

/-- The words of a copy are those of the paths within the core. -/
theorem path_iff :
    Path b.Edge g.entry w g.exit ↔ Path (a.Edge.within (a.core f)) f.entry w f.exit := by
  have hentry : f.entry ∈ a.core f := .inl rfl
  have hclosed : ∀ p ∈ a.core f, ∀ l q, a.Edge.within (a.core f) p l q → q ∈ a.core f :=
    fun _ _ _ _ edge => edge.2.1
  rw [h.fragment]
  refine (Path.rename_iff hclosed (fun p hp l q => h.edge_copyOf ha hp) hentry).trans ?_
  constructor
  · intro hresult
    obtain ⟨m, hpath, heq⟩ := hresult
    have hm := (hpath.transport (fun p hp l q edge => ⟨hclosed p hp l q edge, edge⟩) hentry).1
    rw [← mem_members_iff_mem_core ha h.owns] at hm
    exact injOn_copyOf hm (exit_mem_members a f) heq ▸ hpath
  · exact fun hpath => ⟨f.exit, hpath, rfl⟩

/-- No edge joins a new state and an old one. -/
private theorem apart (edge : b.Edge p l q) : a.size ≤ p ↔ a.size ≤ q := by
  rw [h.edge] at edge
  rcases edge with edge | ⟨p', q', hp, hq, -⟩
  · refine iff_of_false (fun hle => idle_of_size_le hle l q edge) (Nat.not_le.2 (ha.edge_lt edge))
  · have hnaming := naming_pairsOf ha h.owns
    exact iff_of_true (hnaming.fresh _ hp).2 (hnaming.fresh _ hq).2

end Duplicates

/-- What a copy of a fragment is. Its words are those of the paths within the core: words of the fragment, and
among them those of all direct paths. It has as many new states as there are on the paths of the fragment, and all
of its words, if from each of these states a direct path leads to the exit. All else is left as it was. -/
theorem copy_duplicates_core (ha : a.WellFormed) (h : (copy f).apply a = (.ok g, b)) :
    b = { a with states := b.states } ∧ (∀ p < a.size, b.state? p = a.state? p) ∧
      (∀ p l q, b.Edge p l q → (a.size ≤ p ↔ a.size ≤ q)) ∧ a.size ≤ g.entry ∧ a.size ≤ g.exit ∧
      b.size = a.size + (a.core f).ncard ∧
      (∀ w, Path b.Edge g.entry w g.exit ↔ Path (a.Edge.within (a.core f)) f.entry w f.exit) ∧
      (∀ w, Path b.Edge g.entry w g.exit → Path a.Edge f.entry w f.exit) ∧
      (∀ w, Path (a.direct f) f.entry w f.exit → Path b.Edge g.entry w g.exit) ∧
      (b.size = a.size + (a.span f).ncard ↔ a.span f ⊆ a.core f) ∧
      (a.span f ⊆ a.core f → ∀ w, Path b.Edge g.entry w g.exit ↔ Path a.Edge f.entry w f.exit) := by
  have hcopy := duplicates_of_copy ha h
  have hsize : b.size = a.size + (a.core f).ncard := by rw [hcopy.size_eq, length_members ha hcopy.owns]
  have hpath (w : List Symbol) := hcopy.path_iff ha (w := w)
  have hsound (w : List Symbol) (hw : Path b.Edge g.entry w g.exit) : Path a.Edge f.entry w f.exit :=
    ((hpath w).1 hw).mono fun _ _ _ edge => edge.2.2
  refine ⟨hcopy.rest, hcopy.state, fun p l q => hcopy.apart ha, ?_, ?_, hsize, hpath, hsound, fun w hw => ?_, ?_,
    fun hspan w => ⟨hsound w, fun hw => ?_⟩⟩
  · rw [hcopy.fragment]
    exact hcopy.size_le_copyOf ha (.inl rfl)
  · rw [hcopy.fragment]
    exact hcopy.size_le_copyOf ha (.inr (.inl rfl))
  · exact (hpath w).2 (path_within_core (fun _ _ _ edge => edge.2) (fun p hreach hexit => .inr (.inr ⟨hreach, hexit⟩))
      ⟨[], .refl _⟩ hw)
  · rw [hsize, Nat.add_left_cancel_iff, ncard_core_eq_iff ha hcopy.owns]
  · exact (hpath w).2 (path_within_core (fun _ _ _ edge => edge)
      (fun p hreach hexit => hspan (.inr (.inr ⟨hreach, hexit⟩))) ⟨[], .refl _⟩ hw)

/-- The states that paths from any state lead to are those that the automaton is in if it starts there. -/
private theorem path_iff_mem_after (ha : a.WellFormed) (hp : p < a.size) :
    Path a.Edge p w q ↔ q ∈ (({ a with initial := p } : Automaton).after w).toList := by
  have hstart : ({ a with initial := p } : Automaton).WellFormed :=
    ⟨hp, ha.sound, ha.owned, ha.eof_first, ha.size_le⟩
  rw [StateSet.mem_toList, mem_after hstart]
  rfl

/-- Any number of letters `a`, in a fragment whose entry is its exit. -/
def looped : Automaton :=
  (apply (do
    let letter ← literal (.ofChar 'a')
    append letter letter) {}).2

theorem copy_duplicates_core_looped : looped.WellFormed ∧ ∃ b, (copy ⟨1, 1⟩).apply looped = (.ok ⟨3, 3⟩, b) ∧
    looped.span ⟨1, 1⟩ ⊆ looped.core ⟨1, 1⟩ ∧ b.size = looped.size + (looped.span ⟨1, 1⟩).ncard ∧
    (∀ w, Path b.Edge 3 w 3 ↔ Path looped.Edge 1 w 1) := by
  have hconstructed : looped.Constructed := ⟨_, _, _, .bind (.literal _) fun letter => .append letter letter, rfl⟩
  obtain ⟨config, hgrows⟩ := hconstructed.grows
  have hcopy : (copy ⟨1, 1⟩).apply looped = (.ok ⟨3, 3⟩, ((copy ⟨1, 1⟩).apply looped).2) :=
    Prod.ext (by decide +kernel) rfl
  obtain ⟨-, -, -, -, -, -, -, -, -, hsize, hwords⟩ := copy_duplicates_core hgrows.wellFormed hcopy
  have hspan : looped.span ⟨1, 1⟩ ⊆ looped.core ⟨1, 1⟩ := span_subset_core rfl
  exact ⟨hgrows.wellFormed, _, hcopy, hspan, hsize.2 hspan, hwords hspan⟩

/-- The letters `a` and `b`, of which the first may be followed by a `c` and then by either of them again. -/
def detour : Automaton :=
  (apply (do
    let first ← literal (.ofChar 'a')
    let second ← literal (.ofChar 'b')
    let either ← alternate [first, second]
    let back ← literal (.ofChar 'c')
    let _ ← append first back
    append back either) {}).2

/-- The states from which the `c` leads back to the entry are not copied, and words with it are not words of the
copy. -/
theorem detour_copied_in_part : detour.WellFormed ∧ detour.deterministic = false ∧ detour.owns ⟨5, 6⟩ ∧
    ∃ b, (copy ⟨5, 6⟩).apply detour = (.ok ⟨13, 14⟩, b) ∧ b.size ≠ detour.size + (detour.span ⟨5, 6⟩).ncard ∧
      Path detour.Edge 5 [.ofChar 'a', .ofChar 'c', .ofChar 'b'] 6 ∧
      ¬ Path b.Edge 13 [.ofChar 'a', .ofChar 'c', .ofChar 'b'] 14 := by
  have hconstructed : detour.Constructed :=
    ⟨_, _, _, .bind (.literal _) fun first => .bind (.literal _) fun second => .bind (.alternate _) fun either =>
      .bind (.literal _) fun back => .bind (.append first back) fun _ => .append back either, rfl⟩
  obtain ⟨config, hgrows⟩ := hconstructed.grows
  have ha := hgrows.wellFormed
  have howns : detour.owns ⟨5, 6⟩ := by decide +kernel
  have hcopy : (copy ⟨5, 6⟩).apply detour = (.ok ⟨13, 14⟩, ((copy ⟨5, 6⟩).apply detour).2) :=
    Prod.ext (by decide +kernel) rfl
  have hb : ((copy ⟨5, 6⟩).apply detour).2.WellFormed := (Leads.copy ha ⟨5, 6⟩).grows.wellFormed
  have hduplicates := duplicates_of_copy ha hcopy
  have hout : Path detour.Edge 5 [.ofChar 'a'] 7 := by
    rw [path_iff_mem_after ha (by decide +kernel)]
    decide +kernel
  have hback : Path detour.Edge 7 [.ofChar 'c', .ofChar 'b'] 6 := by
    rw [path_iff_mem_after ha (by decide +kernel)]
    decide +kernel
  refine ⟨ha, hgrows.deterministic, howns, _, hcopy, fun hsize => ?_, hout.trans hback, fun hpath => ?_⟩
  · rw [hduplicates.size_eq, length_members ha howns, Nat.add_left_cancel_iff, ncard_core_eq_iff ha howns] at hsize
    have hmem : 7 ∈ detour.core ⟨5, 6⟩ := hsize (.inr (.inr ⟨⟨_, hout⟩, _, hback⟩))
    rw [← mem_members_iff_mem_core ha howns] at hmem
    revert hmem
    decide +kernel
  · rw [path_iff_mem_after hb (by decide +kernel)] at hpath
    revert hpath
    decide +kernel

end Builder

end TableLexer
