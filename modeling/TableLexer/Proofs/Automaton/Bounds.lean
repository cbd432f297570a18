import TableLexer.Proofs.Automaton.StateLimit
import TableLexer.Proofs.Description.Build
import TableLexer.Proofs.Minimization
import TableLexer.Proofs.Table.Implements

/-! Whatever is done to an automaton, and even if it fails on the way, the ids that states name are ids of
states, so that no search through the automaton asks for a state that does not exist. -/
namespace TableLexer

namespace Automaton

variable {a d : Automaton} {set : StateSet} {id : StateId}

/-- All ids that an automaton holds name something: states their targets and their terminals, and definitions
the ends of their fragments. -/
structure InBounds (a : Automaton) : Prop where
  initial : a.initial < a.size
  transitions : ∀ q ∈ a.states, ∀ edge ∈ q.transitions, edge.2 < a.size
  epsilon : ∀ q ∈ a.states, ∀ target ∈ q.epsilon, target < a.size
  definitions : ∀ name f, a.definitions.lookup name = some f → f.entry < a.size ∧ f.exit < a.size
  size_le : a.size ≤ max 1 a.config.stateLimit
  final_iff : ∀ q ∈ a.states, q.isFinal = true ↔ ∃ id, q.terminal = some id ∧ 1 ≤ id ∧ id < a.terminals.size
  eof : a.terminals.name? 0 = some "EOF"

private theorem WellFormed.inBounds (h : a.WellFormed) : a.InBounds := by
  have hsound (q : State) (hq : q ∈ a.states) : q.Sound a.size a.terminals := by
    obtain ⟨id, hid⟩ := Array.mem_iff_getElem?.1 hq
    exact h.sound id q hid
  refine ⟨h.initial_lt, fun q hq edge hedge => ?_, fun q hq target htarget => ?_, fun name f hf => ?_, h.size_le,
    fun q hq => ?_, h.eof_first⟩
  · exact (hsound q hq).successors_lt _ (List.mem_append_left _ (List.mem_map_of_mem hedge))
  · exact (hsound q hq).successors_lt target (List.mem_append_right _ htarget)
  · exact owns_iff.1 (h.owned name f hf)
  · rw [(hsound q hq).final_iff, Option.isSome_iff_exists]
    refine exists_congr fun id => ⟨fun hid => ?_, And.left⟩
    obtain ⟨hne, hlt⟩ := (hsound q hq).terminal_known id hid
    exact ⟨hid, Nat.pos_of_ne_zero hne, hlt⟩

/-- The ids that searches through an automaton ask for are ids of its states: those that are visited or put
into a set, those of the subsets found, those that stand for others in a copy, and those whose blocks are asked
for. -/
structure LookupsInBounds (a : Automaton) : Prop where
  closure : ∀ set : StateSet, set.Over a.size → ∀ id ∈ reachable a.epsilonOf a.size set.toList, id < a.size
  run : ∀ w, ∀ id ∈ (a.after w).toList, id < a.size ∧ ∀ s target, a.transition? id s = some target → target < a.size
  members : ∀ f, a.owns f → (∀ id ∈ reachable a.successorsOf a.size [f.entry], id < a.size) ∧
    ∀ id ∈ a.members f, id < a.size
  copy : ∀ f, a.owns f → ∀ pairs b, (Builder.duplicate (a.members f) []).apply a = (.ok pairs, b) →
    (∀ pair ∈ pairs, pair.1 < b.size ∧ pair.2 < b.size) ∧
      (pairs.lookup f.entry).isSome = true ∧ (pairs.lookup f.exit).isSome = true
  determinize : ∀ fuel rows found, (a.discover fuel #[]).run (.first a) = .ok (rows, found) →
    ∀ set ∈ found.subsets, (∀ id ∈ set.toList, id < a.size) ∧ ∀ s : Symbol, ∀ id ∈ (a.targets set).getD s.val [], id < a.size
  minimize : ∀ d, a.determinize = .ok d →
    (∀ id < d.size, ∀ s target, d.transition? id s = some target → target < d.size) ∧
      (∀ fuel blocks count, blocks.length = d.size →
        (refine (d.states.toList.map fun q => d.usedSymbols.map q.transition) fuel blocks count).length = d.size) ∧
      ∀ id < d.size, d.blocks[id]? = some (d.blockOf id) ∧ d.blockOf id < d.merged.size
  compile : ∀ t, a.compile = .ok t → t.states = a.size ∧ t.initial < t.states ∧
    ∀ id < a.size, ∀ s : Symbol, id * 256 + s.val < t.transitions.size

section lookups

variable (ha : a.WellFormed)
include ha

private theorem lt_of_mem_after {w : List Symbol} (hid : id ∈ a.after w) : id < a.size :=
  ha.path_lt ((mem_after ha).1 hid) ha.initial_lt

/-- The copies of the states of a fragment are new states, and its ends have copies. -/
theorem duplicate_inBounds {f : Fragment} (hf : a.owns f) {pairs : List (StateId × StateId)} {b : Automaton}
    (h : (Builder.duplicate (a.members f) []).apply a = (.ok pairs, b)) :
    (∀ pair ∈ pairs, pair.1 < b.size ∧ pair.2 < b.size) ∧
      (pairs.lookup f.entry).isSome = true ∧ (pairs.lookup f.exit).isSome = true := by
  obtain ⟨hpairs, hsize, -⟩ := (Builder.Leads.duplicate ha).good pairs b h
  rw [List.reverse_nil, List.nil_append] at hpairs
  have hlookup (p : StateId) (hp : p ∈ a.members f) : (pairs.lookup p).isSome = true := by
    obtain ⟨q, hq, -⟩ := Builder.exists_lookup (n := a.size) hp
    rw [hpairs, hq, Option.isSome_some]
  refine ⟨fun pair hpair => ?_, hlookup _ (entry_mem_members a f), hlookup _ (exit_mem_members a f)⟩
  rw [hpairs] at hpair
  have hold := members_lt ha hf (List.fst_mem_of_mem_zipIdx hpair)
  rw [hsize]
  exact ⟨Nat.lt_add_right _ hold, List.snd_lt_add_of_mem_zipIdx hpair⟩

/-- Only sets of states within reach are found. -/
theorem discover_inBounds {fuel : Nat} {rows : Array (List (Symbol × StateId))} {found : Discovery}
    (h : (a.discover fuel #[]).run (.first a) = .ok (rows, found)) (hset : set ∈ found.subsets) :
    ∀ id ∈ set.toList, id < a.size := by
  have hreached := discover_progresses ha fuel #[] (Discovery.first_reached ha)
  rw [h] at hreached
  obtain ⟨w, rfl, -⟩ := hreached.within set (Array.mem_toList_iff.2 hset)
  exact fun id hid => lt_of_mem_after ha (StateSet.mem_toList.1 hid)

omit ha in
/-- A block is kept for every state in every round. -/
private theorem length_refine (fuel : Nat) {targets : List (List (Option StateId))} {blocks : List Nat} (count : Nat)
    (h : blocks.length = targets.length) : (refine targets fuel blocks count).length = targets.length :=
  refine_keeps (·.length = targets.length) (fun _ => length_round) fuel count h

end lookups

private theorem Kept.lookupsInBounds (h : a.Kept) : a.LookupsInBounds where
  closure set hset id hid := reachable_lt (fun id hid => hset.bound id (StateSet.mem_toList.1 hid))
    (fun p _ q hq => h.1.edge_lt (edge_none.2 hq)) hid
  run w id hid := ⟨lt_of_mem_after h.1 (StateSet.mem_toList.1 hid), fun s target hs => h.1.edge_lt (edge_some.2 hs)⟩
  members f hf := ⟨fun id hid => reachable_lt (by simpa using (owns_iff.1 hf).1) (fun _ _ _ => successorsOf_lt h.1) hid,
    fun id => members_lt h.1 hf⟩
  copy f hf pairs b := duplicate_inBounds h.1 hf
  determinize fuel rows found hrun set hset := by
    refine ⟨discover_inBounds h.1 hrun hset, fun s target htarget => ?_⟩
    obtain ⟨p, -, edge⟩ := (mem_targets h.1).1 htarget
    exact h.1.edge_lt edge
  minimize d hd := by
    have hwf := (h.determinize hd).wellFormed
    have hlength : (d.states.toList.map fun q => d.usedSymbols.map q.transition).length = d.size := by simp [size]
    refine ⟨fun _ _ _ _ hs => hwf.edge_lt (edge_some.2 hs), fun fuel blocks count hblocks => ?_, fun id hid => ?_⟩
    · exact (length_refine fuel count (hblocks.trans hlength.symm)).trans hlength
    · exact ⟨getElem?_blocks hwf hid, blockOf_lt hwf id⟩
  compile t ht := by
    have hdet : a.deterministic = true := by
      by_contra hdet
      simp [compile, hdet] at ht
    obtain rfl := Except.ok.inj ((compile_eq hdet).symm.trans ht)
    refine ⟨states_table a, (states_table a).symm ▸ h.1.initial_lt, fun id hid s => ?_⟩
    exact (rectangular_table a).index_lt ((states_table a).symm ▸ hid) s.isLt

private theorem config_determinize (ha : a.WellFormed) (hd : a.determinize = .ok d) : d.config = a.config := by
  unfold Automaton.determinize at hd
  split at hd
  · rw [← Except.ok.inj hd]
  · obtain ⟨subsets, hrepresents⟩ := subsetConstruction_represents ha hd
    exact hrepresents.config_eq

/-- Building, determinizing and minimizing keep all ids in bounds, and so do steps that fail. No step removes a
state, and the state limit stays what it is. -/
theorem Obtained.in_bounds (ha : a.Obtained) : a.InBounds ∧ a.LookupsInBounds ∧
    (∀ {α : Type} (p : Builder α), p.Public → a.size ≤ (p.apply a).2.size ∧ (p.apply a).2.config = a.config ∧
      (p.apply a).2.InBounds ∧ (p.apply a).2.LookupsInBounds) ∧
    (∀ pattern : Pattern, pattern.build.Public) ∧
    ∀ d, a.determinize = .ok d ∨ a.minimize = .ok d →
      d.config = a.config ∧ d.InBounds ∧ d.LookupsInBounds ∧ d.NoEpsilon := by
  have hkept := ha.kept
  refine ⟨hkept.1.inBounds, hkept.lookupsInBounds, fun p hp => ?_, Pattern.build_public, fun d hd => ?_⟩
  · have hgrows := (hp.leads hkept.1).grows
    have hnext := (ha.step hp).kept
    exact ⟨hgrows.size_le, hgrows.config, hnext.1.inBounds, hnext.lookupsInBounds⟩
  · obtain ⟨e, he, hordered, hconfig⟩ : ∃ e, a.determinize = .ok e ∧ d.Ordered ∧ d.config = e.config := by
      rcases hd with hd | hd
      · exact ⟨d, hd, hkept.determinize hd, rfl⟩
      · obtain ⟨e, he, rfl⟩ := minimize_eq_ok_iff.1 hd
        exact ⟨e, he, (hkept.determinize he).merged, rfl⟩
    have hkept' : d.Kept := ⟨hordered.wellFormed, fun _ => hordered⟩
    exact ⟨hconfig.trans (config_determinize hkept.1 he), hordered.wellFormed.inBounds, hkept'.lookupsInBounds,
      hordered.noEpsilon⟩

/-- What is left of a failed declaration, of which the state limit leaves one state of three. -/
def unfinished : Automaton :=
  (Builder.apply (Builder.addTerminal "AB" (Builder.string "ab")) { config := { stateLimit := 2 } }).2

theorem Obtained.in_bounds_unfinished : unfinished.Obtained ∧ unfinished.InBounds ∧ unfinished.LookupsInBounds ∧
    (∀ {α : Type} (p : Builder α), p.Public → unfinished.size ≤ (p.apply unfinished).2.size ∧
      (p.apply unfinished).2.config = unfinished.config ∧ (p.apply unfinished).2.InBounds ∧
      (p.apply unfinished).2.LookupsInBounds) ∧
    (∀ pattern : Pattern, pattern.build.Public) ∧
    ∀ d, unfinished.determinize = .ok d ∨ unfinished.minimize = .ok d →
      d.config = unfinished.config ∧ d.InBounds ∧ d.LookupsInBounds ∧ d.NoEpsilon := by
  have hobtained : unfinished.Obtained := .step (.start _) (.addTerminal _ (.string _))
  exact ⟨hobtained, hobtained.in_bounds⟩

end Automaton

end TableLexer
