import Mathlib.Data.List.Nodup
import Mathlib.Data.List.Perm.Subperm
import TableLexer.Automaton.Copy
import TableLexer.Proofs.Builder.Combinators

/-! What copying a fragment adds: new states that stand for the states of the fragment, with the
edges between them. -/
namespace TableLexer

/-- The edges between states with new names, under these names. -/
def duplicated (pairs : List (StateId × StateId)) (E : Graph) : Graph :=
  fun p l q => ∃ p' q', (p', p) ∈ pairs ∧ (q', q) ∈ pairs ∧ E p' l q'

namespace Automaton

variable {a : Automaton} {f : Fragment} {p q : StateId}

theorem mem_successorsOf (ha : a.WellFormed) : q ∈ a.successorsOf p ↔ ∃ l, a.Edge p l q := by
  rw [successorsOf]
  constructor
  · intro hq
    cases hp : a.state? p with
    | none => simp [hp] at hq
    | some state =>
      rw [hp, Option.map_some, Option.getD_some, State.mem_successors (ha.sound p state hp).ascending] at hq
      rcases hq with ⟨s, hs⟩ | hq
      · exact ⟨some s, edge_some_iff.2 ⟨state, hp, hs⟩⟩
      · exact ⟨none, edge_none_iff.2 ⟨state, hp, hq⟩⟩
  · intro hedge
    rcases hedge with ⟨l | s, edge⟩
    · obtain ⟨state, hp, hq⟩ := edge_none_iff.1 edge
      rw [hp, Option.map_some, Option.getD_some, State.mem_successors (ha.sound p state hp).ascending]
      exact .inr hq
    · obtain ⟨state, hp, hs⟩ := edge_some_iff.1 edge
      rw [hp, Option.map_some, Option.getD_some, State.mem_successors (ha.sound p state hp).ascending]
      exact .inl ⟨s, hs⟩

theorem successorsOf_lt (ha : a.WellFormed) (hq : q ∈ a.successorsOf p) : q < a.size := by
  obtain ⟨l, edge⟩ := (mem_successorsOf ha).1 hq
  exact ha.edge_lt edge

private theorem mem_foldl_insert {targets : List StateId} {sources : Std.TreeMap StateId (List StateId)}
    {id : StateId} :
    p ∈ (targets.foldl (fun sources target => sources.insert target (id :: sources.getD target []))
      sources).getD q [] ↔ p ∈ sources.getD q [] ∨ p = id ∧ q ∈ targets := by
  induction targets generalizing sources with
  | nil => simp
  | cons target targets ih =>
    rw [List.foldl_cons, ih, Std.TreeMap.getD_insert]
    split
    · next heq =>
      obtain rfl : target = q := Std.LawfulEqCmp.eq_of_compare heq
      grind
    · next hne =>
      have : target ≠ q := fun heq => hne (heq ▸ Std.ReflCmp.compare_self)
      grind

theorem mem_sourcesOf {ids : List StateId} :
    p ∈ (a.sourcesOf ids).getD q [] ↔ p ∈ ids ∧ q ∈ a.successorsOf p := by
  have hfold (sources : Std.TreeMap StateId (List StateId)) :
      p ∈ (ids.foldl (fun sources id => (a.successorsOf id).foldl
        (fun sources target => sources.insert target (id :: sources.getD target [])) sources)
          sources).getD q [] ↔ p ∈ sources.getD q [] ∨ p ∈ ids ∧ q ∈ a.successorsOf p := by
    induction ids generalizing sources with
    | nil => simp
    | cons id ids ih =>
      rw [List.foldl_cons, ih, mem_foldl_insert]
      grind
  rw [sourcesOf, hfold]
  simp

theorem entry_mem_members (a : Automaton) (f : Fragment) : f.entry ∈ a.members f :=
  State.mem_insertTarget.2 (.inl rfl)

private theorem mem_reachable_successorsOf (ha : a.WellFormed) (hp : p < a.size) :
    q ∈ reachable a.successorsOf a.size [p] ↔ ∃ w, Path a.Edge p w q := by
  rw [mem_reachable (by simpa using hp) fun _ _ _ => successorsOf_lt ha, Path.exists_iff]
  simp only [mem_successorsOf ha, List.mem_singleton, exists_eq_left]

/-- The states from which an edge leads to a state, of those that the entry of a fragment leads to. The way
back from the exit ends at the entry. -/
def back (a : Automaton) (f : Fragment) (id : StateId) : List StateId :=
  if id = f.entry ∧ id ≠ f.exit then [] else
    (a.sourcesOf (reachable a.successorsOf a.size [f.entry])).getD id []

theorem members_eq_insertTarget (a : Automaton) (f : Fragment) :
    a.members f = State.insertTarget f.entry (reachable (a.back f) a.size [f.exit]) := rfl

theorem lt_of_mem_back (ha : a.WellFormed) (hentry : f.entry < a.size) (hp : p ∈ a.back f q) : p < a.size := by
  unfold back at hp
  split at hp
  · simp at hp
  · obtain ⟨w, hw⟩ := (mem_reachable_successorsOf ha hentry).1 (mem_sourcesOf.1 hp).1
    exact ha.path_lt hw hentry

theorem members_lt (ha : a.WellFormed) (hf : a.owns f) (hp : p ∈ a.members f) : p < a.size := by
  obtain ⟨hentry, hexit⟩ := owns_iff.1 hf
  rcases State.mem_insertTarget.1 hp with rfl | hp
  · exact hentry
  · exact reachable_lt (by simpa using hexit) (fun m _ p hp => lt_of_mem_back ha hentry hp) hp

/-- The edges that do not lead back to the entry of a fragment, unless this is its exit, too. -/
def direct (a : Automaton) (f : Fragment) : Graph := fun p l q => (q = f.entry → q = f.exit) ∧ a.Edge p l q

private theorem mem_back_iff (ha : a.WellFormed) (hentry : f.entry < a.size) :
    p ∈ a.back f q ↔ (∃ w, Path a.Edge f.entry w p) ∧ ∃ l, a.direct f p l q := by
  unfold back
  split
  · next h => simp [direct, h.1, h.1 ▸ h.2]
  · next h =>
    have hq : q = f.entry → q = f.exit := by simpa using h
    simp only [mem_sourcesOf, mem_reachable_successorsOf ha hentry, mem_successorsOf ha, direct,
      and_iff_right hq]

/-- The states of a fragment are its entry and those from which a direct path leads to the exit. -/
theorem mem_members_iff (ha : a.WellFormed) (hf : a.owns f) :
    p ∈ a.members f ↔ p = f.entry ∨ (p = f.exit ∨ ∃ w, Path a.Edge f.entry w p) ∧
      ∃ w, Path (a.direct f) p w f.exit := by
  obtain ⟨hentry, hexit⟩ := owns_iff.1 hf
  rw [members_eq_insertTarget, State.mem_insertTarget]
  refine or_congr_right ?_
  rw [mem_reachable (by simpa using hexit) fun m _ p hp => lt_of_mem_back ha hentry hp]
  simp only [mem_back_iff ha hentry, List.mem_singleton, exists_eq_left]
  constructor
  · intro hpath
    induction hpath with
    | refl => exact ⟨.inl rfl, [], .refl _⟩
    | tail _ hstep ih =>
      obtain ⟨hreach, l, edge⟩ := hstep
      obtain ⟨-, w, hw⟩ := ih
      exact ⟨.inr hreach, _, .step edge hw⟩
  · intro hpath
    obtain ⟨hreach, hpath⟩ := hpath
    rw [Path.exists_iff] at hpath
    induction hpath using Relation.ReflTransGen.head_induction_on with
    | refl => exact .refl
    | @head p m hedge _ ih =>
      rcases hreach with rfl | ⟨w, hw⟩
      · exact .refl
      · obtain ⟨l, edge⟩ := hedge
        exact (ih (.inr ⟨_, hw.trans (.single edge.2)⟩)).tail ⟨⟨w, hw⟩, l, edge⟩

private theorem direct_eq_onward (hne : f.entry ≠ f.exit) : a.direct f = a.Edge.onward f.entry := by
  funext p l q
  refine propext (and_congr_left fun _ => ⟨fun h heq => ?_, fun h heq => absurd heq h⟩)
  exact hne (heq.symm.trans (h heq))

/-- The states of a fragment are its entry and those from which a path leads to the exit without
coming back to the entry. -/
theorem mem_members (ha : a.WellFormed) (hf : a.owns f) (hne : f.entry ≠ f.exit) :
    p ∈ a.members f ↔ p = f.entry ∨ (p = f.exit ∨ ∃ w, Path a.Edge f.entry w p) ∧
      ∃ w, Path (a.Edge.onward f.entry) p w f.exit := by
  rw [mem_members_iff ha hf, direct_eq_onward hne]

theorem exit_mem_members (a : Automaton) (f : Fragment) : f.exit ∈ a.members f :=
  State.mem_insertTarget.2 (.inr (self_mem_reachable _ a.size f.exit))

theorem members_nodup (a : Automaton) (f : Fragment) : (a.members f).Nodup :=
  (State.ascending_insertTarget (ascending_reachable ..) f.entry).imp Nat.ne_of_lt

theorem length_members_le (ha : a.WellFormed) (hf : a.owns f) : (a.members f).length ≤ a.size := by
  have hrange : a.members f ⊆ List.range a.size := fun p hp => List.mem_range.2 (members_lt ha hf hp)
  simpa using (List.subperm_of_subset (members_nodup a f) hrange).length_le

end Automaton

namespace Builder

open Automaton

variable {a : Automaton}

theorem Leads.duplicate {ids : List StateId} {made : List (StateId × StateId)} (ha : a.WellFormed) :
    Leads (duplicate ids made) a fun pairs b =>
      pairs = made.reverse ++ ids.zipIdx a.size ∧ b.size = a.size + ids.length ∧ a.Adds b ⊥ := by
  induction ids generalizing a made with
  | nil => exact pure ha ⟨by simp, rfl, .refl a⟩
  | cons id ids ih =>
    refine (newState ha).bind fun new b hb => ?_
    intro hresult
    obtain ⟨rfl, rfl⟩ := hresult
    refine (ih hb.wellFormed).mono ?_
    intro pairs c _ hadded
    obtain ⟨rfl, hsize, hadds⟩ := hadded
    rw [size_extended] at hsize
    refine ⟨by simp, by simp [hsize, Nat.add_assoc, Nat.add_comm], ?_⟩
    simpa using (Adds.extended a).trans hadds

/-- The new name of a state. -/
def nameOf (pairs : List (StateId × StateId)) : StateId → Option StateId :=
  (Std.TreeMap.ofList pairs).get?

theorem nameOf_eq_some_iff {pairs : List (StateId × StateId)} (hnodup : (pairs.map (·.1)).Nodup)
    {p q : StateId} : nameOf pairs p = some q ↔ (p, q) ∈ pairs := by
  have hdistinct : pairs.Pairwise fun x y => ¬ compare x.1 y.1 = .eq :=
    (List.pairwise_map.1 hnodup).imp fun hne heq => hne (Std.LawfulEqCmp.eq_of_compare heq)
  have hmem (q : StateId) (h : (p, q) ∈ pairs) : nameOf pairs p = some q :=
    Std.TreeMap.getElem?_ofList_of_mem Std.ReflCmp.compare_self hdistinct h
  refine ⟨fun h => ?_, hmem q⟩
  by_cases hkey : (pairs.map Prod.fst).contains p = true
  · obtain ⟨⟨_, q'⟩, hq', rfl⟩ := List.mem_map.1 (List.contains_iff_mem.1 hkey)
    obtain rfl := Option.some.inj ((hmem q' hq').symm.trans h)
    exact hq'
  · rw [Bool.not_eq_true] at hkey
    have hnone : nameOf pairs p = none := Std.TreeMap.getElem?_ofList_of_contains_eq_false hkey
    simp [hnone] at h

/-- Names for the states of a copy. The states that are copied are different ones below a bound, and their names are
different states from the bound on, in an automaton of some size. -/
structure Naming (pairs : List (StateId × StateId)) (n size : Nat) : Prop where
  fresh : ∀ pair ∈ pairs, pair.1 < n ∧ n ≤ pair.2
  lt : ∀ pair ∈ pairs, pair.2 < size
  nodup_old : (pairs.map (·.1)).Nodup
  nodup_new : (pairs.map (·.2)).Nodup

/-- Below the bound there are no names. -/
theorem Naming.notMem_of_lt {pairs : List (StateId × StateId)} {n size : Nat} {p : StateId}
    (h : Naming pairs n size) (hp : p < n) : p ∉ pairs.map (·.2) := by
  intro hmem
  obtain ⟨pair, hpair, rfl⟩ := List.mem_map.1 hmem
  exact Nat.not_le.2 hp (h.fresh pair hpair).2

/-- The same copy of states that have other names, to new states that come later. -/
def moved (rename : StateId → StateId) (k : Nat) (pairs : List (StateId × StateId)) : List (StateId × StateId) :=
  pairs.map fun pair => (rename pair.1, pair.2 + k)

section moved

variable {rename : StateId → StateId} {pairs : List (StateId × StateId)} {n size k : Nat}

private theorem map_fst_moved : (moved rename k pairs).map (·.1) = (pairs.map (·.1)).map rename := by simp [moved]

theorem map_snd_moved : (moved rename k pairs).map (·.2) = (pairs.map (·.2)).map (· + k) := by simp [moved]

theorem mem_moved {old new : StateId} (h : (old, new) ∈ pairs) : (rename old, new + k) ∈ moved rename k pairs :=
  List.mem_map_of_mem (f := fun pair => (rename pair.1, pair.2 + k)) h

theorem Naming.moved (h : Naming pairs n size) (hinj : Function.Injective rename)
    (hlt : ∀ pair ∈ pairs, rename pair.1 < n + k) : Naming (moved rename k pairs) (n + k) (size + k) where
  fresh := List.forall_mem_map.2 fun pair hpair => ⟨hlt pair hpair, Nat.add_le_add_right (h.fresh pair hpair).2 k⟩
  lt := List.forall_mem_map.2 fun pair hpair => Nat.add_lt_add_right (h.lt pair hpair) k
  nodup_old := map_fst_moved ▸ h.nodup_old.map hinj
  nodup_new := map_snd_moved ▸ h.nodup_new.map (add_left_injective k)

/-- The new name of a state that has another name is as much later. -/
theorem nameOf_moved (hnodup : (pairs.map (·.1)).Nodup) (hinj : Function.Injective rename) (k : Nat) (id : StateId) :
    nameOf (Builder.moved rename k pairs) (rename id) = (nameOf pairs id).map (· + k) := by
  have hnodup' : ((Builder.moved rename k pairs).map (·.1)).Nodup := map_fst_moved ▸ hnodup.map hinj
  ext q
  rw [nameOf_eq_some_iff hnodup', Builder.moved, List.mem_map, Option.map_eq_some_iff]
  simp only [nameOf_eq_some_iff hnodup, Prod.mk.injEq, hinj.eq_iff]
  constructor
  · rintro ⟨pair, hmem, rfl, hq⟩
    exact ⟨pair.2, hmem, hq⟩
  · rintro ⟨new, hmem, hq⟩
    exact ⟨(id, new), hmem, rfl, hq⟩

end moved

/-- Lets one new state behave as the one it stands for. -/
private def fill (rename : StateId → Option StateId) (a : Automaton) (pair : StateId × StateId) :
    Automaton :=
  match a.state? pair.1 with
  | some q => a.modifyState pair.2 fun _ => q.restricted rename
  | none => a

private theorem fillIn_eq_foldl (pairs : List (StateId × StateId)) (a : Automaton) :
    fillIn pairs a = pairs.foldl (fill (nameOf pairs)) a := rfl

private theorem size_fill (rename : StateId → Option StateId) (a : Automaton) (pair : StateId × StateId) :
    (fill rename a pair).size = a.size := by
  unfold fill
  split
  · exact size_modifyState ..
  · rfl

/-- No states are added when new ones are filled in. -/
theorem fillIn_keeps (pairs : List (StateId × StateId)) (a : Automaton) : (fillIn pairs a).size = a.size ∧
    (fillIn pairs a).deterministic = a.deterministic ∧ (fillIn pairs a).config = a.config := by
  rw [fillIn_eq_foldl]
  refine List.foldlRecOn pairs _ (motive := fun b : Automaton => b.size = a.size ∧
    b.deterministic = a.deterministic ∧ b.config = a.config) ⟨rfl, rfl, rfl⟩ ?_
  intro b hb pair _
  obtain ⟨hsize, hkeep⟩ := hb
  refine ⟨(size_fill _ b pair).trans hsize, ?_⟩
  unfold fill
  split <;> exact hkeep

private theorem grows_fill {rename : StateId → Option StateId} (ha : a.WellFormed)
    (hlt : ∀ old new, rename old = some new → new < a.size) (pair : StateId × StateId) :
    a.Grows (fill rename a pair) := by
  unfold fill
  split
  · next q hq => exact .modifyState ha _ fun _ _ => (ha.sound _ q hq).restricted hlt
  · exact .refl ha

private theorem grows_foldl_fill {rename : StateId → Option StateId}
    {pairs : List (StateId × StateId)} (ha : a.WellFormed)
    (hlt : ∀ old new, rename old = some new → new < a.size) :
    a.Grows (pairs.foldl (fill rename) a) := by
  induction pairs generalizing a with
  | nil => exact .refl ha
  | cons pair pairs ih =>
    have hgrows := grows_fill ha hlt pair
    exact hgrows.trans (ih hgrows.wellFormed fun old new h => size_fill rename a pair ▸ hlt old new h)

/-- As the new states come after those that they stand for, the latter stay what they are while the
former are filled in. -/
private theorem state?_foldl_fill {rename : StateId → Option StateId} {n : Nat}
    {pairs : List (StateId × StateId)} (hfresh : ∀ pair ∈ pairs, pair.1 < n ∧ n ≤ pair.2)
    (hlt : ∀ pair ∈ pairs, pair.2 < a.size) (hnodup : (pairs.map (·.2)).Nodup) :
    (∀ j, j ∉ pairs.map (·.2) → (pairs.foldl (fill rename) a).state? j = a.state? j) ∧
      ∀ old new, (old, new) ∈ pairs →
        (pairs.foldl (fill rename) a).state? new = (a.state? old).map (·.restricted rename) := by
  induction pairs generalizing a with
  | nil => exact ⟨fun _ _ => rfl, fun _ _ h => by simp at h⟩
  | cons pair pairs ih =>
    obtain ⟨old, new⟩ := pair
    obtain ⟨hpair, hpairs⟩ := List.forall_mem_cons.1 hfresh
    obtain ⟨hnew, hlt⟩ := List.forall_mem_cons.1 hlt
    rw [List.map_cons, List.nodup_cons] at hnodup
    obtain ⟨hnot, hnodup⟩ := hnodup
    obtain ⟨state, hstate⟩ := exists_state?
      (Nat.lt_of_lt_of_le hpair.1 (Nat.le_trans hpair.2 (Nat.le_of_lt hnew)))
    have hfill : fill rename a (old, new) = a.modifyState new fun _ => state.restricted rename := by
      rw [fill, hstate]
    obtain ⟨hother, hfilled⟩ := @ih (fill rename a (old, new)) hpairs
      (by rw [hfill, size_modifyState]; exact hlt) hnodup
    have hbefore (j : StateId) (hj : j ≠ new) : (fill rename a (old, new)).state? j = a.state? j := by
      rw [hfill, state?_modifyState, if_neg (Ne.symm hj)]
    have hself : (fill rename a (old, new)).state? new = some (state.restricted rename) := by
      obtain ⟨q, hq⟩ := exists_state? hnew
      rw [hfill, state?_modifyState, if_pos rfl, hq]
      rfl
    refine ⟨fun j hj => ?_, fun old' new' hmem => ?_⟩
    · rw [List.map_cons, List.mem_cons, not_or] at hj
      rw [List.foldl_cons, hother j hj.2, hbefore j hj.1]
    · rw [List.foldl_cons]
      rcases List.mem_cons.1 hmem with heq | hmem
      · obtain ⟨rfl, rfl⟩ := Prod.mk.inj heq
        rw [hother new' hnot, hself, hstate]
        rfl
      · have hne : old' ≠ new := Nat.ne_of_lt (Nat.lt_of_lt_of_le (hpairs _ hmem).1 hpair.2)
        rw [hfilled old' new' hmem, hbefore old' hne]

theorem grows_fillIn {pairs : List (StateId × StateId)} {n : Nat} (ha : a.WellFormed) (h : Naming pairs n a.size) :
    a.Grows (fillIn pairs a) := by
  rw [fillIn_eq_foldl]
  exact grows_foldl_fill ha fun old new hname => h.lt _ ((nameOf_eq_some_iff h.nodup_old).1 hname)

private theorem initial_foldl_fill (rename : StateId → Option StateId)
    (pairs : List (StateId × StateId)) (a : Automaton) :
    (pairs.foldl (fill rename) a).initial = a.initial ∧
      (pairs.foldl (fill rename) a).terminals = a.terminals ∧
      (pairs.foldl (fill rename) a).definitions = a.definitions := by
  induction pairs generalizing a with
  | nil => exact ⟨rfl, rfl, rfl⟩
  | cons pair pairs ih =>
    rw [List.foldl_cons]
    have hfill : (fill rename a pair).initial = a.initial ∧
        (fill rename a pair).terminals = a.terminals ∧
        (fill rename a pair).definitions = a.definitions := by
      unfold fill
      split <;> exact ⟨rfl, rfl, rfl⟩
    obtain ⟨hinitial, hterminals, hdefinitions⟩ := ih (fill rename a pair)
    exact ⟨hinitial.trans hfill.1, hterminals.trans hfill.2.1, hdefinitions.trans hfill.2.2⟩

/-- Filling new states in makes them what the states they stand for are, within the new states, and
changes nothing else. -/
theorem state?_fillIn {pairs : List (StateId × StateId)} {n : Nat} (h : Naming pairs n a.size) :
    (∀ j, j ∉ pairs.map (·.2) → (fillIn pairs a).state? j = a.state? j) ∧
      ∀ old new, (old, new) ∈ pairs →
        (fillIn pairs a).state? new = (a.state? old).map (·.restricted (nameOf pairs)) :=
  state?_foldl_fill h.fresh h.lt h.nodup_new

theorem initial_fillIn (pairs : List (StateId × StateId)) (a : Automaton) :
    (fillIn pairs a).initial = a.initial ∧ (fillIn pairs a).terminals = a.terminals ∧
      (fillIn pairs a).definitions = a.definitions := initial_foldl_fill (nameOf pairs) pairs a

private theorem edge_of_restricted {b : Automaton} (ha : a.WellFormed) {old new q : StateId}
    {l : Option Symbol} {rename : StateId → Option StateId}
    (h : b.state? new = (a.state? old).map (·.restricted rename)) :
    b.Edge new l q ↔ ∃ q', a.Edge old l q' ∧ rename q' = some q := by
  cases ho : a.state? old with
  | none =>
    rw [ho] at h
    cases l <;> simp [edge_none_iff, edge_some_iff, h, ho]
  | some state =>
    rw [ho] at h
    have hsound := ha.sound old state ho
    cases l with
    | none => simp [edge_none_iff, h, ho, State.mem_epsilon_restricted]
    | some s =>
      simp [edge_some_iff, h, ho, State.transition_restricted hsound.ascending,
        Option.bind_eq_some_iff]

theorem edge_congr {b : Automaton} {p q : StateId} {l : Option Symbol}
    (h : b.state? p = a.state? p) : b.Edge p l q ↔ a.Edge p l q := by
  cases l <;> simp [edge_none_iff, edge_some_iff, h]

section filled

variable {pairs : List (StateId × StateId)} {n : Nat} (ha : a.WellFormed)
  (h : Naming pairs n a.size)
include ha h

/-- New states without edges get the edges of those that they stand for. -/
theorem edge_fillIn (hidle : ∀ p, n ≤ p → a.Idle p) :
    (fillIn pairs a).Edge = a.Edge ⊔ duplicated pairs a.Edge := by
  obtain ⟨hother, hfilled⟩ := state?_fillIn h
  funext p l q
  refine propext ?_
  show _ ↔ a.Edge p l q ∨ ∃ p' q', (p', p) ∈ pairs ∧ (q', q) ∈ pairs ∧ a.Edge p' l q'
  by_cases hp : p ∈ pairs.map (·.2)
  · obtain ⟨⟨old, new⟩, hmem, rfl⟩ := List.mem_map.1 hp
    rw [edge_of_restricted ha (hfilled old new hmem)]
    simp only [nameOf_eq_some_iff h.nodup_old]
    constructor
    · intro hedge
      obtain ⟨q', edge, hq⟩ := hedge
      exact .inr ⟨old, q', hmem, hq, edge⟩
    · intro hedge
      rcases hedge with edge | ⟨p', q', hp', hq, edge⟩
      · exact absurd edge (hidle new (h.fresh _ hmem).2 l q)
      · obtain rfl : p' = old := congrArg Prod.fst (List.inj_on_of_nodup_map h.nodup_new hp' hmem rfl)
        exact ⟨q', edge, hq⟩
  · rw [edge_congr (hother p hp)]
    refine ⟨.inl, ?_⟩
    intro hedge
    rcases hedge with edge | ⟨p', q', hp', -⟩
    · exact edge
    · exact absurd (List.mem_map_of_mem hp') hp

private theorem adds_fillIn (hidle : ∀ p, n ≤ p → a.Idle p ∧ a.terminal? p = none)
    (hsilent : ∀ pair ∈ pairs, a.terminal? pair.1 = none) :
    a.Adds (fillIn pairs a) (duplicated pairs a.Edge) := by
  obtain ⟨hother, hfilled⟩ := state?_fillIn h
  have hkeep := initial_fillIn pairs a
  refine ⟨edge_fillIn ha h fun p hp => (hidle p hp).1, ?_, hkeep.1, hkeep.2.1, hkeep.2.2⟩
  funext p
  rw [terminal?, terminal?]
  by_cases hp : p ∈ pairs.map (·.2)
  · obtain ⟨⟨old, new⟩, hmem, rfl⟩ := List.mem_map.1 hp
    have hold := hsilent _ hmem
    have hnew := (hidle new (h.fresh _ hmem).2).2
    rw [terminal?] at hold hnew
    rw [hfilled old new hmem, hnew]
    cases ho : a.state? old with
    | none => rfl
    | some state => simpa [ho, State.restricted] using hold
  · rw [hother p hp]

end filled

/-- A fragment is copied to new states, with names of their own for all states of the fragment. -/
structure Copied (a b : Automaton) (f g : Fragment) : Prop where
  owns : a.owns f
  entry : (f.entry, g.entry) ∈ (a.members f).zipIdx a.size
  exit : (f.exit, g.exit) ∈ (a.members f).zipIdx a.size
  size_le : a.size + (a.members f).length ≤ b.size
  adds : (∀ id ∈ a.members f, a.terminal? id = none) →
    a.Adds b (duplicated ((a.members f).zipIdx a.size) a.Edge)

/-- Every one of some states with new names is found by its old name. -/
theorem exists_lookup {ids : List StateId} {n : Nat} {p : StateId} (hp : p ∈ ids) :
    ∃ q, (ids.zipIdx n).lookup p = some q ∧ (p, q) ∈ ids.zipIdx n := by
  induction ids generalizing n with
  | nil => simp at hp
  | cons id ids ih =>
    rw [List.zipIdx_cons, List.lookup_cons]
    by_cases heq : p = id
    · exact ⟨n, by simp [heq]⟩
    · rw [beq_false_of_ne heq]
      obtain ⟨q, hq, hmem⟩ := @ih (n + 1) ((List.mem_cons.1 hp).resolve_left heq)
      exact ⟨q, hq, List.mem_cons_of_mem _ hmem⟩

theorem mem_of_lookup {ids : List StateId} {n : Nat} {p : StateId} (hp : p ∈ ids) :
    (p, ((ids.zipIdx n).lookup p).getD p) ∈ ids.zipIdx n := by
  obtain ⟨q, hq, hmem⟩ := exists_lookup hp
  rwa [hq, Option.getD_some]

/-- The states of a fragment with the numbers that new states get. -/
def pairsOf (a : Automaton) (f : Fragment) : List (StateId × StateId) := (a.members f).zipIdx a.size

theorem nodup_old (a : Automaton) (f : Fragment) : ((pairsOf a f).map Prod.fst).Nodup := by
  rw [pairsOf, List.zipIdx_map_fst]
  exact members_nodup a f

theorem nodup_new (a : Automaton) (f : Fragment) : ((pairsOf a f).map Prod.snd).Nodup := by
  rw [pairsOf, List.zipIdx_map_snd]
  exact List.nodup_range'

theorem naming_pairsOf (ha : a.WellFormed) {f : Fragment} (hf : a.owns f) :
    Naming (pairsOf a f) a.size (a.size + (a.members f).length) where
  fresh _ h := ⟨members_lt ha hf (List.fst_mem_of_mem_zipIdx h), List.le_snd_of_mem_zipIdx h⟩
  lt _ h := List.snd_lt_add_of_mem_zipIdx h
  nodup_old := nodup_old a f
  nodup_new := nodup_new a f

theorem Leads.copy (ha : a.WellFormed) (f : Fragment) : Leads (copy f) a fun g b => Copied a b f g := by
  refine (check ha f).bind fun _ b _ => ?_
  intro hresult
  obtain ⟨rfl, hf⟩ := hresult
  refine (ensureMutable ha).bind fun _ c _ => ?_
  intro heq
  obtain rfl := heq
  refine (get ha).bind fun _ b _ => ?_
  intro hresult
  obtain ⟨rfl, rfl⟩ := hresult
  refine (duplicate ha).bind fun pairs c hc => ?_
  intro hadded
  obtain ⟨hpairs, hsize, hadds⟩ := hadded
  obtain rfl : pairs = pairsOf b f := hpairs
  have hnaming : Naming (pairsOf b f) b.size c.size := hsize ▸ naming_pairsOf ha hf
  refine (modify (grows_fillIn hc.wellFormed hnaming)).bind fun _ d hd => ?_
  intro heq
  obtain rfl := heq
  refine pure hd.wellFormed ⟨hf, mem_of_lookup (entry_mem_members b f), mem_of_lookup (exit_mem_members b f),
    hsize ▸ hd.size_le, fun hsilent => ?_⟩
  have hedge : c.Edge = b.Edge := by rw [hadds.edge, sup_bot_eq]
  have hfill : c.Adds (fillIn (pairsOf b f) c) (duplicated (pairsOf b f) c.Edge) := by
    refine adds_fillIn hc.wellFormed hnaming (fun p hp => ⟨?_, ?_⟩) fun pair h => ?_
    · exact hadds.idle (idle_of_size_le hp) fun _ _ => id
    · rw [hadds.terminal]
      exact terminal?_eq_none hp
    · rw [hadds.terminal]
      exact hsilent _ (List.fst_mem_of_mem_zipIdx h)
  rw [hedge] at hfill
  simpa [pairsOf] using hadds.trans hfill

theorem Copied.bounds {b : Automaton} {f g : Fragment} (h : Copied a b f g) {p q : StateId}
    (hmem : (p, q) ∈ (a.members f).zipIdx a.size) : a.size ≤ q ∧ q < b.size := by
  have hlt := List.snd_lt_add_of_mem_zipIdx hmem
  exact ⟨List.le_snd_of_mem_zipIdx hmem, Nat.lt_of_lt_of_le hlt h.size_le⟩

theorem Copied.owns_copy {b : Automaton} {f g : Fragment} (h : Copied a b f g) : b.owns g :=
  owns_iff.2 ⟨(h.bounds h.entry).2, (h.bounds h.exit).2⟩

end Builder

end TableLexer
