import TableLexer.Proofs.Automaton.Subset

/-! Epsilon closures are closures, and those that are put together from remembered ones are the same sets. -/
namespace TableLexer

namespace Automaton

variable {a : Automaton} {known : Closures} {set other : StateSet}

/-- The state `q` is reached from `p` over epsilon edges, if any. -/
def Silently (a : Automaton) (p q : StateId) : Prop := Relation.ReflTransGen (fun p q => q ∈ a.epsilonOf p) p q

/-- What it means that taking the epsilon closure of a set over the states of an automaton is a closure. The loop
visits each state at most once and then ends with what is reached, and the result depends on this alone. -/
structure Closes (a : Automaton) : Prop where
  ends : ∀ set : StateSet, set.Over a.size → ∃ n ≤ a.size + 1, ∃ seen,
    Ends (exploreRound a.epsilonOf) (set.toList.foldl visit ([], ∅)) n seen ∧
      a.epsilonClosure set = .ofList a.size seen.toList
  bounded : ∀ set : StateSet, set.Over a.size → (a.epsilonClosure set).Over a.size
  mem : ∀ set : StateSet, set.Over a.size → ∀ q, q ∈ a.epsilonClosure set ↔ ∃ p ∈ set, a.Silently p q
  extensive : ∀ set : StateSet, set.Over a.size → ∀ q ∈ set, q ∈ a.epsilonClosure set
  monotone : ∀ set other : StateSet, set.Over a.size → other.Over a.size → (∀ q ∈ set, q ∈ other) →
    ∀ q ∈ a.epsilonClosure set, q ∈ a.epsilonClosure other
  idempotent : ∀ set : StateSet, set.Over a.size → a.epsilonClosure (a.epsilonClosure set) = a.epsilonClosure set
  union : ∀ set other : StateSet, set.Over a.size → other.Over a.size →
    a.epsilonClosure (set.union other) = (a.epsilonClosure set).union (a.epsilonClosure other)

/-- The closures that may be remembered: none at first, and whatever asking for closures of states and of lists of
states has left behind since. -/
inductive Asked (a : Automaton) : Closures → Prop where
  | start : Asked a (Array.replicate a.size none)
  | closureOf {known : Closures} (h : Asked a known) {id : StateId} (hid : id < a.size) :
      Asked a (a.closureOf known id).2
  | closure {known : Closures} (h : Asked a known) {ids : List StateId} (hids : ∀ id ∈ ids, id < a.size) :
      Asked a (a.closure known ids).2

namespace EpsilonInBounds

variable (h : a.EpsilonInBounds)
include h

theorem mem_closure_iff (hset : set.Over a.size) (q : StateId) :
    q ∈ a.epsilonClosure set ↔ ∃ p ∈ set, a.Silently p q := by
  rw [h.mem_epsilonClosure hset]
  simp only [Path.nil_iff, edge_none, Silently]

private theorem extensive (hset : set.Over a.size) : ∀ q ∈ set, q ∈ a.epsilonClosure set :=
  fun q hq => (h.mem_closure_iff hset q).2 ⟨q, hq, .refl⟩

private theorem monotone (hset : set.Over a.size) (hother : other.Over a.size) (hle : ∀ q ∈ set, q ∈ other) :
    ∀ q ∈ a.epsilonClosure set, q ∈ a.epsilonClosure other := by
  intro q hq
  obtain ⟨p, hp, hpath⟩ := (h.mem_closure_iff hset q).1 hq
  exact (h.mem_closure_iff hother q).2 ⟨p, hle p hp, hpath⟩

private theorem idempotent (hset : set.Over a.size) :
    a.epsilonClosure (a.epsilonClosure set) = a.epsilonClosure set := by
  have hclosure := over_epsilonClosure hset
  refine (over_epsilonClosure hclosure).ext hclosure fun q => ⟨fun hq => ?_, h.extensive hclosure q⟩
  obtain ⟨m, hm, hpath⟩ := (h.mem_closure_iff hclosure q).1 hq
  obtain ⟨p, hp, hpath'⟩ := (h.mem_closure_iff hset m).1 hm
  exact (h.mem_closure_iff hset q).2 ⟨p, hp, hpath'.trans hpath⟩

theorem union (hset : set.Over a.size) (hother : other.Over a.size) :
    a.epsilonClosure (set.union other) = (a.epsilonClosure set).union (a.epsilonClosure other) := by
  have hunion := hset.union hother
  have hclosure := over_epsilonClosure hset
  have hclosure' := over_epsilonClosure hother
  refine (over_epsilonClosure hunion).ext (hclosure.union hclosure') fun q => ?_
  rw [hclosure.mem_union hclosure', h.mem_closure_iff hunion, h.mem_closure_iff hset, h.mem_closure_iff hother]
  simp only [hset.mem_union hother, or_and_right, exists_or]

private theorem closes : a.Closes where
  ends set hset := by
    have hstarts : ∀ p ∈ set.toList, p < a.size := fun p hp => hset.bound p (StateSet.mem_toList.1 hp)
    obtain ⟨n, hn, seen, hends, hseen⟩ := ends_reachable hstarts fun _ _ => h.target_lt
    exact ⟨n, hn, seen, hends, by rw [epsilonClosure, hset.capacity, hseen]⟩
  bounded _ := over_epsilonClosure
  mem _ := h.mem_closure_iff
  extensive _ := h.extensive
  monotone _ _ := h.monotone
  idempotent _ := h.idempotent
  union _ _ := h.union

/-- Nothing is remembered but what computing it anew would give. -/
theorem remembered (hknown : a.Asked known) : a.Remembered known := by
  induction hknown with
  | start => exact a.remembered_replicate a.size
  | closureOf _ _ ih => exact (closureOf_spec ih _).2
  | closure _ hids ih => exact (closure_spec h ih hids).2

/-- If no epsilon edge leads out of the arena, taking the epsilon closure of a set of states is a closure. Whatever has
been asked before, a closure that is put together from remembered ones is the same set, in whatever order the states are
given, and however often. -/
theorem closures_agree : a.Closes ∧ ∀ known, a.Asked known →
    (∀ id < a.size, (a.closureOf known id).1 = a.epsilonClosure (.ofList a.size [id])) ∧
      ∀ (set : StateSet) (ids : List StateId), set.Over a.size → (∀ id, id ∈ ids ↔ id ∈ set) →
        (a.closure known ids).1 = a.epsilonClosure set := by
  refine ⟨h.closes, fun known hknown => ⟨fun id _ => (closureOf_spec (h.remembered hknown) id).1, ?_⟩⟩
  intro set ids hset hids
  have hlt : ∀ id ∈ ids, id < a.size := fun id hid => hset.bound id ((hids id).1 hid)
  have hsame : StateSet.ofList a.size ids = set := by
    refine (StateSet.over_ofList a.size ids).ext hset fun id => ?_
    rw [StateSet.mem_ofList, and_iff_left_of_imp (hlt id), hids]
  rw [(closure_spec h (h.remembered hknown) hlt).1, hsame]

end EpsilonInBounds

/-- Three states whose epsilon edges lead round, and a fourth one to which they lead. -/
def roundabout : Automaton := { states := #[{ epsilon := [1] }, { epsilon := [2] }, { epsilon := [0, 3] }, {}] }

theorem EpsilonInBounds.closures_agree_roundabout :
    let known := (roundabout.closureOf (Array.replicate 4 none) 2).2
    roundabout.EpsilonInBounds ∧ roundabout.Asked known ∧
      (roundabout.closure known [3, 1, 3]).1 = roundabout.epsilonClosure (.ofList 4 [1, 3]) := by
  intro known
  have hbounds : roundabout.EpsilonInBounds := by
    unfold EpsilonInBounds
    decide
  have hasked : roundabout.Asked known := .closureOf .start (by decide)
  refine ⟨hbounds, hasked, (hbounds.closures_agree.2 known hasked).2 (.ofList 4 [1, 3]) [3, 1, 3] ?_ fun id => ?_⟩
  · exact StateSet.over_ofList ..
  · rw [StateSet.mem_ofList]
    grind

end Automaton

end TableLexer
