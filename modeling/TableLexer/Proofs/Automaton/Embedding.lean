import TableLexer.Proofs.Builder.Copy

/-! A part of an automaton that no edge leaves, found again in another automaton under other names: it
has the same paths there, and the same fragments. -/
namespace TableLexer

/-- The nodes that can be reached are found again under their new names. -/
private theorem reachable_map {rename : Nat → Nat} (hmono : StrictMono rename) {part : Set Nat}
    {next next' : Nat → List Nat} {size size' start : Nat} (hclosed : ∀ p ∈ part, ∀ q ∈ next p, q ∈ part)
    (hnext : ∀ p ∈ part, ∀ q, q ∈ next' (rename p) ↔ ∃ m ∈ next p, rename m = q)
    (hpart : start ∈ part) (hstart : start < size) (hstart' : rename start < size')
    (hlt : ∀ p < size, ∀ q ∈ next p, q < size) (hlt' : ∀ p < size', ∀ q ∈ next' p, q < size') :
    reachable next' size' [rename start] = (reachable next size [start]).map rename ∧
      ∀ p ∈ reachable next size [start], p ∈ part := by
  have hin {s p : Nat} (hs : s ∈ part) (hpath : Relation.ReflTransGen (fun p q => q ∈ next p) s p) :
      p ∈ part := by
    induction hpath with
    | refl => exact hs
    | tail _ hstep ih => exact hclosed _ ih _ hstep
  have hforth {s p : Nat} (hs : s ∈ part) (hpath : Relation.ReflTransGen (fun p q => q ∈ next p) s p) :
      Relation.ReflTransGen (fun p q => q ∈ next' p) (rename s) (rename p) := by
    induction hpath with
    | refl => exact .refl
    | tail hpath hstep ih => exact ih.tail ((hnext _ (hin hs hpath) _).2 ⟨_, hstep, rfl⟩)
  have hback {s p' : Nat} (hs : s ∈ part)
      (hpath : Relation.ReflTransGen (fun p q => q ∈ next' p) (rename s) p') :
      ∃ p, rename p = p' ∧ Relation.ReflTransGen (fun p q => q ∈ next p) s p := by
    induction hpath with
    | refl => exact ⟨s, rfl, .refl⟩
    | tail _ hstep ih =>
      obtain ⟨p, rfl, hbefore⟩ := ih
      obtain ⟨q, hq, rfl⟩ := (hnext p (hin hs hbefore) _).1 hstep
      exact ⟨q, rfl, hbefore.tail hq⟩
  have hmem (p : Nat) : p ∈ reachable next size [start] ↔
      Relation.ReflTransGen (fun p q => q ∈ next p) start p := by
    rw [mem_reachable (by simpa using hstart) hlt]
    simp
  constructor
  · refine List.Pairwise.eq_of_mem_iff (ascending_reachable ..)
      (List.pairwise_map.2 ((ascending_reachable ..).imp fun hlt => hmono hlt)) fun p' => ?_
    rw [mem_reachable (by simpa using hstart') hlt']
    simp only [List.mem_map, hmem, List.mem_singleton, exists_eq_left]
    constructor
    · intro hpath
      obtain ⟨p, rfl, hpath'⟩ := hback hpart hpath
      exact ⟨p, hpath', rfl⟩
    · intro hresult
      obtain ⟨p, hpath, rfl⟩ := hresult
      exact hforth hpart hpath
  · intro p hp
    exact hin hpart ((hmem p).1 hp)

/-- The fragment with other names for its ends. -/
def Fragment.renamed (f : Fragment) (rename : StateId → StateId) : Fragment :=
  ⟨rename f.entry, rename f.exit⟩

theorem Fragment.renamed_id (f : Fragment) : f.renamed id = f := rfl

namespace Automaton

/-- A part of an automaton that no edge leaves is found in another one, under other names that are in
the same order. -/
structure Embeds (rename : StateId → StateId) (part : Set StateId) (a b : Automaton) : Prop where
  strictMono : StrictMono rename
  closed : ∀ p ∈ part, ∀ q ∈ a.successorsOf p, q ∈ part
  state : ∀ p ∈ part, b.state? (rename p) = (a.state? p).map (·.renamed rename)

namespace Embeds

variable {rename : StateId → StateId} {part : Set StateId} {a b : Automaton} {p q : StateId} {w : List Symbol}
  (h : Embeds rename part a b)
include h

private theorem successorsOf_eq (hp : p ∈ part) : b.successorsOf (rename p) = (a.successorsOf p).map rename := by
  rw [successorsOf, successorsOf, h.state p hp]
  cases a.state? p with
  | none => rfl
  | some state => exact state.successors_renamed rename

theorem edge_iff (hp : p ∈ part) {l : Option Symbol} :
    b.Edge (rename p) l q ↔ ∃ m, a.Edge p l m ∧ rename m = q := by
  cases l with
  | none =>
    rw [edge_none_iff, h.state p hp]
    simp only [edge_none_iff]
    cases a.state? p <;> simp [State.renamed_eq]
  | some s =>
    rw [edge_some_iff, h.state p hp]
    simp only [edge_some_iff]
    cases a.state? p <;> simp [State.transition_renamed]

theorem edge_mem (ha : a.WellFormed) (hp : p ∈ part) {l : Option Symbol} (edge : a.Edge p l q) : q ∈ part :=
  h.closed p hp q ((mem_successorsOf ha).2 ⟨l, edge⟩)

/-- The paths through the part are those through it under its new names. -/
theorem path_iff (ha : a.WellFormed) (hp : p ∈ part) :
    Path b.Edge (rename p) w q ↔ ∃ m, Path a.Edge p w m ∧ rename m = q :=
  Path.rename_iff (fun _ hp _ _ edge => h.edge_mem ha hp edge) (fun _ hp _ _ => h.edge_iff hp) hp

theorem path_rename_iff (ha : a.WellFormed) (hp : p ∈ part) :
    Path b.Edge (rename p) w (rename q) ↔ Path a.Edge p w q := by
  rw [h.path_iff ha hp]
  simp [h.strictMono.injective.eq_iff]

section fragment

variable {f : Fragment} (ha : a.WellFormed) (hb : b.WellFormed) (hlt : f.entry < a.size)
  (hlt' : rename f.entry < b.size) (hentry : f.entry ∈ part)
include ha hb hlt hlt' hentry

private theorem reachable_entry :
    reachable b.successorsOf b.size [rename f.entry] =
        (reachable a.successorsOf a.size [f.entry]).map rename ∧
      ∀ p ∈ reachable a.successorsOf a.size [f.entry], p ∈ part :=
  reachable_map h.strictMono h.closed (fun p hp q => by rw [h.successorsOf_eq hp, List.mem_map])
    hentry hlt hlt' (fun _ _ _ hq => successorsOf_lt ha hq) fun _ _ _ hq => successorsOf_lt hb hq

private theorem back_mem (hq : q ∈ a.back f p) : q ∈ part := by
  unfold back at hq
  split at hq
  · simp at hq
  · exact (h.reachable_entry ha hb hlt hlt' hentry).2 q (mem_sourcesOf.1 hq).1

private theorem mem_back_renamed : q ∈ b.back (f.renamed rename) (rename p) ↔ ∃ m ∈ a.back f p, rename m = q := by
  have hinj := h.strictMono.injective
  obtain ⟨hsources, hmem⟩ := h.reachable_entry ha hb hlt hlt' hentry
  unfold back
  simp only [Fragment.renamed, hinj.eq_iff, hinj.ne_iff, hsources]
  split
  · simp
  · simp only [mem_sourcesOf, List.mem_map]
    constructor
    · intro hresult
      obtain ⟨⟨m, hm, rfl⟩, hp⟩ := hresult
      rw [h.successorsOf_eq (hmem m hm), List.mem_map_of_injective hinj] at hp
      exact ⟨m, ⟨hm, hp⟩, rfl⟩
    · intro hresult
      obtain ⟨m, ⟨hm, hp⟩, rfl⟩ := hresult
      refine ⟨⟨m, hm, rfl⟩, ?_⟩
      rw [h.successorsOf_eq (hmem m hm)]
      exact List.mem_map_of_mem hp

end fragment

/-- The states of a fragment within the part are found again as the states of the fragment with the
new names. -/
theorem members_eq (ha : a.WellFormed) (hb : b.WellFormed) {f : Fragment} (hf : a.owns f)
    (hg : b.owns (f.renamed rename)) (hentry : f.entry ∈ part) (hexit : f.exit ∈ part) :
    b.members (f.renamed rename) = (a.members f).map rename ∧ ∀ p ∈ a.members f, p ∈ part := by
  obtain ⟨hlt, hlt'⟩ := owns_iff.1 hf
  obtain ⟨hgt, hgt'⟩ := owns_iff.1 hg
  have hfound : reachable (b.back (f.renamed rename)) b.size [rename f.exit] =
      (reachable (a.back f) a.size [f.exit]).map rename ∧ ∀ p ∈ reachable (a.back f) a.size [f.exit], p ∈ part :=
    reachable_map h.strictMono (fun p _ q hq => h.back_mem ha hb hlt hgt hentry hq)
      (fun p _ q => h.mem_back_renamed ha hb hlt hgt hentry) hexit hlt' hgt'
      (fun p _ q hq => lt_of_mem_back ha hlt hq) fun p _ q hq => lt_of_mem_back hb hgt hq
  obtain ⟨heq, hin⟩ := hfound
  rw [members_eq_insertTarget, members_eq_insertTarget]
  refine ⟨?_, fun p hp => ?_⟩
  · rw [← State.insertTarget_map h.strictMono]
    exact congrArg _ heq
  · rcases State.mem_insertTarget.1 hp with rfl | hp
    · exact hentry
    · exact hin p hp

end Embeds

end Automaton

end TableLexer
