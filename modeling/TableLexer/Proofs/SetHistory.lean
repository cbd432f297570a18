import Mathlib.Data.Finset.Basic
import Mathlib.Data.List.Forall2
import TableLexer.Proofs.Loop
import TableLexer.Proofs.StateSet

/-! Sets kept as words stand for finite sets, whatever has been done to them. -/
namespace TableLexer

/-- What is done to a row of sets, which are counted from zero: a new set or a copy of one is put behind the
others, or one takes up an id, or all that another has. -/
inductive SetOperation where
  | create
  | clone (i : Nat)
  | insert (i id : Nat)
  | union (i j : Nat)
deriving DecidableEq

namespace SetOperation

/-- Only ids below the capacity are taken up. -/
def Fits (n : Nat) : SetOperation → Prop
  | .insert _ id => id < n
  | _ => True

instance (n : Nat) : DecidablePred (Fits n)
  | .insert _ id => Nat.decLt id n
  | .create | .clone _ | .union _ _ => .isTrue trivial

/-- A row of sets of any kind after an operation. What is done to a set that does not exist has no effect. -/
def perform {α : Type} (empty : α) (insert : α → Nat → α) (union : α → α → α) (sets : List α) : SetOperation → List α
  | .create => sets ++ [empty]
  | .clone i => sets ++ sets[i]?.toList
  | .insert i id => sets.modify i fun set => insert set id
  | .union i j => (sets[j]?.map fun other => sets.modify i fun set => union set other).getD sets

/-- The sets that a history of operations leads to, all of them over ids below `n`. -/
def sets (n : Nat) (history : List SetOperation) : List StateSet :=
  history.foldl (perform (.withCapacity n) StateSet.insert StateSet.union) []

/-- The ids that have been inserted into each set and united with it. -/
def ids (history : List SetOperation) : List (Finset Nat) :=
  history.foldl (perform ∅ (fun set id => Insert.insert id set) (· ∪ ·)) []

end SetOperation

namespace StateSet

/-- One round of a walk takes the next id, unless there is none. -/
def Cursor.round (state : Cursor × List Nat) : List Nat ⊕ (Cursor × List Nat) :=
  match state.1.next? with
  | none => .inl state.2
  | some (id, c) => .inr (c, id :: state.2)

private theorem Cursor.round_cases (c : Cursor) (taken : List Nat) :
    round (c, taken) = .inl (c.ids.reverse ++ taken) ∨ ∃ state, round (c, taken) = .inr state ∧
      state.1.ids.length < c.ids.length ∧ state.1.ids.reverse ++ state.2 = c.ids.reverse ++ taken := by
  have hids := c.ids_eq
  unfold round
  dsimp only
  cases hnext : c.next? with
  | none =>
    rw [hnext] at hids
    rw [show c.ids = [] from hids]
    exact .inl rfl
  | some next =>
    rw [hnext] at hids
    have hids : c.ids = next.1 :: next.2.ids := hids
    refine .inr ⟨(next.2, next.1 :: taken), rfl, ?_, ?_⟩
    · rw [hids]
      exact Nat.lt_succ_self _
    · rw [hids, List.reverse_cons, List.append_assoc]
      rfl

/-- A walk ends after a round for each id, and one. -/
theorem Cursor.ends_walk (c : Cursor) : ∃ n ≤ c.ids.length + 1, Ends round (c, []) n c.ids.reverse := by
  have hends := exists_ends (fun state : Cursor × List Nat => state.1.ids.length)
    (fun state => state.1.ids.reverse ++ state.2) (fun state => state.1.round_cases state.2) (c, [])
  rwa [List.append_nil] at hends

/-- What it means that a set is the finite set of some ids below `n`: they are listed in ascending order, a walk
comes to just these, and all that is said of the set can be read off the list. -/
structure Lists (n : Nat) (set : StateSet) (ids : Finset Nat) : Prop where
  ascending : set.toList.Pairwise (· < ·)
  mem : ∀ id, id ∈ set.toList ↔ id ∈ ids
  walk : ∃ rounds ≤ set.size + 1, Ends Cursor.round (set.cursor, []) rounds set.toList.reverse
  contains : ∀ id, set.contains id = true ↔ id ∈ set.toList
  size : set.size = set.toList.length
  isEmpty : set.isEmpty = true ↔ set.toList = []
  insert : ∀ id < n, ∃ added, set.insert? id = some (added, set.insert id) ∧ (added = true ↔ id ∉ set.toList)

/-- A set over `n` ids has the given members. -/
structure Holds (n : Nat) (set : StateSet) (ids : Finset Nat) : Prop where
  bounded : set.Over n
  mem : ∀ id, id ∈ set ↔ id ∈ ids

namespace Holds

variable {n id : Nat} {set other : StateSet} {ids more : Finset Nat}

theorem withCapacity (n : Nat) : Holds n (.withCapacity n) ∅ where
  bounded := over_withCapacity n
  mem id := by simp [not_mem_withCapacity]

theorem insert (h : Holds n set ids) (hid : id < n) : Holds n (set.insert id) (Insert.insert id ids) where
  bounded := h.bounded.insert id
  mem j := by
    rw [h.bounded.mem_insert, h.mem, Finset.mem_insert]
    constructor
    · rintro (hj | ⟨rfl, -⟩)
      · exact .inr hj
      · exact .inl rfl
    · rintro (rfl | hj)
      · exact .inr ⟨rfl, hid⟩
      · exact .inl hj

theorem union (h : Holds n set ids) (h' : Holds n other more) : Holds n (set.union other) (ids ∪ more) where
  bounded := h.bounded.union h'.bounded
  mem j := by rw [h.bounded.mem_union h'.bounded, h.mem, h'.mem, Finset.mem_union]

private theorem lists (h : Holds n set ids) : Lists n set ids where
  ascending := set.ascending_toList
  mem id := mem_toList.trans (h.mem id)
  walk := by
    rw [size_eq, toList_eq, ← ids_cursor]
    exact set.cursor.ends_walk
  contains id := by
    rw [mem_toList, mem_iff_bit, StateSet.contains, Bool.and_eq_true, decide_eq_true_iff, and_iff_right_iff_imp,
      h.bounded.capacity]
    exact h.bounded.bound id
  size := set.size_eq
  isEmpty := by simp only [isEmpty_iff, List.eq_nil_iff_forall_not_mem, mem_toList]
  insert id hid := by
    refine ⟨!set.bit id, if_pos (h.bounded.capacity.symm ▸ hid), ?_⟩
    rw [mem_toList, mem_iff_bit, Bool.not_eq_true', Bool.not_eq_true]

end Holds

/-- Sets over the same ids are equal if they list the same. -/
theorem Over.eq_iff {n : Nat} {set other : StateSet} (h : set.Over n) (h' : other.Over n) :
    set = other ↔ set.toList = other.toList := by
  refine ⟨congrArg toList, fun heq => h.ext h' fun id => ?_⟩
  rw [← mem_toList, heq, mem_toList]

end StateSet

namespace SetOperation

open StateSet

variable {α β : Type} {R : α → β → Prop} {n i : Nat}

private theorem forall₂_modify {xs : List α} {ys : List β} {f : α → α} {g : β → β} (h : List.Forall₂ R xs ys)
    (hstep : ∀ x y, R x y → R (f x) (g y)) : List.Forall₂ R (xs.modify i f) (ys.modify i g) := by
  induction h generalizing i with
  | nil => simp
  | cons hxy hrest ih =>
    cases i with
    | zero => exact .cons (hstep _ _ hxy) hrest
    | succ i => exact .cons hxy ih

private theorem forall₂_getElem? {xs : List α} {ys : List β} (h : List.Forall₂ R xs ys) (i : Nat) :
    Option.Rel R xs[i]? ys[i]? := by
  induction h generalizing i with
  | nil => exact .none
  | cons hxy _ ih =>
    cases i with
    | zero => exact .some hxy
    | succ i => exact ih i

/-- Operations that fit do to sets of words what they do to finite sets. -/
theorem perform_holds {sets : List StateSet} {ids : List (Finset Nat)} (h : List.Forall₂ (Holds n) sets ids)
    {operation : SetOperation} (hfits : operation.Fits n) :
    List.Forall₂ (Holds n) (perform (.withCapacity n) StateSet.insert StateSet.union sets operation)
      (perform ∅ (fun set id => Insert.insert id set) (· ∪ ·) ids operation) := by
  cases operation with
  | create => exact List.rel_append h (.cons (.withCapacity n) .nil)
  | clone i =>
    refine List.rel_append h ?_
    have hset := forall₂_getElem? h i
    generalize sets[i]? = set, ids[i]? = more at hset ⊢
    cases hset with
    | none => exact .nil
    | some hset => exact .cons hset .nil
  | insert i id => exact forall₂_modify h fun _ _ hset => hset.insert hfits
  | union i j =>
    have hother := forall₂_getElem? h j
    simp only [perform]
    generalize sets[j]? = other, ids[j]? = more at hother ⊢
    cases hother with
    | none => exact h
    | some hother => exact forall₂_modify h fun _ _ hset => hset.union hother

private theorem sets_hold {history : List SetOperation} (hfits : ∀ operation ∈ history, operation.Fits n) :
    List.Forall₂ (Holds n) (sets n history) (ids history) := by
  induction history using List.reverseRecOn with
  | nil => exact .nil
  | append_singleton history operation ih =>
    obtain ⟨hhistory, hoperation⟩ := List.forall_mem_append.1 hfits
    rw [sets, ids, List.foldl_append, List.foldl_append]
    exact perform_holds (ih hhistory) (hoperation operation List.mem_cons_self)

private theorem over_of_mem_sets {history : List SetOperation} (hfits : ∀ operation ∈ history, operation.Fits n)
    {set : StateSet} (hset : set ∈ sets n history) : set.Over n := by
  obtain ⟨i, hi⟩ := List.mem_iff_getElem?.1 hset
  have hholds := forall₂_getElem? (sets_hold hfits) i
  rw [hi] at hholds
  generalize (ids history)[i]? = ids at hholds
  cases hholds with
  | some hholds => exact hholds.bounded

/-- After any history of operations that fit, each set lists the ids that have been put into it, and what is asked of
it is answered by its list. Sets over the same ids, of one history or of two, are equal if they list the same. -/
theorem sets_list_ids {history : List SetOperation} (hfits : ∀ operation ∈ history, operation.Fits n) :
    List.Forall₂ (Lists n) (sets n history) (ids history) ∧
      ∀ other : List SetOperation, (∀ operation ∈ other, operation.Fits n) →
        ∀ set ∈ sets n history, ∀ set' ∈ sets n other, (set = set' ↔ set.toList = set'.toList) := by
  refine ⟨(sets_hold hfits).imp fun _ _ hholds => hholds.lists, fun other hother set hset set' hset' => ?_⟩
  exact (over_of_mem_sets hfits hset).eq_iff (over_of_mem_sets hother hset')

/-- Two sets and a copy, with ids at both sides of the border between words. -/
def acrossWords : List SetOperation :=
  [.create, .create, .insert 0 63, .insert 0 64, .insert 1 129, .clone 0, .union 0 1, .insert 2 63, .insert 2 0]

theorem sets_list_ids_acrossWords :
    (sets 130 acrossWords).map StateSet.toList = [[63, 64, 129], [129], [0, 63, 64]] ∧
      List.Forall₂ (Lists 130) (sets 130 acrossWords) (ids acrossWords) ∧
      ∀ set ∈ sets 130 acrossWords, ∀ set' ∈ sets 130 acrossWords, (set = set' ↔ set.toList = set'.toList) := by
  have hfits : ∀ operation ∈ acrossWords, operation.Fits 130 := by decide
  obtain ⟨hlists, hequal⟩ := sets_list_ids hfits
  exact ⟨by decide +kernel, hlists, hequal acrossWords hfits⟩

end SetOperation

end TableLexer
