import Mathlib.Logic.Relation
import TableLexer.Proofs.Loop
import TableLexer.Reachable

/-! The exploration of a finite graph finds exactly the nodes that paths lead to. -/
namespace TableLexer

/-- How many of the nodes below `size` have not been seen. -/
def unseen (size : Nat) (seen : Std.TreeSet Nat) : Nat :=
  (List.range size).countP fun node => !seen.contains node

theorem contains_insert_iff {seen : Std.TreeSet Nat} {node m : Nat} :
    (seen.insert m).contains node ↔ node = m ∨ seen.contains node := by
  simp only [Std.TreeSet.contains_insert, Bool.or_eq_true, beq_iff_eq, Nat.compare_eq_eq]
  exact or_congr_left eq_comm

private theorem unseen_insert_lt {size node : Nat} {seen : Std.TreeSet Nat} (hlt : node < size)
    (hnew : seen.contains node = false) : unseen size (seen.insert node) < unseen size seen := by
  obtain ⟨before, after, hsplit⟩ := List.append_of_mem (List.mem_range.2 hlt)
  have hle (nodes : List Nat) : nodes.countP (fun m => !(seen.insert node).contains m) ≤
      nodes.countP fun m => !seen.contains m := by
    refine List.countP_mono_left fun m _ hm => ?_
    simp only [Bool.not_eq_true', Std.TreeSet.contains_insert, Bool.or_eq_false_iff] at hm ⊢
    exact hm.2
  have hbefore := hle before
  have hafter := hle after
  unfold unseen
  rw [hsplit, List.countP_append, List.countP_append, List.countP_cons_of_neg (by simp),
    List.countP_cons_of_pos (by simpa using hnew)]
  omega

/-- What is waiting to be visited has been seen, and what has been seen but does not wait has all of
its successors among what has been seen; the nodes seen are those that `starts` lead to. -/
structure Exploration (next : Nat → List Nat) (size : Nat) (starts pending : List Nat)
    (seen : Std.TreeSet Nat) : Prop where
  pending_seen : ∀ node ∈ pending, seen.contains node
  starts_seen : ∀ node ∈ starts, seen.contains node
  closed : ∀ node, seen.contains node → node ∉ pending → ∀ m ∈ next node, seen.contains m
  sound : ∀ node, seen.contains node →
    ∃ s ∈ starts, Relation.ReflTransGen (fun p q => q ∈ next p) s node

/-- Visiting nodes makes them seen, keeps what has been seen, and pays for what it adds to what is
waiting with nodes that were unseen. -/
theorem foldl_visit {size : Nat} {nodes : List Nat} (hlt : ∀ node ∈ nodes, node < size)
    (pending : List Nat) (seen : Std.TreeSet Nat) :
    let work := nodes.foldl visit (pending, seen)
    work.1.length + unseen size work.2 ≤ pending.length + unseen size seen ∧
      (∀ node, work.2.contains node ↔ seen.contains node ∨ node ∈ nodes) ∧
      ∀ node, node ∈ work.1 ↔ node ∈ pending ∨ node ∈ nodes ∧ ¬ seen.contains node := by
  induction nodes generalizing pending seen with
  | nil => simp
  | cons m nodes ih =>
    have hrest : ∀ node ∈ nodes, node < size := fun node h => hlt node (List.mem_cons_of_mem m h)
    rw [List.foldl_cons]
    cases hm : seen.contains m with
    | true =>
      obtain ⟨hcount, hseen, hpending⟩ := ih hrest pending seen
      rw [visit, if_pos hm]
      refine ⟨hcount, fun node => ?_, fun node => ?_⟩
      · rw [hseen, List.mem_cons]
        exact ⟨Or.imp_right .inr, by rintro (h | rfl | h) <;> simp_all⟩
      · rw [hpending, List.mem_cons]
        exact ⟨Or.imp_right fun h => ⟨.inr h.1, h.2⟩, by rintro (h | ⟨rfl | h, h'⟩) <;> simp_all⟩
    | false =>
      obtain ⟨hcount, hseen, hpending⟩ := ih hrest (m :: pending) (seen.insert m)
      have hless := unseen_insert_lt (hlt m List.mem_cons_self) hm
      rw [visit, if_neg (by simp [hm])]
      refine ⟨?_, fun node => ?_, fun node => ?_⟩
      · simp only [List.length_cons] at hcount
        dsimp only at hcount ⊢
        omega
      · rw [hseen, List.mem_cons, contains_insert_iff]
        grind
      · dsimp only
        rw [hpending, List.mem_cons, List.mem_cons, contains_insert_iff]
        grind

/-- What has been seen stays seen when nodes are visited. -/
private theorem contains_foldl_visit {node : Nat} (nodes : List Nat) {work : List Nat × Std.TreeSet Nat}
    (h : work.2.contains node) : (nodes.foldl visit work).2.contains node := by
  induction nodes generalizing work with
  | nil => exact h
  | cons m nodes ih =>
    refine ih ?_
    unfold visit
    split
    · exact h
    · exact contains_insert_iff.2 (.inr h)

private theorem contains_explore {next : Nat → List Nat} {fuel node : Nat} {pending : List Nat} {seen : Std.TreeSet Nat}
    (h : seen.contains node) : (explore next fuel pending seen).contains node := by
  induction fuel generalizing pending seen with
  | zero => exact h
  | succ fuel ih =>
    cases pending with
    | nil => exact h
    | cons m pending => exact ih (contains_foldl_visit (next m) h)

/-- A node is reachable from itself, whatever its successors are. -/
theorem self_mem_reachable (next : Nat → List Nat) (size node : Nat) : node ∈ reachable next size [node] := by
  rw [reachable, Std.TreeSet.mem_toList, ← Std.TreeSet.contains_iff_mem]
  refine contains_explore ?_
  rw [List.foldl_cons, List.foldl_nil, visit]
  split
  · assumption
  · exact contains_insert_iff.2 (.inl rfl)

variable {next : Nat → List Nat} {size : Nat} {starts : List Nat}

namespace Exploration

private theorem init (next : Nat → List Nat) (hstarts : ∀ node ∈ starts, node < size) :
    let work := starts.foldl visit ([], ∅)
    Exploration next size starts work.1 work.2 ∧ work.1.length + unseen size work.2 ≤ size := by
  obtain ⟨hcount, hseen, hpending⟩ := foldl_visit hstarts [] ∅
  have hempty (node : Nat) : ¬ (∅ : Std.TreeSet Nat).contains node := by simp
  refine ⟨⟨fun node h => ?_, fun node h => ?_, fun node h h' => ?_, fun node h => ?_⟩, ?_⟩
  · rcases (hpending node).1 h with h | h
    · simp at h
    · exact (hseen node).2 (.inr h.1)
  · exact (hseen node).2 (.inr h)
  · have hmem := ((hseen node).1 h).resolve_left (hempty node)
    exact absurd ((hpending node).2 (.inr ⟨hmem, hempty node⟩)) h'
  · exact ⟨node, ((hseen node).1 h).resolve_left (hempty node), .refl⟩
  · have hall : unseen size ∅ ≤ size := by
      simp [unseen]
    have hlen : ([] : List Nat).length = 0 := rfl
    omega

/-- One visit: the successors of the node that is taken off join what has been seen. -/
theorem visited {node : Nat} {pending : List Nat} {seen : Std.TreeSet Nat}
    (h : Exploration next size starts (node :: pending) seen) (hnext : ∀ m ∈ next node, m < size) :
    let work := (next node).foldl visit (pending, seen)
    Exploration next size starts work.1 work.2 ∧
      work.1.length + unseen size work.2 ≤ pending.length + unseen size seen := by
  obtain ⟨hcount, hseen, hpending⟩ := foldl_visit hnext pending seen
  refine ⟨⟨fun m hm => ?_, fun m hm => ?_, fun p hp hp' m hm => ?_, fun m hm => ?_⟩, hcount⟩
  · rcases (hpending m).1 hm with hm | hm
    · exact (hseen m).2 (.inl (h.pending_seen m (List.mem_cons_of_mem _ hm)))
    · exact (hseen m).2 (.inr hm.1)
  · exact (hseen m).2 (.inl (h.starts_seen m hm))
  · by_cases hnode : p = node
    · exact (hseen m).2 (.inr (hnode ▸ hm))
    · have hold : seen.contains p := by
        rcases (hseen p).1 hp with hp | hp
        · exact hp
        · exact Decidable.byContradiction fun hnew => hp' ((hpending p).2 (.inr ⟨hp, hnew⟩))
      have hwait : p ∉ node :: pending := by
        rw [List.mem_cons, not_or]
        exact ⟨hnode, fun hmem => hp' ((hpending p).2 (.inl hmem))⟩
      exact (hseen m).2 (.inl (h.closed p hold hwait m hm))
  · rcases (hseen m).1 hm with hm | hm
    · exact h.sound m hm
    · obtain ⟨s, hs, hpath⟩ := h.sound node (h.pending_seen node List.mem_cons_self)
      exact ⟨s, hs, hpath.tail hm⟩

end Exploration

/-- Each visit takes one unit of fuel off and is paid for by a node that waited, so that nothing is
left waiting when the fuel is used up. -/
theorem explore_complete (hnext : ∀ node < size, ∀ m ∈ next node, m < size) {fuel : Nat}
    {pending : List Nat} {seen : Std.TreeSet Nat} (h : Exploration next size starts pending seen)
    (hpending : ∀ node ∈ pending, node < size) (hfuel : pending.length + unseen size seen ≤ fuel) :
    Exploration next size starts [] (explore next fuel pending seen) := by
  induction fuel generalizing pending seen with
  | zero =>
    obtain rfl : pending = [] := List.eq_nil_of_length_eq_zero (by omega)
    exact h
  | succ fuel ih =>
    cases pending with
    | nil => exact h
    | cons node pending =>
      have hstep := hnext node (hpending node List.mem_cons_self)
      obtain ⟨hvisited, hcount⟩ := h.visited hstep
      rw [explore]
      refine ih hvisited (fun m hm => ?_) ?_
      · rcases ((foldl_visit hstep pending seen).2.2 m).1 hm with hm | hm
        · exact hpending m (List.mem_cons_of_mem _ hm)
        · exact hstep m hm.1
      · rw [List.length_cons] at hfuel
        omega

/-- What is reachable from some nodes are the ends of the paths that start in them. -/
theorem mem_reachable (hstarts : ∀ node ∈ starts, node < size)
    (hnext : ∀ node < size, ∀ m ∈ next node, m < size) {node : Nat} :
    node ∈ reachable next size starts ↔
      ∃ s ∈ starts, Relation.ReflTransGen (fun p q => q ∈ next p) s node := by
  obtain ⟨hinit, hcount⟩ := Exploration.init next hstarts
  have hpending : ∀ m ∈ (starts.foldl visit ([], ∅)).1, m < size := fun m hm => by
    rcases ((foldl_visit hstarts [] ∅).2.2 m).1 hm with hm | hm
    · simp at hm
    · exact hstarts m hm.1
  have hdone := explore_complete hnext hinit hpending hcount
  unfold reachable
  rw [Std.TreeSet.mem_toList, ← Std.TreeSet.contains_iff_mem]
  refine ⟨hdone.sound node, ?_⟩
  intro hpath
  obtain ⟨s, hs, hpath⟩ := hpath
  induction hpath with
  | refl => exact hdone.starts_seen s hs
  | tail _ hstep ih => exact hdone.closed _ ih (by simp) _ hstep

theorem reachable_lt (hstarts : ∀ node ∈ starts, node < size)
    (hnext : ∀ node < size, ∀ m ∈ next node, m < size) {node : Nat} (h : node ∈ reachable next size starts) :
    node < size := by
  rw [mem_reachable hstarts hnext] at h
  obtain ⟨s, hs, hpath⟩ := h
  induction hpath with
  | refl => exact hstarts s hs
  | tail _ hstep ih => exact hnext _ ih _ hstep

/-- One round of an exploration visits one of the nodes that are waiting. -/
def exploreRound (next : Nat → List Nat) (work : List Nat × Std.TreeSet Nat) :
    Std.TreeSet Nat ⊕ (List Nat × Std.TreeSet Nat) :=
  match work.1 with
  | [] => .inl work.2
  | node :: pending => .inr ((next node).foldl visit (pending, work.2))

/-- With a unit of fuel for each node that is waiting or unseen, an exploration goes on until none is waiting. -/
private theorem ends_explore (hnext : ∀ node, ∀ m ∈ next node, m < size) {fuel : Nat} {pending : List Nat}
    {seen : Std.TreeSet Nat} (hfuel : pending.length + unseen size seen ≤ fuel) :
    ∃ n ≤ fuel + 1, Ends (exploreRound next) (pending, seen) n (explore next fuel pending seen) := by
  induction fuel generalizing pending seen with
  | zero =>
    obtain rfl : pending = [] := List.eq_nil_of_length_eq_zero (by omega)
    exact ⟨1, Nat.le_refl 1, .last rfl⟩
  | succ fuel ih =>
    cases pending with
    | nil => exact ⟨1, Nat.le_add_left 1 _, .last rfl⟩
    | cons node pending =>
      have hcount := (foldl_visit (hnext node) pending seen).1
      rw [List.length_cons] at hfuel
      obtain ⟨n, hn, hends⟩ := ih (Nat.le_trans hcount (by omega))
      exact ⟨n + 1, Nat.succ_le_succ hn, .next rfl hends⟩

/-- An exploration makes at most one round more than there are nodes, and finds what is reachable. -/
theorem ends_reachable (hstarts : ∀ node ∈ starts, node < size) (hnext : ∀ node, ∀ m ∈ next node, m < size) :
    ∃ n ≤ size + 1, ∃ seen, Ends (exploreRound next) (starts.foldl visit ([], ∅)) n seen ∧
      reachable next size starts = seen.toList := by
  obtain ⟨n, hn, hends⟩ := ends_explore hnext (Exploration.init next hstarts).2
  exact ⟨n, hn, _, hends, rfl⟩

theorem ascending_reachable (next : Nat → List Nat) (size : Nat) (starts : List Nat) :
    (reachable next size starts).Pairwise (· < ·) :=
  Std.TreeSet.ordered_toList.imp Nat.compare_eq_lt.1

end TableLexer
