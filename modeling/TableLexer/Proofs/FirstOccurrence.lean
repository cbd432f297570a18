import Mathlib.Data.Fintype.EquivFin
import Mathlib.Data.List.Forall2
import Mathlib.Data.List.Induction
import TableLexer.FirstOccurrence

/-! Numbering by first occurrence gives equal numbers to equal keys, and leaves no number out. -/
namespace TableLexer

/-- Each number is one that has occurred before or the next one. -/
inductive Numbered : List Nat → Nat → Prop where
  | nil : Numbered [] 0
  | known {numbers : List Nat} {count n : Nat} (h : Numbered numbers count) (hn : n < count) :
      Numbered (numbers ++ [n]) count
  | next {numbers : List Nat} {count : Nat} (h : Numbered numbers count) :
      Numbered (numbers ++ [count]) (count + 1)

/-- Positions with equal numbers in one list have equal numbers in the other. -/
def Refines (fine coarse : List Nat) : Prop :=
  ∀ i j : Nat, fine[i]? = fine[j]? → coarse[i]? = coarse[j]?

namespace Refines

variable {fine finer coarse : List Nat}

theorem trans (h : Refines finer fine) (h' : Refines fine coarse) : Refines finer coarse :=
  fun i j heq => h' i j (h i j heq)

/-- The finer numbers determine the coarser ones. -/
theorem exists_map (h : Refines fine coarse) (hlength : fine.length = coarse.length) :
    ∃ f : Nat → Nat, ∀ i n : Nat, fine[i]? = some n → coarse[i]? = some (f n) := by
  have hvalue (n : Nat) : ∃ m, ∀ i : Nat, fine[i]? = some n → coarse[i]? = some m := by
    by_cases hn : n ∈ fine
    · obtain ⟨i, hi⟩ := List.mem_iff_getElem?.1 hn
      have hlt : i < coarse.length := hlength ▸ (List.getElem?_eq_some_iff.1 hi).1
      refine ⟨coarse[i], fun j hj => ?_⟩
      rw [← List.getElem?_eq_getElem hlt]
      exact h j i (hj.trans hi.symm)
    · exact ⟨0, fun i hi => absurd (List.mem_of_getElem? hi) hn⟩
  choose f hf using hvalue
  exact ⟨f, fun i n => hf n i⟩

end Refines

namespace Numbered

variable {numbers fine coarse left right rest : List Nat} {count known m n : Nat}

theorem mem_iff (h : Numbered numbers count) : n ∈ numbers ↔ n < count := by
  induction h with
  | nil => simp
  | known h hn ih =>
    rw [List.mem_append, ih, List.mem_singleton]
    constructor
    · intro hcases
      rcases hcases with hlt | rfl
      · exact hlt
      · exact hn
    · exact .inl
  | next h ih =>
    rw [List.mem_append, ih, List.mem_singleton]
    omega

theorem count_le (h : Numbered numbers count) : count ≤ numbers.length := by
  induction h with
  | nil => simp
  | known h hn ih => simp only [List.length_append, List.length_singleton]; omega
  | next h ih => simp only [List.length_append, List.length_singleton]; omega

theorem lt_count (h : Numbered numbers count) {i : Nat} (hi : numbers[i]? = some n) : n < count :=
  h.mem_iff.1 (List.mem_of_getElem? hi)

private theorem exists_surjection (hfine : Numbered fine m) (hcoarse : Numbered coarse n)
    (hlength : fine.length = coarse.length) (hrefines : Refines fine coarse) :
    ∃ f : Fin m → Fin n, f.Surjective ∧
      ∀ (i : Nat) (k : Fin m), fine[i]? = some k.val → coarse[i]? = some (f k).val := by
  obtain ⟨f, hf⟩ := hrefines.exists_map hlength
  have hlt (k : Fin m) : f k < n := by
    obtain ⟨i, hi⟩ := List.mem_iff_getElem?.1 (hfine.mem_iff.2 k.isLt)
    exact hcoarse.lt_count (hf i k hi)
  refine ⟨fun k => ⟨f k, hlt k⟩, fun l => ?_, fun i k hi => hf i k hi⟩
  obtain ⟨i, hi⟩ := List.mem_iff_getElem?.1 (hcoarse.mem_iff.2 l.isLt)
  have hi' : i < fine.length := hlength ▸ (List.getElem?_eq_some_iff.1 hi).1
  have hk := List.getElem?_eq_getElem hi'
  refine ⟨⟨fine[i], hfine.lt_count hk⟩, Fin.ext (Option.some.inj ?_)⟩
  rw [← hf i _ hk, hi]

theorem count_le_of_refines (hfine : Numbered fine m) (hcoarse : Numbered coarse n)
    (hlength : fine.length = coarse.length) (hrefines : Refines fine coarse) : n ≤ m := by
  obtain ⟨f, hf, -⟩ := exists_surjection hfine hcoarse hlength hrefines
  simpa using Fintype.card_le_of_surjective f hf

/-- A numbering that is refined without a new number stays the same but for the numbers. -/
theorem refines_of_refines (hfine : Numbered fine m) (hcoarse : Numbered coarse m)
    (hlength : fine.length = coarse.length) (hrefines : Refines fine coarse) : Refines coarse fine := by
  intro i j heq
  obtain ⟨f, hsurjective, hf⟩ := exists_surjection hfine hcoarse hlength hrefines
  have hinjective := Finite.injective_iff_surjective.2 hsurjective
  by_cases hi : i < fine.length
  · have hki := List.getElem?_eq_getElem hi
    have hfi := hf i ⟨fine[i], hfine.lt_count hki⟩ hki
    have hj : j < fine.length := by
      rw [hlength]
      exact (List.getElem?_eq_some_iff.1 (heq.symm.trans hfi)).1
    have hkj := List.getElem?_eq_getElem hj
    have hfj := hf j ⟨fine[j], hfine.lt_count hkj⟩ hkj
    have hsame := hinjective (Fin.ext (Option.some.inj (hfi.symm.trans (heq.trans hfj))))
    rw [hki, hkj]
    exact congrArg some (Fin.mk.inj hsame)
  · have hi' : coarse[i]? = none := by simp [← hlength, hi]
    have hj : ¬ j < fine.length := by simpa [hlength] using List.getElem?_eq_none_iff.1 (heq.symm.trans hi')
    simp [hi, hj]

theorem concat_iff : Numbered (numbers ++ [n]) count ↔
    ∃ known, Numbered numbers known ∧ (n < known ∧ count = known ∨ n = known ∧ count = known + 1) := by
  constructor
  · intro h
    generalize hall : numbers ++ [n] = all at h
    cases h with
    | nil => simp at hall
    | known h hn =>
      obtain ⟨rfl, hlast⟩ := List.append_inj' hall rfl
      obtain rfl := List.singleton_inj.1 hlast
      exact ⟨count, h, .inl ⟨hn, rfl⟩⟩
    | @next numbers' known h =>
      obtain ⟨rfl, hlast⟩ := List.append_inj' hall rfl
      exact ⟨known, h, .inr ⟨List.singleton_inj.1 hlast, rfl⟩⟩
  · intro h
    obtain ⟨known, h, ⟨hn, rfl⟩ | ⟨rfl, rfl⟩⟩ := h
    · exact h.known hn
    · exact h.next

theorem count_unique (h : Numbered numbers m) (h' : Numbered numbers n) : m = n := by
  have hm := (h.mem_iff (n := n)).symm.trans h'.mem_iff
  have hn := (h'.mem_iff (n := m)).symm.trans h.mem_iff
  omega

theorem of_append (h : Numbered (left ++ right) count) : ∃ known, Numbered left known := by
  induction right using List.reverseRecOn generalizing count with
  | nil => exact ⟨count, by simpa using h⟩
  | append_singleton right n ih =>
    rw [← List.append_assoc] at h
    obtain ⟨known, h, -⟩ := concat_iff.1 h
    exact ih h

/-- What may follow some numbers depends only on how many different ones there are. -/
theorem append_congr (h : Numbered (left ++ rest) count) (hleft : Numbered left known)
    (hright : Numbered right known) : Numbered (right ++ rest) count := by
  induction rest using List.reverseRecOn generalizing count with
  | nil =>
    rw [List.append_nil] at h ⊢
    rwa [h.count_unique hleft]
  | append_singleton rest n ih =>
    rw [← List.append_assoc] at h ⊢
    obtain ⟨before, h, hn⟩ := concat_iff.1 h
    exact concat_iff.2 ⟨before, ih h, hn⟩

private theorem count_eq_of_forall_lt (h : Numbered (left ++ rest) count) (hleft : Numbered left known)
    (hrest : ∀ n ∈ rest, n < known) : count = known := by
  have hmem (n : Nat) : n < count ↔ n < known := by
    rw [← h.mem_iff, ← hleft.mem_iff, List.mem_append, or_iff_left_iff_imp, hleft.mem_iff]
    exact hrest n
  have := hmem known
  have := hmem count
  omega

/-- Numbers may be replaced by the numbers of their classes, if these are numbered by their first members. -/
theorem map (h : Numbered numbers m) {f : Nat → Nat} (hf : Numbered ((List.range m).map f) n) :
    Numbered (numbers.map f) n := by
  induction h generalizing n with
  | nil => simpa using hf
  | @known numbers m i _ hi ih =>
    rw [List.map_append, List.map_singleton]
    exact (ih hf).known (hf.mem_iff.1 (List.mem_map_of_mem (List.mem_range.2 hi)))
  | next _ ih =>
    rw [List.range_succ, List.map_append, List.map_singleton, concat_iff] at hf
    obtain ⟨known, hf, hn⟩ := hf
    rw [List.map_append, List.map_singleton]
    exact concat_iff.2 ⟨known, ih hf, hn⟩

private theorem first_append {i : Nat} (hi : numbers[i]? = some n)
    (hbefore : ∀ j < i, ∀ m, numbers[j]? = some m → m < n) (more : List Nat) :
    (numbers ++ more)[i]? = some n ∧ ∀ j < i, ∀ m, (numbers ++ more)[j]? = some m → m < n := by
  have hlt := (List.getElem?_eq_some_iff.1 hi).1
  refine ⟨by rwa [List.getElem?_append_left hlt], fun j hj => ?_⟩
  rw [List.getElem?_append_left (Nat.lt_trans hj hlt)]
  exact hbefore j hj

/-- Where a number occurs first, only smaller ones have occurred before. -/
theorem exists_first (h : Numbered numbers count) (hn : n < count) :
    ∃ i : Nat, numbers[i]? = some n ∧ ∀ j < i, ∀ m, numbers[j]? = some m → m < n := by
  induction h with
  | nil => omega
  | @known numbers count k _ _ ih =>
    obtain ⟨i, hi, hbefore⟩ := ih hn
    exact ⟨i, first_append hi hbefore [k]⟩
  | @next numbers count h ih =>
    by_cases hlast : n = count
    · refine ⟨numbers.length, by simp [hlast], fun j hj m hm => ?_⟩
      rw [List.getElem?_append_left hj] at hm
      exact hlast ▸ h.lt_count hm
    · obtain ⟨i, hi, hbefore⟩ := ih (by omega)
      exact ⟨i, first_append hi hbefore [count]⟩

end Numbered

section classify

variable {κ : Type} [Ord κ]

private def classifyStep (state : List Nat × Std.TreeMap κ Nat) (key : κ) :
    List Nat × Std.TreeMap κ Nat :=
  match state.2.get? key with
  | some n => (n :: state.1, state.2)
  | none => (state.2.size :: state.1, state.2.insert key state.2.size)

/-- The numbers of the keys seen so far have been looked up, and are different for different keys. -/
private structure Classified (keys : List κ) (state : List Nat × Std.TreeMap κ Nat) : Prop where
  numbered : Numbered state.1.reverse state.2.size
  looked_up : List.Forall₂ (fun key n => state.2[key]? = some n) keys state.1.reverse
  lt_size : ∀ (key : κ) (n : Nat), state.2[key]? = some n → n < state.2.size
  injective : ∀ (key key' : κ) (n : Nat), state.2[key]? = some n → state.2[key']? = some n → key = key'

private theorem Classified.known {keys : List κ} {state : List Nat × Std.TreeMap κ Nat}
    (h : Classified keys state) {key : κ} {n : Nat} (hkey : state.2[key]? = some n) :
    Classified (keys ++ [key]) (n :: state.1, state.2) where
  numbered := by simpa using h.numbered.known (h.lt_size key n hkey)
  looked_up := by simpa using List.rel_append h.looked_up (.cons hkey .nil)
  lt_size := h.lt_size
  injective := h.injective

variable [Std.TransOrd κ] [Std.LawfulEqOrd κ]

private theorem getElem?_insert_size {known : Std.TreeMap κ Nat} {key : κ} (hkey : known[key]? = none)
    (other : κ) (n : Nat) : (known.insert key known.size)[other]? = some n ↔
      key = other ∧ known.size = n ∨ known[other]? = some n := by
  rw [Std.TreeMap.getElem?_insert]
  split
  · next heq =>
    obtain rfl := Std.LawfulEqOrd.eq_of_compare heq
    simp [hkey]
  · next hne =>
    have hother : key ≠ other := fun h => hne (h ▸ Std.ReflCmp.compare_self)
    simp [hother]

private theorem Classified.next {keys : List κ} {state : List Nat × Std.TreeMap κ Nat}
    (h : Classified keys state) {key : κ} (hkey : state.2[key]? = none) :
    Classified (keys ++ [key]) (state.2.size :: state.1, state.2.insert key state.2.size) := by
  have hsize : (state.2.insert key state.2.size).size = state.2.size + 1 := by
    rw [Std.TreeMap.size_insert, if_neg]
    simpa using hkey
  have hlookup := getElem?_insert_size hkey
  constructor
  · simpa [hsize] using h.numbered.next
  · have hold : List.Forall₂ (fun key' n => (state.2.insert key state.2.size)[key']? = some n)
        keys state.1.reverse :=
      h.looked_up.imp fun key' n hn => (hlookup key' n).2 (.inr hn)
    simpa using List.rel_append hold (.cons ((hlookup key _).2 (.inl ⟨rfl, rfl⟩)) .nil)
  · intro other n hn
    rw [hsize]
    obtain ⟨-, rfl⟩ | hn := (hlookup other n).1 hn
    · exact Nat.lt_succ_self _
    · exact Nat.lt_succ_of_lt (h.lt_size other n hn)
  · intro other other' n hn hn'
    obtain ⟨rfl, rfl⟩ | hn := (hlookup other n).1 hn <;> obtain ⟨rfl, heq⟩ | hn' := (hlookup other' _).1 hn'
    · rfl
    · exact absurd (h.lt_size _ _ hn') (Nat.lt_irrefl _)
    · exact absurd (heq ▸ h.lt_size _ _ hn) (Nat.lt_irrefl _)
    · exact h.injective other other' n hn hn'

private theorem Classified.step {keys : List κ} {state : List Nat × Std.TreeMap κ Nat}
    (h : Classified keys state) (key : κ) : Classified (keys ++ [key]) (classifyStep state key) := by
  unfold classifyStep
  cases hkey : state.2.get? key with
  | some n => exact h.known hkey
  | none => exact h.next hkey

private theorem classified (keys : List κ) : Classified keys (keys.foldl classifyStep ([], ∅)) := by
  induction keys using List.reverseRecOn with
  | nil => exact ⟨.nil, .nil, fun key n h => by simp at h, fun key key' n h => by simp at h⟩
  | append_singleton keys key ih =>
    rw [List.foldl_append]
    exact ih.step key

theorem classify_numbered (keys : List κ) : Numbered (classify keys).1 (classify keys).2 :=
  (classified keys).numbered

theorem length_classify (keys : List κ) : (classify keys).1.length = keys.length :=
  (classified keys).looked_up.length_eq.symm

/-- Keys have the same number exactly if they are equal. -/
theorem classify_eq_iff (keys : List κ) (i j : Nat) :
    (classify keys).1[i]? = (classify keys).1[j]? ↔ keys[i]? = keys[j]? := by
  have h := classified keys
  have hlength := length_classify keys
  have hlookup (i : Nat) (hi : i < keys.length) :
      (keys.foldl classifyStep ([], ∅)).2[keys[i]]? = (classify keys).1[i]? := by
    have hi' : i < (classify keys).1.length := hlength.symm ▸ hi
    rw [List.getElem?_eq_getElem hi']
    exact h.looked_up.get hi hi'
  by_cases hi : i < keys.length <;> by_cases hj : j < keys.length
  · rw [← hlookup i hi, ← hlookup j hj, List.getElem?_eq_getElem hi, List.getElem?_eq_getElem hj]
    constructor
    · intro heq
      have hi' : i < (classify keys).1.length := hlength.symm ▸ hi
      have hsome := (hlookup i hi).trans (List.getElem?_eq_getElem hi')
      exact congrArg some (h.injective _ _ _ hsome (heq.symm.trans hsome))
    · intro heq
      rw [Option.some.inj heq]
  · simp [hi, hj, hlength]
  · simp [hi, hj, hlength]
  · simp [hi, hj, hlength]

end classify

section firstOfEach

variable {α : Type} {items : List α} {numbers : List Nat} {count n : Nat}

private theorem firstOfEach_concat (hlength : items.length = numbers.length) (item : α) (n : Nat) :
    firstOfEach (items ++ [item]) (numbers ++ [n]) =
      if n = (firstOfEach items numbers).size then (firstOfEach items numbers).push item
      else firstOfEach items numbers := by
  simp only [firstOfEach, List.zip_append hlength, List.foldl_append]
  rfl

private theorem exists_concat (hlength : items.length = (numbers ++ [n]).length) :
    ∃ items' item, items = items' ++ [item] ∧ items'.length = numbers.length := by
  rcases items.eq_nil_or_concat with rfl | ⟨items', item, rfl⟩
  · simp at hlength
  · exact ⟨items', item, by simp, by simpa using hlength⟩

/-- For every number an item is kept that has this number. -/
theorem firstOfEach_spec (h : Numbered numbers count) (hlength : items.length = numbers.length) :
    (firstOfEach items numbers).size = count ∧ ∀ n < count, ∃ i : Nat,
      numbers[i]? = some n ∧ (firstOfEach items numbers)[n]? = items[i]? := by
  induction h generalizing items with
  | nil => simp [firstOfEach]
  | @known numbers count m h hm ih =>
    obtain ⟨items, item, rfl, hitems⟩ := exists_concat hlength
    obtain ⟨hsize, hkept⟩ := ih hitems
    rw [firstOfEach_concat hitems, hsize, if_neg (Nat.ne_of_lt hm)]
    refine ⟨hsize, fun n hn => ?_⟩
    obtain ⟨i, hi, hitem⟩ := hkept n hn
    have hlt := (List.getElem?_eq_some_iff.1 hi).1
    refine ⟨i, by rwa [List.getElem?_append_left hlt], ?_⟩
    rwa [List.getElem?_append_left (hitems ▸ hlt)]
  | @next numbers count h ih =>
    obtain ⟨items, item, rfl, hitems⟩ := exists_concat hlength
    obtain ⟨hsize, hkept⟩ := ih hitems
    rw [firstOfEach_concat hitems, hsize, if_pos rfl]
    refine ⟨by rw [Array.size_push, hsize], fun n hn => ?_⟩
    by_cases hlast : n = count
    · refine ⟨numbers.length, by simp [hlast], ?_⟩
      simp [hlast, ← hsize, ← hitems]
    · obtain ⟨i, hi, hitem⟩ := hkept n (by omega)
      have hlt := (List.getElem?_eq_some_iff.1 hi).1
      refine ⟨i, by rwa [List.getElem?_append_left hlt], ?_⟩
      rw [List.getElem?_append_left (hitems ▸ hlt), Array.getElem?_push, if_neg (hsize ▸ hlast)]
      exact hitem

/-- If the items of a class are followed by the same numbers, no first occurrence is lost when only the first of
them are kept. -/
theorem firstOfEach_flatMap (h : Numbered numbers count) (hlength : items.length = numbers.length)
    {row : α → List Nat}
    (hrow : ∀ n x y, (x, n) ∈ items.zip numbers → (y, n) ∈ items.zip numbers → row x = row y)
    {before : List Nat} {total : Nat} (htotal : Numbered (before ++ items.flatMap row) total) :
    Numbered (before ++ (firstOfEach items numbers).toList.flatMap row) total := by
  induction h generalizing items total with
  | nil =>
    obtain rfl := List.length_eq_zero_iff.1 hlength
    exact htotal
  | @known numbers count m h hm ih =>
    obtain ⟨items, item, rfl, hitems⟩ := exists_concat hlength
    have hkept := (firstOfEach_spec h hitems).1
    rw [List.zip_append hitems] at hrow
    rw [List.flatMap_append, List.flatMap_singleton, ← List.append_assoc] at htotal
    obtain ⟨known, hknown⟩ := htotal.of_append
    -- The new item is followed by the same as an earlier one.
    have hseen : ∀ n ∈ row item, n < known := by
      intro n hn
      have hmem : m ∈ (items.zip numbers).map Prod.snd := by
        rw [List.map_snd_zip (Nat.le_of_eq hitems.symm)]
        exact h.mem_iff.2 hm
      obtain ⟨⟨x, _⟩, hx, rfl⟩ := List.mem_map.1 hmem
      rw [← hrow _ x item (List.mem_append_left _ hx) (List.mem_append_right _ (by simp))] at hn
      exact hknown.mem_iff.1 (List.mem_append_right _ (List.mem_flatMap.2 ⟨x, (List.of_mem_zip hx).1, hn⟩))
    rw [firstOfEach_concat hitems, hkept, if_neg (Nat.ne_of_lt hm), htotal.count_eq_of_forall_lt hknown hseen]
    exact ih hitems (fun n x y hx hy => hrow n x y (List.mem_append_left _ hx) (List.mem_append_left _ hy)) hknown
  | @next numbers count h ih =>
    obtain ⟨items, item, rfl, hitems⟩ := exists_concat hlength
    have hkept := (firstOfEach_spec h hitems).1
    rw [List.zip_append hitems] at hrow
    rw [List.flatMap_append, List.flatMap_singleton, ← List.append_assoc] at htotal
    obtain ⟨known, hknown⟩ := htotal.of_append
    have hbefore := ih hitems
      (fun n x y hx hy => hrow n x y (List.mem_append_left _ hx) (List.mem_append_left _ hy)) hknown
    rw [firstOfEach_concat hitems, hkept, if_pos rfl, Array.toList_push, List.flatMap_append,
      List.flatMap_singleton, ← List.append_assoc]
    exact htotal.append_congr hknown hbefore

end firstOfEach

end TableLexer
