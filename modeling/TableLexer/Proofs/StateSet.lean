import TableLexer.Proofs.LowestBit

/-! Sets of state ids by their members. The words of a set are determined by its members, so equal
sets are equal as keys. -/
namespace TableLexer

namespace StateSet

instance : Membership Nat StateSet where
  mem set id := set.bit id = true

theorem mem_iff_bit {set : StateSet} {id : Nat} : id ∈ set ↔ set.bit id = true := Iff.rfl

private theorem mask_toNat (id : Nat) : (mask id).toNat = 2 ^ (id % 64) := by
  have hlt : id % 64 < 64 := Nat.mod_lt _ (by decide)
  have hpow : 2 ^ (id % 64) < 2 ^ 64 := Nat.pow_lt_pow_right (by decide) hlt
  rw [mask, UInt64.toNat_shiftLeft, UInt64.toNat_ofNat']
  have : id % 64 % 2 ^ 64 % 64 = id % 64 := by omega
  rw [this, UInt64.toNat_one, Nat.shiftLeft_eq, Nat.one_mul, Nat.mod_eq_of_lt hpow]

/-- A word masked for an id is zero unless the bit of the id is set in it. -/
private theorem and_mask_ne_zero (word : UInt64) (id : Nat) :
    (word &&& mask id != 0) = word.toNat.testBit (id % 64) := by
  have h : (word &&& mask id).toNat = 2 ^ (id % 64) * (word.toNat.testBit (id % 64)).toNat := by
    rw [UInt64.toNat_and, mask_toNat, Nat.land_comm, Nat.two_pow_and]
  have hpos : 0 < 2 ^ (id % 64) := Nat.two_pow_pos _
  cases hb : word.toNat.testBit (id % 64) with
  | false =>
    have hz : word &&& mask id = 0 := UInt64.toNat.inj (by simp [h, hb])
    simp [hz]
  | true =>
    have hne : word &&& mask id ≠ 0 := by
      intro he
      rw [he, hb] at h
      simp only [UInt64.toNat_zero, Bool.toNat_true, Nat.mul_one] at h
      omega
    simpa using hne

private theorem bit_eq_testBit (set : StateSet) (id : Nat) :
    set.bit id = (set.words[id / 64]?.map fun word => word.toNat.testBit (id % 64)).getD false := by
  unfold bit
  cases set.words[id / 64]? with
  | none => rfl
  | some word => simpa using and_mask_ne_zero word id

private theorem testBit_or_mask (word : UInt64) (id b : Nat) :
    (word ||| mask id).toNat.testBit b = (word.toNat.testBit b || decide (id % 64 = b)) := by
  rw [UInt64.toNat_or, mask_toNat, Nat.testBit_or, Nat.testBit_two_pow]

/-- A set over `n` ids: as many words as `n` ids take, and no member that is not below `n`. -/
structure Over (n : Nat) (set : StateSet) : Prop where
  capacity : set.capacity = n
  words : set.words.size = (n + 63) / 64
  bound : ∀ id ∈ set, id < n

theorem not_mem_withCapacity (n id : Nat) : id ∉ withCapacity n := by
  rw [mem_iff_bit, bit_eq_testBit]
  simp only [withCapacity, Array.getElem?_replicate]
  split <;> simp

theorem over_withCapacity (n : Nat) : Over n (withCapacity n) where
  capacity := rfl
  words := by simp [withCapacity]
  bound id h := absurd h (not_mem_withCapacity n id)

theorem Over.mem_insert {n : Nat} {set : StateSet} (h : Over n set) {id j : Nat} :
    j ∈ set.insert id ↔ j ∈ set ∨ j = id ∧ id < n := by
  unfold insert
  split
  · next hid =>
    rw [h.capacity] at hid
    have hw : id / 64 < set.words.size := by rw [h.words]; omega
    have hsame : id / 64 = j / 64 ∧ id % 64 = j % 64 ↔ j = id := by omega
    simp only [mem_iff_bit, bit_eq_testBit, Array.getElem?_modify, hid, and_true]
    by_cases hj : id / 64 = j / 64
    · have hjw : j / 64 < set.words.size := hj ▸ hw
      have hmod : id % 64 = j % 64 ↔ j = id := by simpa [hj] using hsame
      simp only [hj, if_true, Array.getElem?_eq_getElem hjw, Option.map_some, Option.getD_some,
        testBit_or_mask, Bool.or_eq_true, decide_eq_true_eq, hmod]
    · have hne : j ≠ id := fun he => hj (by rw [he])
      simp [hj, hne]
  · next hid =>
    rw [h.capacity] at hid
    simp [hid]

theorem Over.insert {n : Nat} {set : StateSet} (h : Over n set) (id : Nat) :
    Over n (set.insert id) where
  capacity := by unfold StateSet.insert; split <;> exact h.capacity
  words := by unfold StateSet.insert; split <;> simp [h.words]
  bound j hj := by
    rcases h.mem_insert.1 hj with hj | ⟨rfl, hlt⟩
    · exact h.bound j hj
    · exact hlt

theorem Over.mem_union {n : Nat} {set other : StateSet} (h : Over n set) (h' : Over n other)
    {id : Nat} : id ∈ set.union other ↔ id ∈ set ∨ id ∈ other := by
  simp only [mem_iff_bit, bit_eq_testBit, StateSet.union, Array.getElem?_mapIdx]
  by_cases hw : id / 64 < set.words.size
  · have hw' : id / 64 < other.words.size := by rw [h'.words, ← h.words]; exact hw
    simp [Array.getElem?_eq_getElem hw, Array.getD, hw']
  · have hw' : ¬ id / 64 < other.words.size := by rw [h'.words, ← h.words]; exact hw
    simp [Array.getElem?_eq_none (Nat.le_of_not_lt hw), Array.getElem?_eq_none (Nat.le_of_not_lt hw')]

theorem Over.union {n : Nat} {set other : StateSet} (h : Over n set) (h' : Over n other) :
    Over n (set.union other) where
  capacity := h.capacity
  words := by simp [StateSet.union, h.words]
  bound id hid := (h.mem_union h').1 hid |>.elim (h.bound id) (h'.bound id)

private theorem foldl_insert {n : Nat} {set : StateSet} (h : Over n set) (ids : List Nat) :
    Over n (ids.foldl StateSet.insert set) ∧
      ∀ id, id ∈ ids.foldl StateSet.insert set ↔ id ∈ set ∨ id ∈ ids ∧ id < n := by
  induction ids generalizing set with
  | nil => exact ⟨h, fun id => by simp⟩
  | cons j ids ih =>
    obtain ⟨hover, hmem⟩ := ih (h.insert j)
    refine ⟨hover, fun id => ?_⟩
    rw [List.foldl_cons, hmem, h.mem_insert, List.mem_cons]
    constructor
    · intro hcases
      rcases hcases with (hid | ⟨rfl, hlt⟩) | ⟨hid, hlt⟩
      · exact .inl hid
      · exact .inr ⟨.inl rfl, hlt⟩
      · exact .inr ⟨.inr hid, hlt⟩
    · intro hcases
      rcases hcases with hid | ⟨rfl | hid, hlt⟩
      · exact .inl (.inl hid)
      · exact .inl (.inr ⟨rfl, hlt⟩)
      · exact .inr ⟨hid, hlt⟩

theorem over_ofList (n : Nat) (ids : List Nat) : Over n (ofList n ids) :=
  (foldl_insert (over_withCapacity n) ids).1

theorem mem_ofList {n : Nat} {ids : List Nat} {id : Nat} :
    id ∈ ofList n ids ↔ id ∈ ids ∧ id < n := by
  rw [ofList, (foldl_insert (over_withCapacity n) ids).2]
  simp [not_mem_withCapacity]

/-- The ids that words stand for, the first of which has a given number. -/
def idsFrom (index : Nat) : List UInt64 → List Nat
  | [] => []
  | word :: later => (bitsOf word).map (64 * index + ·) ++ idsFrom (index + 1) later

private theorem length_idsFrom (index n : Nat) (words : List UInt64) :
    n + (idsFrom index words).length = words.foldl (fun n word => n + word.toBitVec.cpop.toNat) n := by
  induction words generalizing index n with
  | nil => rfl
  | cons word later ih =>
    rw [idsFrom, List.length_append, List.length_map, length_bitsOf, List.foldl_cons, ← ih (index + 1),
      Nat.add_assoc]

private theorem length_idsFrom_le (index : Nat) (words : List UInt64) :
    (idsFrom index words).length ≤ 64 * words.length := by
  induction words generalizing index with
  | nil => exact Nat.le_refl 0
  | cons word later ih =>
    have hword : (bitsOf word).length ≤ 64 := (List.length_filter_le ..).trans_eq List.length_range
    have hlater := ih (index + 1)
    rw [idsFrom, List.length_append, List.length_map, List.length_cons]
    omega

private theorem mem_idsFrom {index : Nat} {words : List UInt64} {id : Nat} : id ∈ idsFrom index words ↔
    index ≤ id / 64 ∧ ∃ word, words[id / 64 - index]? = some word ∧ word.toNat.testBit (id % 64) = true := by
  induction words generalizing index with
  | nil => simp [idsFrom]
  | cons word later ih =>
    rw [idsFrom, List.mem_append, ih, List.mem_map]
    by_cases hfirst : id / 64 = index
    · have hlater : ¬ index + 1 ≤ index := Nat.not_succ_le_self index
      simp only [hfirst, hlater, false_and, or_false, le_refl, Nat.sub_self, List.getElem?_cons_zero,
        Option.some.injEq, exists_eq_left', true_and, mem_bitsOf]
      constructor
      · intro hbit
        obtain ⟨b, ⟨hlt, hb⟩, hid⟩ := hbit
        rwa [show id % 64 = b by omega]
      · intro hbit
        exact ⟨id % 64, ⟨Nat.mod_lt _ (by decide), hbit⟩, by omega⟩
    · have hword : ¬ ∃ b ∈ bitsOf word, 64 * index + b = id := by
        rintro ⟨b, hb, rfl⟩
        have hlt := (mem_bitsOf.1 hb).1
        omega
      by_cases hle : index + 1 ≤ id / 64
      · have hindex : id / 64 - index = id / 64 - (index + 1) + 1 := by omega
        simp [hword, hle, hindex, (show index ≤ id / 64 by omega)]
      · simp [hword, hle, (show ¬ index ≤ id / 64 by omega)]

private theorem ascending_idsFrom (index : Nat) (words : List UInt64) : (idsFrom index words).Pairwise (· < ·) := by
  induction words generalizing index with
  | nil => exact .nil
  | cons word later ih =>
    refine List.pairwise_append.2 ⟨?_, ih (index + 1), fun i hi j hj => ?_⟩
    · exact (ascending_bitsOf word).map _ fun _ _ hlt => Nat.add_lt_add_left hlt _
    · obtain ⟨b, hb, rfl⟩ := List.mem_map.1 hi
      have hlt := (mem_bitsOf.1 hb).1
      have hle := (mem_idsFrom.1 hj).1
      omega

namespace Cursor

/-- The ids that a walk has yet to come to. -/
def ids (c : Cursor) : List Nat := idsFrom c.index (c.left :: c.later)

/-- A walk comes to its ids one after the other, however many words are empty, and then to its end. -/
theorem ids_eq (c : Cursor) : c.ids = (c.next?.map fun next => next.1 :: next.2.ids).getD [] := by
  obtain ⟨index, left, later⟩ := c
  rw [next?, ids]
  dsimp only
  induction later generalizing index left with
  | nil =>
    by_cases hleft : left = 0
    · simp [hleft, seek, idsFrom, bitsOf_zero]
    · simp [seek, hleft, ids, idsFrom, bitsOf_eq_cons hleft]
  | cons word later ih =>
    by_cases hleft : left = 0
    · rw [seek, if_neg (not_not.2 hleft), ← ih, hleft]
      simp [idsFrom, bitsOf_zero]
    · simp [seek, hleft, ids, idsFrom, bitsOf_eq_cons hleft]

private theorem collect_eq {c : Cursor} {fuel : Nat} (h : c.ids.length ≤ fuel) (taken : List Nat) :
    c.collect fuel taken = c.ids.reverse ++ taken := by
  induction fuel generalizing c taken with
  | zero => rw [List.length_eq_zero_iff.1 (Nat.le_zero.1 h), collect, List.reverse_nil, List.nil_append]
  | succ fuel ih =>
    have hids := c.ids_eq
    rw [collect]
    cases hnext : c.next? with
    | none =>
      rw [hnext] at hids
      rw [show c.ids = [] from hids, List.reverse_nil, List.nil_append]
    | some next =>
      rw [hnext] at hids
      have hids : c.ids = next.1 :: next.2.ids := hids
      have hle : next.2.ids.length ≤ fuel := by
        rw [hids, List.length_cons] at h
        omega
      rw [hids, List.reverse_cons, List.append_assoc]
      exact ih hle (next.1 :: taken)

end Cursor

theorem ids_cursor (set : StateSet) : set.cursor.ids = idsFrom 0 set.words.toList := by
  obtain ⟨⟨words⟩, capacity⟩ := set
  cases words with
  | nil => simp [cursor, Cursor.ids, idsFrom, bitsOf_zero]
  | cons word later => rfl

/-- All ids of a set are collected. -/
theorem toList_eq (set : StateSet) : set.toList = idsFrom 0 set.words.toList := by
  have hle : set.cursor.ids.length ≤ 64 * set.words.size := by
    rw [ids_cursor]
    exact length_idsFrom_le 0 set.words.toList
  rw [toList, Cursor.collect_eq hle, List.append_nil, List.reverse_reverse, ids_cursor]

theorem mem_toList {set : StateSet} {id : Nat} : id ∈ set.toList ↔ id ∈ set := by
  rw [toList_eq, mem_idsFrom, mem_iff_bit, bit_eq_testBit, Nat.sub_zero, Array.getElem?_toList]
  cases set.words[id / 64]? with
  | none => simp
  | some word => simp

theorem ascending_toList (set : StateSet) : set.toList.Pairwise (· < ·) := by
  rw [toList_eq]
  exact ascending_idsFrom 0 set.words.toList

/-- There are as many ids as bits. -/
theorem size_eq (set : StateSet) : set.size = set.toList.length := by
  rw [toList_eq, size, ← Array.foldl_toList, ← length_idsFrom 0, Nat.zero_add]

/-- Words are equal if they have the same bits. -/
private theorem word_ext {word word' : UInt64} (h : ∀ b < 64, word.toNat.testBit b = word'.toNat.testBit b) :
    word = word' := by
  apply UInt64.toNat.inj
  apply Nat.eq_of_testBit_eq
  intro b
  by_cases hb : b < 64
  · exact h b hb
  · have hlt (word : UInt64) : word.toNat < 2 ^ b :=
      Nat.lt_of_lt_of_le word.toNat_lt (Nat.pow_le_pow_right (by decide) (Nat.le_of_not_lt hb))
    rw [Nat.testBit_lt_two_pow (hlt _), Nat.testBit_lt_two_pow (hlt _)]

/-- Sets over the same ids with the same members are equal. -/
theorem Over.ext {n : Nat} {set other : StateSet} (h : Over n set) (h' : Over n other)
    (hmem : ∀ id, id ∈ set ↔ id ∈ other) : set = other := by
  have hwords : set.words = other.words := by
    refine Array.ext (h.words.trans h'.words.symm) fun i hi hi' => word_ext fun b hb => ?_
    have hm := hmem (64 * i + b)
    have hdiv : (64 * i + b) / 64 = i := by omega
    have hmod : (64 * i + b) % 64 = b := by omega
    simp only [mem_iff_bit, bit_eq_testBit, hdiv, hmod, Array.getElem?_eq_getElem hi,
      Array.getElem?_eq_getElem hi', Option.map_some, Option.getD_some] at hm
    exact Bool.eq_iff_iff.2 hm
  obtain ⟨words, capacity⟩ := set
  obtain ⟨words', capacity'⟩ := other
  have hc : capacity = capacity' := h.capacity.trans h'.capacity.symm
  rw [show words = words' from hwords, hc]

theorem isEmpty_iff {set : StateSet} : set.isEmpty = true ↔ ∀ id, id ∉ set := by
  simp only [isEmpty, Array.all_eq_true, beq_iff_eq, mem_iff_bit, bit_eq_testBit]
  constructor
  · intro h id
    by_cases hw : id / 64 < set.words.size
    · simp [Array.getElem?_eq_getElem hw, h _ hw]
    · simp [Array.getElem?_eq_none (Nat.le_of_not_lt hw)]
  · intro h i hi
    refine word_ext fun b hb => ?_
    have hm := h (64 * i + b)
    have hdiv : (64 * i + b) / 64 = i := by omega
    have hmod : (64 * i + b) % 64 = b := by omega
    simpa [hdiv, hmod, Array.getElem?_eq_getElem hi] using hm

end StateSet

end TableLexer
