import Mathlib.Data.List.Sort
import Mathlib.Data.Nat.Bitwise
import Mathlib.Tactic.Ring
import TableLexer.StateSet

/-! The bits of a word, one after the other: the lowest one is found by a complement, and taken off by
taking off one. -/
namespace TableLexer

namespace StateSet

variable {word : UInt64} {n k q b : Nat}

/-- The digits of a number end in zeros behind its lowest bit. -/
private theorem exists_lowest (h : n ≠ 0) : ∃ k q, n = 2 ^ (k + 1) * q + 2 ^ k := by
  induction n using Nat.strongRecOn with
  | ind n ih =>
    by_cases hodd : n % 2 = 1
    · exact ⟨0, n / 2, by omega⟩
    · obtain ⟨k, q, hq⟩ := ih (n / 2) (by omega) (by omega)
      refine ⟨k + 1, q, ?_⟩
      calc n
        _ = 2 * (n / 2) := by omega
        _ = 2 * (2 ^ (k + 1) * q + 2 ^ k) := by rw [← hq]
        _ = 2 ^ (k + 1 + 1) * q + 2 ^ (k + 1) := by ring

private theorem testBit_lowest (k q b : Nat) :
    (2 ^ (k + 1) * q + 2 ^ k).testBit b = if b ≤ k then decide (b = k) else q.testBit (b - (k + 1)) := by
  rw [Nat.testBit_two_pow_mul_add _ (Nat.pow_lt_pow_right (by decide) (Nat.lt_succ_self k)), Nat.testBit_two_pow]
  simp only [Nat.lt_succ_iff, eq_comm]

/-- One less than a number has ones below the lowest bit, none there, and the same bits above it. -/
private theorem testBit_lowest_sub_one (k q b : Nat) :
    (2 ^ (k + 1) * q + 2 ^ k - 1).testBit b = if b ≤ k then decide (b < k) else q.testBit (b - (k + 1)) := by
  have hpos : 0 < 2 ^ k := Nat.two_pow_pos k
  have hlt : 2 ^ k - 1 < 2 ^ (k + 1) := by
    rw [Nat.pow_succ]
    omega
  rw [Nat.add_sub_assoc hpos, Nat.testBit_two_pow_mul_add _ hlt, Nat.testBit_two_pow_sub_one]
  simp only [Nat.lt_succ_iff]

private theorem exists_lowest_word (h : word ≠ 0) : ∃ k q, word.toNat = 2 ^ (k + 1) * q + 2 ^ k :=
  exists_lowest fun hzero => h (UInt64.toNat.inj hzero)

private theorem toNat_sub_one (h : word ≠ 0) : (word - 1).toNat = word.toNat - 1 := by
  have hne : word.toNat ≠ 0 := fun hzero => h (UInt64.toNat.inj hzero)
  have hlt := word.toNat_lt
  rw [UInt64.toNat_sub, UInt64.toNat_one]
  omega

/-- A word and its complement have the lowest bit in common, and no other. -/
theorem lowestBit_eq (h : word.toNat = 2 ^ (k + 1) * q + 2 ^ k) : lowestBit word = k := by
  have hpos : 0 < word.toNat := by
    rw [h]
    exact Nat.add_pos_right _ (Nat.two_pow_pos k)
  have hlt := word.toNat_lt
  have hk : k < 64 := by
    refine (Nat.pow_lt_pow_iff_right (by decide)).1 (Nat.lt_of_le_of_lt ?_ hlt)
    rw [h]
    exact Nat.le_add_left ..
  have hneg : (0 - word).toNat = 2 ^ 64 - (word.toNat - 1 + 1) := by
    rw [UInt64.toNat_sub, UInt64.toNat_zero]
    omega
  have hand : (word &&& (0 - word)).toNat = 2 ^ k := by
    refine Nat.eq_of_testBit_eq fun b => ?_
    rw [UInt64.toNat_and, hneg, Nat.testBit_and, Nat.testBit_two_pow_sub_succ (by omega), h, testBit_lowest,
      testBit_lowest_sub_one, Nat.testBit_two_pow]
    by_cases hb : b ≤ k
    · by_cases heq : b = k
      · simp [heq, hk]
      · simp [hb, heq, Ne.symm heq]
    · have hne : k ≠ b := by omega
      cases q.testBit (b - (k + 1)) <;> simp [hb, hne]
  rw [lowestBit, hand, Nat.log2_two_pow]

private theorem testBit_lowestBit (h : word ≠ 0) : word.toNat.testBit (lowestBit word) = true := by
  obtain ⟨k, q, hq⟩ := exists_lowest_word h
  rw [lowestBit_eq hq, hq, testBit_lowest]
  simp

private theorem lowestBit_le (h : word.toNat.testBit b = true) : lowestBit word ≤ b := by
  have hne : word ≠ 0 := by
    rintro rfl
    simp at h
  obtain ⟨k, q, hq⟩ := exists_lowest_word hne
  rw [hq, testBit_lowest] at h
  rw [lowestBit_eq hq]
  by_contra hlt
  rw [if_pos (by omega), decide_eq_true_iff] at h
  omega

/-- Taking one off a word turns off its lowest bit, and none of the others that it has. -/
private theorem testBit_and_sub_one (h : word ≠ 0) (b : Nat) :
    (word &&& (word - 1)).toNat.testBit b = (word.toNat.testBit b && decide (b ≠ lowestBit word)) := by
  obtain ⟨k, q, hq⟩ := exists_lowest_word h
  rw [UInt64.toNat_and, toNat_sub_one h, Nat.testBit_and, lowestBit_eq hq, hq, testBit_lowest, testBit_lowest_sub_one]
  by_cases hb : b ≤ k
  · by_cases heq : b = k
    · simp [heq]
    · simp [hb, heq]
  · have hne : b ≠ k := by omega
    simp [hb, hne]

/-- The positions of the bits of a word, in ascending order. -/
def bitsOf (word : UInt64) : List Nat := (List.range 64).filter fun b => word.toNat.testBit b

theorem mem_bitsOf : b ∈ bitsOf word ↔ b < 64 ∧ word.toNat.testBit b = true := by
  rw [bitsOf, List.mem_filter, List.mem_range]

theorem ascending_bitsOf (word : UInt64) : (bitsOf word).Pairwise (· < ·) := List.pairwise_lt_range.filter _

theorem bitsOf_zero : bitsOf 0 = [] := by
  rw [bitsOf, List.filter_eq_nil_iff]
  simp

/-- The lowest bit comes first, and the others are those of the word without it. -/
theorem bitsOf_eq_cons (h : word ≠ 0) : bitsOf word = lowestBit word :: bitsOf (word &&& (word - 1)) := by
  have hlowest := testBit_lowestBit h
  have hlt : lowestBit word < 64 := by
    by_contra hle
    have hpow := Nat.pow_le_pow_right (n := 2) (by decide) (Nat.le_of_not_lt hle)
    rw [Nat.testBit_lt_two_pow (Nat.lt_of_lt_of_le word.toNat_lt hpow)] at hlowest
    contradiction
  refine (ascending_bitsOf word).eq_of_mem_iff (List.pairwise_cons.2 ⟨fun b hb => ?_, ascending_bitsOf _⟩) fun b => ?_
  · obtain ⟨-, hb⟩ := mem_bitsOf.1 hb
    rw [testBit_and_sub_one h, Bool.and_eq_true, decide_eq_true_iff] at hb
    exact Nat.lt_of_le_of_ne (lowestBit_le hb.1) (Ne.symm hb.2)
  · rw [List.mem_cons, mem_bitsOf, mem_bitsOf, testBit_and_sub_one h, Bool.and_eq_true, decide_eq_true_iff]
    by_cases heq : b = lowestBit word
    · simp [heq, hlt, hlowest]
    · simp [heq]

/-- The bits of a word are counted, whatever the order. -/
theorem length_bitsOf (word : UInt64) : (bitsOf word).length = word.toBitVec.cpop.toNat := by
  have hcount (n : Nat) : word.toBitVec.cpopNatRec n 0 = ((List.range n).filter fun b => word.toNat.testBit b).length := by
    induction n with
    | zero => rfl
    | succ n ih =>
      rw [BitVec.cpopNatRec_succ, BitVec.cpopNatRec_add, ih, List.range_succ, List.filter_append, List.length_append]
      cases hbit : word.toNat.testBit n with
      | false => simp [BitVec.getLsbD, hbit]
      | true => simp [BitVec.getLsbD, hbit]
  rw [BitVec.toNat_cpop, hcount, bitsOf]

end StateSet

end TableLexer
