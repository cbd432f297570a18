import Mathlib.Data.List.Basic
import Mathlib.Data.List.TakeDrop
import TableLexer.Json.Reader

/-! Strings and numbers as they are written are read as what they stand for. -/
namespace TableLexer

namespace Json

section strings

variable {c : Char} {text rest : List Char} {pieces : List Piece} {fuel : Nat}

theorem hexValue?_digitChar {n : Nat} (h : n < 16) : Text.hexValue? (Nat.digitChar n) = some n := by
  revert h
  revert n
  decide

private theorem readUnit_control (h : c.toNat < 0x20) (rest : List Char) :
    readUnit ('0' :: '0' :: Nat.digitChar (c.toNat / 16) :: Nat.digitChar (c.toNat % 16) :: rest) =
      some (c.toNat, rest) := by
  have hzero : Text.hexValue? '0' = some 0 := by decide
  have hhigh := hexValue?_digitChar (n := c.toNat / 16) (by omega)
  have hlow := hexValue?_digitChar (n := c.toNat % 16) (by omega)
  have hvalue : c.toNat / 16 * 16 + c.toNat % 16 = c.toNat := by omega
  simp [readUnit, hzero, hhigh, hlow, hvalue]

/-- What is written for a character is one piece, however it is escaped. -/
private theorem readPieces_escape (c : Char) (rest : List Char) :
    readPieces (fuel + 1) pieces (escape c ++ rest) = readPieces fuel (.char c :: pieces) rest := by
  unfold escape
  split
  · rfl
  · rfl
  · rfl
  · rfl
  · rfl
  · rfl
  · rfl
  · next hquote hbackslash _ _ _ _ _ =>
    split
    · next hcontrol =>
      have hunit := readUnit_control hcontrol rest
      have hsurrogate : ¬ (0xD800 ≤ c.toNat ∧ c.toNat ≤ 0xDFFF) := by omega
      simp only [List.cons_append, List.nil_append, readPieces, hunit, if_neg hsurrogate, Char.ofNat_toNat]
    · next hplain =>
      have hc : ¬ (c.toNat < 0x20 ∨ c = '\\') := fun h => h.elim hplain hbackslash
      rw [List.singleton_append, readPieces.eq_def]
      dsimp only
      split
      · next heq => exact absurd (List.cons.inj heq).1 hquote
      · next heq => exact absurd (List.cons.inj heq).1 hbackslash
      · next heq => exact absurd (List.cons.inj heq).1 hbackslash
      · next heq =>
        obtain ⟨rfl, rfl⟩ := List.cons.inj heq
        rw [if_neg hc]
      · contradiction

private theorem length_escape_pos (c : Char) : 0 < (escape c).length := by
  unfold escape
  split <;> try exact Nat.succ_pos _
  split <;> exact Nat.succ_pos _

private theorem readPieces_flatMap_escape (hfuel : (text.flatMap escape).length < fuel) (rest : List Char) :
    readPieces fuel pieces (text.flatMap escape ++ '"' :: rest) =
      some (pieces.reverse ++ text.map .char, rest) := by
  obtain ⟨fuel, rfl⟩ := Nat.exists_eq_add_one_of_ne_zero (Nat.ne_zero_of_lt hfuel)
  induction text generalizing pieces fuel with
  | nil => simp [readPieces]
  | cons c text ih =>
    have hlength := length_escape_pos c
    rw [List.flatMap_cons, List.length_append] at hfuel
    rw [List.flatMap_cons, List.append_assoc, readPieces_escape]
    obtain ⟨fuel, rfl⟩ := Nat.exists_eq_add_one_of_ne_zero (n := fuel) (by omega)
    rw [ih fuel (by omega)]
    simp

private theorem joinPieces_map_char (text made : List Char) :
    joinPieces made (text.map .char) = some (made.reverse ++ text) := by
  induction text generalizing made with
  | nil => simp [joinPieces]
  | cons c text ih => simp [joinPieces, ih]

/-- A string is read as the text that it has been written for. -/
theorem readString_flatMap_escape (text : String) (rest : List Char) :
    readString (text.toList.flatMap escape ++ '"' :: rest) = some (some text, rest) := by
  have hfuel : (text.toList.flatMap escape).length < (text.toList.flatMap escape ++ '"' :: rest).length + 1 := by
    simp only [List.length_append, List.length_cons]
    omega
  rw [readString, readPieces_flatMap_escape hfuel]
  simp [joinPieces_map_char]

end strings

section numbers

variable {ds rest : List Char}

/-- What follows a value within a text that is written compactly: nothing, or more of an array or an object. -/
def Ended (rest : List Char) : Prop := ∀ c ∈ rest.head?, c = ',' ∨ c = ']' ∨ c = '}'

theorem Ended.digits_append (h : Ended rest) (hds : ∀ c ∈ ds, c.isDigit = true) :
    digits (ds ++ rest) = (ds, rest) := by
  have hstart : rest.takeWhile Char.isDigit = [] ∧ rest.dropWhile Char.isDigit = rest := by
    cases rest with
    | nil => exact ⟨rfl, rfl⟩
    | cons c rest =>
      obtain rfl | rfl | rfl := h c rfl
      · exact ⟨rfl, rfl⟩
      · exact ⟨rfl, rfl⟩
      · exact ⟨rfl, rfl⟩
  rw [digits, List.span_eq_takeWhile_dropWhile, List.takeWhile_append_of_pos hds, List.dropWhile_append_of_pos hds,
    hstart.1, hstart.2, List.append_nil]

theorem Ended.readTail_eq (h : Ended rest) : readTail rest = some (false, rest) := by
  cases rest with
  | nil => rfl
  | cons c rest =>
    obtain rfl | rfl | rfl := h c rfl
    · rfl
    · rfl
    · rfl

theorem isDigit_of_mem_decimal {n : Nat} {c : Char} (h : c ∈ Nat.toDigits 10 n) : c.isDigit = true :=
  Nat.isDigit_of_mem_toDigits (by decide) (by decide) h

theorem exists_decimal (n : Nat) : ∃ d ds, Nat.toDigits 10 n = d :: ds ∧ d.isDigit = true := by
  obtain ⟨d, ds, hds⟩ := List.exists_cons_of_ne_nil (Nat.toDigits_ne_nil (n := n) (b := 10))
  exact ⟨d, ds, hds, isDigit_of_mem_decimal (n := n) (hds ▸ List.mem_cons_self)⟩

/-- No number but zero starts with a zero. -/
private theorem head?_decimal_ne_zero {n : Nat} (hn : 0 < n) : (Nat.toDigits 10 n).head? ≠ some '0' := by
  induction n using Nat.strongRecOn with
  | ind n ih =>
    by_cases hlt : n < 10
    · rw [Nat.toDigits_of_lt_base hlt, List.head?_singleton, ne_eq, Option.some.injEq, Nat.digitChar_eq_zero]
      omega
    · rw [Nat.toDigits_of_base_le (by decide) (by omega), List.head?_append_of_ne_nil _ Nat.toDigits_ne_nil]
      exact ih (n / 10) (by omega) (by omega)

theorem digitsValue_decimal (n : Nat) : digitsValue (Nat.toDigits 10 n) = n := by
  have hvalue (ds : List Char) : digitsValue ds = Nat.ofDigitChars 10 ds 0 := by
    rw [digitsValue, Nat.ofDigitChars]
    simp only [Nat.mul_comm]
  rw [hvalue, Nat.ofDigitChars_ten_toDigits]

/-- The digits of a number are not refused. -/
private theorem decimal_plain (n : Nat) : ((Nat.toDigits 10 n).isEmpty ||
    ((Nat.toDigits 10 n).length > 1 && (Nat.toDigits 10 n).head? == some '0')) = false := by
  rcases Nat.eq_zero_or_pos n with rfl | hn
  · decide
  · simp [Nat.toDigits_ne_nil, head?_decimal_ne_zero hn]

theorem readNumber_decimal (h : Ended rest) (n : Nat) :
    readNumber (Nat.toDigits 10 n ++ rest) = some (integer n, rest) := by
  have hdigits := h.digits_append fun c (hc : c ∈ Nat.toDigits 10 n) => isDigit_of_mem_decimal hc
  have hsign (tail : List Char) (heq : Nat.toDigits 10 n ++ rest = '-' :: tail) : False := by
    obtain ⟨d, ds, hds, hd⟩ := exists_decimal n
    rw [hds] at heq
    rw [(List.cons.inj heq).1] at hd
    contradiction
  generalize htext : Nat.toDigits 10 n ++ rest = text at hdigits hsign
  unfold readNumber
  split
  next heq =>
  split at heq
  · exact (hsign _ rfl).elim
  · obtain ⟨rfl, rfl⟩ := Prod.mk.inj heq
    simp only [hdigits, decimal_plain, h.readTail_eq, digitsValue_decimal]
    rfl

theorem readNumber_negative (h : Ended rest) {n : Nat} (hn : 0 < n) :
    readNumber ('-' :: (Nat.toDigits 10 n ++ rest)) = some (integer (-n), rest) := by
  have hdigits := h.digits_append fun c (hc : c ∈ Nat.toDigits 10 n) => isDigit_of_mem_decimal hc
  have hzero : (n == 0) = false := by simpa using Nat.ne_of_gt hn
  simp only [readNumber, hdigits, decimal_plain, h.readTail_eq, digitsValue_decimal, hzero]
  rfl

end numbers

end Json

end TableLexer
