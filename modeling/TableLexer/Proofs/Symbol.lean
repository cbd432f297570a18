import Mathlib.Data.List.FinRange
import TableLexer.Symbol

/-! The words that texts spell. -/
namespace TableLexer

namespace Symbol

variable {c : Char} {text text' : List Char} {w : List Symbol}

theorem all_eq : all = List.finRange 256 := by
  delta all
  rfl

theorem length_all : all.length = 256 := by rw [all_eq, List.length_finRange]

theorem mem_all (s : Symbol) : s ∈ all := by
  rw [all_eq]
  exact List.mem_finRange s

theorem ascending_all : all.Pairwise (· < ·) := by
  rw [all_eq]
  exact List.pairwise_lt_finRange 256

theorem getElem?_all (s : Symbol) : all[s.val]? = some s := by
  have hlt : s.val < (List.finRange 256).length := by simp
  rw [all_eq, List.getElem?_eq_getElem hlt, List.getElem_finRange]
  rfl

theorem word?_cons : word? (c :: text) = (ofChar? c).bind fun s => (word? text).map (s :: ·) := by
  rw [word?, word?, List.mapM_cons]
  cases ofChar? c <;> cases text.mapM ofChar? <;> rfl

theorem word?_append : word? (text ++ text') = (word? text).bind fun u => (word? text').map (u ++ ·) := by
  induction text with
  | nil => simp [word?]
  | cons c text ih =>
    rw [List.cons_append, word?_cons, word?_cons, ih]
    cases ofChar? c <;> cases word? text <;> cases word? text' <;> rfl

theorem ofChar?_toChar (s : Symbol) : ofChar? s.toChar = some s := by
  have hvalid : s.val.isValidChar := .inl (Nat.lt_trans s.isLt (by decide))
  have hchar : s.toChar = Char.ofNatAux s.val hvalid := dif_pos hvalid
  have hval : s.toChar.toNat = s.val := by
    rw [hchar]
    rfl
  simp [ofChar?, hval]

theorem ofChar?_eq_some_iff {s : Symbol} : ofChar? c = some s ↔ c = s.toChar := by
  constructor
  · intro h
    rw [ofChar?] at h
    split at h
    · obtain rfl := Option.some.inj h
      rw [toChar, Char.ofNat_toNat]
    · simp at h
  · intro h
    rw [h, ofChar?_toChar]

/-- Every word is spelled by a text. -/
theorem word?_map_toChar (w : List Symbol) : word? (w.map toChar) = some w := by
  induction w with
  | nil => rfl
  | cons s w ih => rw [List.map_cons, word?_cons, ofChar?_toChar, ih, Option.bind_some, Option.map_some]

theorem word?_eq_some_iff : word? text = some w ↔ text = w.map toChar := by
  constructor
  · intro h
    induction text generalizing w with
    | nil =>
      obtain rfl : [] = w := Option.some.inj h
      rfl
    | cons c text ih =>
      rw [word?_cons] at h
      obtain ⟨s, hs, h⟩ := Option.bind_eq_some_iff.1 h
      obtain ⟨u, hu, rfl⟩ := Option.map_eq_some_iff.1 h
      rw [List.map_cons, ofChar?_eq_some_iff.1 hs, ih hu]
  · rintro rfl
    exact word?_map_toChar w

theorem length_of_word? (h : word? text = some w) : w.length = text.length := by
  rw [word?_eq_some_iff.1 h, List.length_map]

end Symbol

end TableLexer
