import TableLexer.Registry

/-! The registry of terminal names: what looking up and registering a name do. -/
namespace TableLexer

namespace Registry

theorem getElem?_of_lastIndex? {name : String} {names : List String} {i : Nat}
    (h : lastIndex? name names = some i) : names[i]? = some name := by
  induction names generalizing i with
  | nil => simp [lastIndex?] at h
  | cons n rest ih =>
    rw [lastIndex?] at h
    split at h
    · next j hj =>
      obtain rfl : j + 1 = i := Option.some.inj h
      exact ih hj
    · split at h
      · next hn =>
        obtain rfl : 0 = i := Option.some.inj h
        simp [hn]
      · simp at h

theorem lastIndex?_eq_none_iff {name : String} {names : List String} :
    lastIndex? name names = none ↔ name ∉ names := by
  induction names with
  | nil => simp [lastIndex?]
  | cons n rest ih => grind [lastIndex?]

variable {r : Registry} {name : String}

theorem name?_of_id? {id : TerminalId} (h : r.id? name = some id) : r.name? id = some name :=
  getElem?_of_lastIndex? h

theorem id?_eq_none_iff : r.id? name = none ↔ name ∉ r.names := lastIndex?_eq_none_iff

theorem lt_size_of_name? {id : TerminalId} (h : r.name? id = some name) : id < r.size :=
  (List.getElem?_eq_some_iff.1 h).1

/-- A name that is registered is found, or else put behind the others. -/
theorem encode_cases (r : Registry) (name : String) :
    (∃ id, r.id? name = some id ∧ r.encode name = (id, r)) ∨
      r.id? name = none ∧ r.encode name = (r.size, ⟨r.names ++ [name]⟩) := by
  unfold encode
  cases r.id? name with
  | some id => exact .inl ⟨id, rfl, rfl⟩
  | none => exact .inr ⟨rfl, rfl⟩

/-- Registering a name gives an id that stands for the name, and keeps the names of all other ids. -/
theorem name?_encode (r : Registry) (name : String) :
    (r.encode name).2.name? (r.encode name).1 = some name ∧
      ∀ id other, r.name? id = some other → (r.encode name).2.name? id = some other := by
  rcases encode_cases r name with ⟨id, hid, heq⟩ | ⟨-, heq⟩ <;> rw [heq]
  · exact ⟨name?_of_id? hid, fun _ _ h => h⟩
  · refine ⟨by simp [name?, size], fun id other h => ?_⟩
    have hlt := lt_size_of_name? h
    simpa [name?, List.getElem?_append_left hlt] using h

theorem size_le_encode (r : Registry) (name : String) : r.size ≤ (r.encode name).2.size := by
  rcases encode_cases r name with ⟨id, -, heq⟩ | ⟨-, heq⟩
  · simp [heq]
  · simp [heq, size]

theorem encode_lt_size (r : Registry) (name : String) : (r.encode name).1 < (r.encode name).2.size :=
  lt_size_of_name? (name?_encode r name).1

/-- Only the name of the end of input has the id of the end of input. -/
theorem encode_ne_eof (heof : r.name? eof = some eofName) (hname : name ≠ eofName) :
    (r.encode name).1 ≠ eof := by
  intro hid
  obtain ⟨hself, hold⟩ := name?_encode r name
  rw [hid, hold eof eofName heof] at hself
  exact hname (Option.some.inj hself).symm

end Registry

end TableLexer
