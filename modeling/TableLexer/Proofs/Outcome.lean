import Mathlib.Data.List.Forall2

/-! Work that succeeds, taken apart into the successes of its steps. -/
namespace TableLexer

variable {ε σ α β : Type}

theorem except_bind_eq_ok_iff {x : Except ε α} {f : α → Except ε β} {b : β} :
    x >>= f = .ok b ↔ ∃ a, x = .ok a ∧ f a = .ok b := by
  cases x with
  | error e => simp [bind, Except.bind]
  | ok a => simp [bind, Except.bind]

theorem except_bind_eq_error_iff {x : Except ε α} {f : α → Except ε β} {e : ε} :
    x >>= f = .error e ↔ x = .error e ∨ ∃ a, x = .ok a ∧ f a = .error e := by
  cases x with
  | error e => simp [bind, Except.bind]
  | ok a => simp [bind, Except.bind]

theorem exists_ok_of_toBool {x : Except ε α} (h : x.toBool = true) : ∃ a, x = .ok a := by
  cases x with
  | error e => simp [Except.toBool] at h
  | ok a => exact ⟨a, rfl⟩

theorem stateT_bind_eq_ok_iff {x : StateT σ (Except ε) α} {f : α → StateT σ (Except ε) β}
    {s : σ} {r : β × σ} :
    (x >>= f).run s = .ok r ↔ ∃ a s', x.run s = .ok (a, s') ∧ (f a).run s' = .ok r := by
  rw [StateT.run_bind, except_bind_eq_ok_iff, Prod.exists]

/-- A list is mapped by a step that can fail exactly if every item is. -/
theorem mapM_eq_ok_iff {f : α → Except ε β} {items : List α} {results : List β} :
    items.mapM f = .ok results ↔ List.Forall₂ (fun a b => f a = .ok b) items results := by
  induction items generalizing results with
  | nil =>
    rw [List.mapM_nil, List.forall₂_nil_left_iff]
    exact ⟨fun h => (Except.ok.inj h).symm, fun h => h ▸ rfl⟩
  | cons a items ih =>
    rw [List.mapM_cons, except_bind_eq_ok_iff, List.forall₂_cons_left_iff]
    constructor
    · intro hresult
      obtain ⟨b, hb, h⟩ := hresult
      obtain ⟨bs, hbs, h⟩ := except_bind_eq_ok_iff.1 h
      exact ⟨b, bs, hb, ih.1 hbs, (Except.ok.inj h).symm⟩
    · intro hresult
      obtain ⟨b, bs, hb, hbs, rfl⟩ := hresult
      exact ⟨b, hb, except_bind_eq_ok_iff.2 ⟨bs, ih.2 hbs, rfl⟩⟩

theorem exists_mapM_ok {f : α → Except ε β} {items : List α} (h : ∀ a ∈ items, ∃ b, f a = .ok b) :
    ∃ results, items.mapM f = .ok results := by
  induction items with
  | nil => exact ⟨[], rfl⟩
  | cons a items ih =>
    obtain ⟨⟨b, hb⟩, hitems⟩ := List.forall_mem_cons.1 h
    obtain ⟨results, hresults⟩ := ih hitems
    exact ⟨b :: results, mapM_eq_ok_iff.2 (.cons hb (mapM_eq_ok_iff.1 hresults))⟩

theorem exists_ok_of_mapM_ok {f : α → Except ε β} {items : List α} {results : List β}
    (h : items.mapM f = .ok results) {a : α} (ha : a ∈ items) : ∃ b, f a = .ok b := by
  have hall := mapM_eq_ok_iff.1 h
  clear h
  induction hall with
  | nil => simp at ha
  | @cons _ b _ _ hb _ ih =>
    rcases List.mem_cons.1 ha with rfl | ha
    · exact ⟨b, hb⟩
    · exact ih ha

theorem mapM_congr {f g : α → Except ε β} {items : List α} (h : ∀ a ∈ items, f a = g a) :
    items.mapM f = items.mapM g := by
  induction items with
  | nil => rfl
  | cons a items ih =>
    obtain ⟨ha, hitems⟩ := List.forall_mem_cons.1 h
    rw [List.mapM_cons, List.mapM_cons, ha, ih hitems]

/-- A step that fails on no item maps a list as a function does. -/
theorem mapM_eq_ok_map {f : α → Except ε β} {g : α → β} {items : List α} (h : ∀ a ∈ items, f a = .ok (g a)) :
    items.mapM f = .ok (items.map g) :=
  mapM_eq_ok_iff.2 (List.forall₂_map_right_iff.2 (List.forall₂_same.2 h))

/-- When mapping a list fails, an item fails so, and those before it do not fail. -/
theorem exists_of_mapM_eq_error {f : α → Except ε β} {items : List α} {e : ε} (h : items.mapM f = .error e) :
    ∃ (i : Nat) (a : α), items[i]? = some a ∧ f a = .error e ∧
      ∀ j < i, ∀ b, items[j]? = some b → ∃ r, f b = .ok r := by
  induction items with
  | nil => simp [pure, Except.pure] at h
  | cons a items ih =>
    rw [List.mapM_cons] at h
    cases ha : f a with
    | error e' =>
      rw [ha] at h
      obtain rfl := Except.error.inj h
      exact ⟨0, a, rfl, ha, fun j hj => absurd hj (Nat.not_lt_zero j)⟩
    | ok r =>
      cases hitems : items.mapM f with
      | ok rs =>
        rw [ha, hitems] at h
        cases h
      | error e' =>
        rw [ha, hitems] at h
        obtain rfl := Except.error.inj h
        obtain ⟨i, b, hb, hfail, hbefore⟩ := ih hitems
        refine ⟨i + 1, b, hb, hfail, fun j hj c hc => ?_⟩
        cases j with
        | zero =>
          obtain rfl := Option.some.inj hc
          exact ⟨r, ha⟩
        | succ j => exact hbefore j (Nat.lt_of_succ_lt_succ hj) c hc

theorem foldlM_cons_eq_ok_iff {step : β → α → Except ε β} {item : α} {items : List α} {x y : β} :
    (item :: items).foldlM step x = .ok y ↔ ∃ z, step x item = .ok z ∧ items.foldlM step z = .ok y := by
  rw [List.foldlM_cons, except_bind_eq_ok_iff]

/-- What holds at first and is passed on by every step that succeeds holds at the end of a list. -/
theorem foldlM_ok {step : β → α → Except ε β} {items : List α} {x y : β} (holds : List α → β → Prop)
    (h : items.foldlM step x = .ok y) (hstart : holds [] x)
    (hstep : ∀ done item rest x y, done ++ item :: rest = items → holds done x →
      step x item = .ok y → holds (done ++ [item]) y) : holds items y := by
  suffices ∀ rest done x, done ++ rest = items → holds done x → rest.foldlM step x = .ok y →
      holds items y from this items [] x rfl hstart h
  intro rest
  induction rest with
  | nil =>
    intro done x hdone hx hy
    obtain rfl := Except.ok.inj hy
    rwa [← hdone, List.append_nil]
  | cons item rest ih =>
    intro done x hdone hx hy
    rw [List.foldlM_cons, except_bind_eq_ok_iff] at hy
    obtain ⟨x', hx', hy⟩ := hy
    exact ih (done ++ [item]) x' (by rw [List.append_assoc]; exact hdone)
      (hstep done item rest x x' hdone hx hx') hy

end TableLexer
