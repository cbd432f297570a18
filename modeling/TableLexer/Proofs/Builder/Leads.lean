import TableLexer.Proofs.Automaton.Change

/-! What a step that extends an automaton leads to, whether it succeeds or fails on the way. -/
namespace TableLexer

namespace Builder

variable {α β : Type} {a b : Automaton} {p : Builder α} {f : α → Builder β}
  {good : α → Automaton → Prop} {good' : β → Automaton → Prop}

@[simp] theorem apply_pure (x : α) (a : Automaton) : (pure x : Builder α).apply a = (.ok x, a) := rfl

@[simp] theorem apply_throw (e : ConstructionError) (a : Automaton) :
    (throw e : Builder α).apply a = (.error e, a) := rfl

@[simp] theorem apply_get (a : Automaton) : (get : Builder Automaton).apply a = (.ok a, a) := rfl

@[simp] theorem apply_modify (f : Automaton → Automaton) (a : Automaton) :
    (modify f : Builder PUnit).apply a = (.ok ⟨⟩, f a) := rfl

@[simp] theorem apply_modifyGet (f : Automaton → α × Automaton) (a : Automaton) :
    (modifyGet f : Builder α).apply a = (.ok (f a).1, (f a).2) := rfl

theorem apply_bind (p : Builder α) (f : α → Builder β) (a : Automaton) :
    (p >>= f).apply a =
      match p.apply a with
      | (.ok x, b) => (f x).apply b
      | (.error e, b) => (.error e, b) := by
  show (ExceptT.bindCont f (p.apply a).1 : StateM Automaton _) (p.apply a).2 = _
  rcases p.apply a with ⟨_ | _, _⟩ <;> rfl

theorem apply_bind_eq_ok_iff {y : β} {c : Automaton} : (p >>= f).apply a = (.ok y, c) ↔
    ∃ x b, p.apply a = (.ok x, b) ∧ (f x).apply b = (.ok y, c) := by
  rw [apply_bind]
  rcases p.apply a with ⟨_ | x, b⟩ <;> simp

theorem apply_bind_eq_error_iff {e : ConstructionError} {c : Automaton} : (p >>= f).apply a = (.error e, c) ↔
    p.apply a = (.error e, c) ∨ ∃ x b, p.apply a = (.ok x, b) ∧ (f x).apply b = (.error e, c) := by
  rw [apply_bind]
  rcases p.apply a with ⟨_ | x, b⟩ <;> simp

/-- A step has one result. -/
theorem apply_unique {x y : α} {c : Automaton} (h : p.apply a = (.ok x, b)) (h' : p.apply a = (.ok y, c)) :
    x = y ∧ b = c := by
  simpa using h.symm.trans h'

theorem apply_tryCatch (p : Builder α) (handle : ConstructionError → Builder α) (a : Automaton) :
    (tryCatch p handle).apply a =
      match p.apply a with
      | (.ok x, b) => (.ok x, b)
      | (.error e, b) => (handle e).apply b := by
  simp only [apply, tryCatch, tryCatchThe, MonadExceptOf.tryCatch, ExceptT.tryCatch, ExceptT.run,
    ExceptT.mk, bind, StateT.bind]
  rcases p a with ⟨_ | _, _⟩ <;> rfl

/-- The automaton grows, and if the step succeeds its result is good. -/
structure Leads (p : Builder α) (a : Automaton) (good : α → Automaton → Prop) : Prop where
  grows : a.Grows (p.apply a).2
  good : ∀ x b, p.apply a = (.ok x, b) → good x b

namespace Leads

theorem grows_of_eq (h : Leads p a good) {result : Except ConstructionError α} (hx : p.apply a = (result, b)) :
    a.Grows b := by
  have hgrows := h.grows
  rwa [hx] at hgrows

theorem pure {x : α} (ha : a.WellFormed) (h : good x a) : Leads (pure x) a good where
  grows := .refl ha
  good y b h' := by
    obtain ⟨rfl, rfl⟩ : x = y ∧ a = b := by simpa using h'
    exact h

theorem throw {e : ConstructionError} (ha : a.WellFormed) : Leads (throw e) a good where
  grows := .refl ha
  good y b h := by simp at h

theorem get (ha : a.WellFormed) : Leads get a fun x b => x = a ∧ b = a where
  grows := .refl ha
  good y b h := by
    obtain ⟨rfl, rfl⟩ : a = y ∧ a = b := by simpa using h
    exact ⟨rfl, rfl⟩

theorem modify {f : Automaton → Automaton} (h : a.Grows (f a)) :
    Leads (modify f) a fun _ b => b = f a where
  grows := h
  good _ b h := by simpa using h.symm

theorem modifyGet {f : Automaton → α × Automaton} (h : a.Grows (f a).2) :
    Leads (modifyGet f) a fun x b => f a = (x, b) where
  grows := h
  good x b h := by
    obtain ⟨rfl, rfl⟩ : (f a).1 = x ∧ (f a).2 = b := by simpa using h
    rfl

theorem bind (hp : Leads p a good) (hf : ∀ x b, a.Grows b → good x b → Leads (f x) b good') :
    Leads (p >>= f) a good' := by
  rcases hx : p.apply a with ⟨e | x, b⟩
  · have happly : (p >>= f).apply a = (.error e, b) := by rw [apply_bind, hx]
    exact ⟨by rw [happly]; exact hp.grows_of_eq hx, fun y c h => by simp [happly] at h⟩
  · have happly : (p >>= f).apply a = (f x).apply b := by rw [apply_bind, hx]
    have hgrows := hp.grows_of_eq hx
    have hnext := hf x b hgrows (hp.good x b hx)
    exact ⟨by rw [happly]; exact hgrows.trans hnext.grows, fun y c h => hnext.good y c (happly ▸ h)⟩

theorem throw_bind {e : ConstructionError} (ha : a.WellFormed) : Leads (MonadExcept.throw e >>= f) a good' :=
  (show Leads (MonadExcept.throw e) a fun _ _ => False from throw ha).bind fun _ _ _ h => h.elim

theorem tryCatch {handle : ConstructionError → Builder α} (hp : Leads p a good)
    (hhandle : ∀ e b, a.Grows b → Leads (handle e) b good) : Leads (tryCatch p handle) a good := by
  rcases hx : p.apply a with ⟨e | x, b⟩
  · have happly : (MonadExcept.tryCatch p handle).apply a = (handle e).apply b := by rw [apply_tryCatch, hx]
    have hgrows := hp.grows_of_eq hx
    have hnext := hhandle e b hgrows
    exact ⟨by rw [happly]; exact hgrows.trans hnext.grows, fun y c h => hnext.good y c (happly ▸ h)⟩
  · have happly : (MonadExcept.tryCatch p handle).apply a = (.ok x, b) := by rw [apply_tryCatch, hx]
    exact ⟨by rw [happly]; exact hp.grows_of_eq hx, fun y c h => hp.good y c (hx.trans (happly.symm.trans h))⟩

theorem mono {good' : α → Automaton → Prop} (hp : Leads p a good)
    (h : ∀ x b, a.Grows b → good x b → good' x b) : Leads p a good' :=
  ⟨hp.grows, fun x b hx => h x b (hp.grows_of_eq hx) (hp.good x b hx)⟩

end Leads

end Builder

end TableLexer
