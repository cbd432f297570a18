import TableLexer.Journal
import TableLexer.Proofs.Outcome

/-! The outcome of work that keeps a journal does not depend on the journal. -/
namespace TableLexer

namespace Journaled

variable {ε ε' α β : Type} {work : Journaled ε α} {result : Except ε α}

/-- The work has an outcome whatever the journal says. -/
def Yields (work : Journaled ε α) (result : Except ε α) : Prop := ∀ journal, (work.run.run journal).1 = result

theorem Yields.result_eq (h : work.Yields result) : work.result = result := h []

theorem yields_pure (x : α) : (pure x : Journaled ε α).Yields (.ok x) := fun _ => rfl

theorem yields_throw (e : ε) : (throw e : Journaled ε α).Yields (.error e) := fun _ => rfl

theorem yields_note (n : Notice) : (note n : Journaled ε Unit).Yields (.ok ()) := fun _ => rfl

theorem yields_ofExcept (f : ε' → ε) (result : Except ε' α) :
    (ofExcept f result).Yields (result.mapError f) := fun _ => rfl

theorem yields_ofExcept_id (result : Except ε α) : (ofExcept id result).Yields result := by
  intro journal
  cases result <;> rfl

theorem Yields.withFailure (h : work.Yields result) (f : ε → ε') :
    (work.withFailure f).Yields (result.mapError f) := by
  intro journal
  rw [← h journal]
  rfl

private theorem run_bind (work : Journaled ε α) (f : α → Journaled ε β) (journal : List Notice) :
    ((work >>= f).run.run journal).1 =
      ((ExceptT.bindCont f (work.run.run journal).1 : StateM _ _) (work.run.run journal).2).1 := rfl

theorem Yields.bind_ok {f : α → Journaled ε β} {x : α} {next : Except ε β} (h : work.Yields (.ok x))
    (hf : (f x).Yields next) : (work >>= f).Yields next := by
  intro journal
  rw [run_bind, h journal]
  exact hf _

theorem Yields.bind_error {f : α → Journaled ε β} {e : ε} (h : work.Yields (.error e)) :
    (work >>= f).Yields (.error e) := by
  intro journal
  rw [run_bind, h journal]
  rfl

theorem Yields.bind {f : α → Journaled ε β} {next : α → Except ε β} (h : work.Yields result)
    (hf : ∀ x, (f x).Yields (next x)) : (work >>= f).Yields (result >>= next) := by
  cases result with
  | error e => exact h.bind_error
  | ok x => exact h.bind_ok (hf x)

/-- A note has no influence on the outcome. -/
theorem Yields.after_note (h : work.Yields result) (n : Notice) : (note n >>= fun _ => work).Yields result :=
  (yields_note n).bind_ok h

theorem Yields.foldlM {items : List β} {step : α → β → Journaled ε α} {next : α → β → Except ε α}
    (h : ∀ x item, (step x item).Yields (next x item)) (x : α) :
    (items.foldlM step x).Yields (items.foldlM next x) := by
  induction items generalizing x with
  | nil => exact yields_pure x
  | cons item items ih =>
    rw [List.foldlM_cons, List.foldlM_cons]
    exact (h x item).bind ih

end Journaled

end TableLexer
