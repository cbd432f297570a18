/-! Loops that go on until a round ends them, and how many rounds they make. -/
namespace TableLexer

/-- A loop makes so many rounds and ends with a result. A round either ends the loop or leads to the state in which
the next one starts. -/
inductive Ends {σ ρ : Type} (round : σ → ρ ⊕ σ) : σ → Nat → ρ → Prop where
  | last {s : σ} {result : ρ} (h : round s = .inl result) : Ends round s 1 result
  | next {s s' : σ} {n : Nat} {result : ρ} (h : round s = .inr s') (rest : Ends round s' n result) :
      Ends round s (n + 1) result

/-- A loop in which each round either ends it or takes something away makes at most one round more than there is
to take. -/
theorem exists_ends {σ ρ : Type} {round : σ → ρ ⊕ σ} (left : σ → Nat) (run : σ → ρ)
    (h : ∀ s, round s = .inl (run s) ∨ ∃ s', round s = .inr s' ∧ left s' < left s ∧ run s' = run s) (s : σ) :
    ∃ n ≤ left s + 1, Ends round s n (run s) := by
  induction hleft : left s using Nat.strongRecOn generalizing s with
  | ind bound ih =>
    rcases h s with hlast | ⟨s', hnext, hlt, hrun⟩
    · exact ⟨1, Nat.le_add_left 1 bound, .last hlast⟩
    · obtain ⟨n, hn, hends⟩ := ih (left s') (hleft ▸ hlt) s' rfl
      rw [hrun] at hends
      exact ⟨n + 1, by omega, .next hnext hends⟩

end TableLexer
