import Mathlib.Computability.Language
import TableLexer.Proofs.Automaton.Change

/-! The paths that a graph gains by one more bridge. -/
namespace TableLexer

open Computability

variable {E : Graph} {p q source target : StateId} {w : List Symbol}

/-- The words that lead from one state to another. -/
def wordsBetween (E : Graph) (p q : StateId) : Language Symbol := {w | Path E p w q}

private theorem mem_wordsBetween : w ∈ wordsBetween E p q ↔ Path E p w q := Iff.rfl

theorem path_over_bridge : Path (E ⊔ bridge source target) source [] target := by
  by_cases hne : source = target
  · rw [hne]
    exact .refl _
  · have edge : (E ⊔ bridge source target) source none target := .inr ⟨hne, rfl, rfl, rfl⟩
    exact .silent edge (.refl _)

/-- Coming back to a bridge and going over it again can be repeated. -/
private theorem path_rounds (hw : w ∈ (wordsBetween E target source)∗) :
    Path (E ⊔ bridge source target) source w source := by
  obtain ⟨rounds, rfl, hrounds⟩ := Language.mem_kstar.1 hw
  clear hw
  induction rounds with
  | nil => exact .refl _
  | cons round rounds ih =>
    obtain ⟨hround, hrounds⟩ := List.forall_mem_cons.1 hrounds
    have hback : Path (E ⊔ bridge source target) target round source :=
      (mem_wordsBetween.1 hround).mono fun _ _ _ => .inl
    exact path_over_bridge.trans (hback.trans (ih hrounds))

/-- A path either does without a bridge or goes over it, perhaps comes back to it and goes over it
again, and goes on from there. -/
theorem path_bridge_iff : Path (E ⊔ bridge source target) p w q ↔ Path E p w q ∨
    ∃ u v z, u ++ v ++ z = w ∧ Path E p u source ∧ v ∈ (wordsBetween E target source)∗ ∧
      Path E target z q := by
  constructor
  · intro hpath
    induction hpath with
    | refl _ => exact .inl (.refl _)
    | step edge _ ih =>
      rcases edge with edge | ⟨-, rfl, rfl, rfl⟩
      · rcases ih with hrest | ⟨u, v, z, rfl, hu, hv, hz⟩
        · exact .inl (.step edge hrest)
        · exact .inr ⟨_, v, z, by simp, .step edge hu, hv, hz⟩
      · rcases ih with hrest | ⟨u, v, z, rfl, hu, hv, hz⟩
        · exact .inr ⟨[], [], _, rfl, .refl _, Language.nil_mem_kstar _, hrest⟩
        · obtain ⟨rounds, rfl, hrounds⟩ := Language.mem_kstar.1 hv
          refine .inr ⟨[], u ++ rounds.flatten, z, by simp, .refl _, ?_, hz⟩
          exact Language.mem_kstar.2 ⟨u :: rounds, rfl, List.forall_mem_cons.2 ⟨hu, hrounds⟩⟩
  · intro hcases
    rcases hcases with hpath | ⟨u, v, z, rfl, hu, hv, hz⟩
    · exact hpath.mono fun _ _ _ => .inl
    · have hu : Path (E ⊔ bridge source target) p u source := hu.mono fun _ _ _ => .inl
      have hz : Path (E ⊔ bridge source target) target z q := hz.mono fun _ _ _ => .inl
      exact (hu.trans (path_rounds hv)).trans (path_over_bridge.trans hz)

/-- A bridge to a state that leads nowhere only adds the ways there. -/
theorem path_bridge_idle_iff (hne : source ≠ target) (hidle : ∀ l q, ¬ E target l q) :
    Path (E ⊔ bridge source target) p w q ↔ Path E p w q ∨ q = target ∧ Path E p w source := by
  have hstay {z : List Symbol} {m : StateId} (hpath : Path E target z m) : z = [] ∧ m = target := by
    cases hpath with
    | refl _ => exact ⟨rfl, rfl⟩
    | step edge _ => exact absurd edge (hidle _ _)
  rw [path_bridge_iff]
  refine or_congr_right ⟨fun hresult => ?_, fun hresult => ?_⟩
  · obtain ⟨u, v, z, rfl, hu, hv, hz⟩ := hresult
    obtain ⟨rfl, rfl⟩ := hstay hz
    obtain ⟨rounds, rfl, hrounds⟩ := Language.mem_kstar.1 hv
    cases rounds with
    | nil => exact ⟨rfl, by simpa using hu⟩
    | cons round rounds => exact absurd (hstay (hrounds round List.mem_cons_self)).2 hne
  · obtain ⟨rfl, hpath⟩ := hresult
    exact ⟨w, [], [], by simp, hpath, Language.nil_mem_kstar _, .refl _⟩

end TableLexer
