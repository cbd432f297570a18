import TableLexer.Proofs.Automaton.Canonical
import TableLexer.Proofs.Builder.Frozen

/-! The automata that building, determinizing and minimizing lead to, in any order. -/
namespace TableLexer

namespace Automaton

/-- The automata to be had from outside: an empty one, and what any of them becomes by public steps, whether
these succeed or not, by determinizing and by minimizing. -/
inductive Obtained : Automaton → Prop where
  | start (config : BuildConfig) : Obtained { config }
  | step {a : Automaton} {α : Type} {p : Builder α} (ha : Obtained a) (hp : p.Public) : Obtained (p.apply a).2
  | determinize {a d : Automaton} (ha : Obtained a) (hd : a.determinize = .ok d) : Obtained d
  | minimize {a m : Automaton} (ha : Obtained a) (hm : a.minimize = .ok m) : Obtained m

variable {a b d e m : Automaton}

/-- What a deterministic automaton is, in whatever way it has been obtained. -/
structure Ordered (d : Automaton) : Prop where
  wellFormed : d.WellFormed
  deterministic : d.deterministic = true
  noEpsilon : d.NoEpsilon
  breadthFirst : d.BreadthFirst

theorem minimize_eq_ok_iff : a.minimize = .ok m ↔ ∃ d, a.determinize = .ok d ∧ m = d.merged := by
  show a.determinize >>= _ = _ ↔ _
  rw [except_bind_eq_ok_iff]
  exact exists_congr fun d => and_congr_right fun _ => ⟨fun h => (Except.ok.inj h).symm, fun h => congrArg _ h.symm⟩

theorem NoEpsilon.merged (h : d.NoEpsilon) (hd : d.WellFormed) : d.merged.NoEpsilon := by
  intro i q hq
  obtain ⟨p, state, hstate, -, hmerged⟩ := exists_representative hd (lt_size_of_state? hq)
  obtain rfl := Option.some.inj (hmerged.symm.trans hq)
  simp [State.renamed, State.restricted, h p state hstate]

theorem Ordered.merged (h : d.Ordered) : d.merged.Ordered where
  wellFormed := merged_wellFormed h.wellFormed
  deterministic := rfl
  noEpsilon := h.noEpsilon.merged h.wellFormed
  breadthFirst := merged_breadthFirst h.wellFormed h.breadthFirst

theorem Ordered.canonical_merged (h : d.Ordered) : d.merged.Canonical where
  wellFormed := h.merged.wellFormed
  noEpsilon := h.merged.noEpsilon
  breadthFirst := h.merged.breadthFirst
  reduced _ hp _ hq := eq_of_merged_alike h.wellFormed hp hq

/-- What is known of an automaton at any time: it is well formed, and ordered once it is deterministic. -/
def Kept (a : Automaton) : Prop := a.WellFormed ∧ (a.deterministic = true → a.Ordered)

theorem Kept.determinize (h : a.Kept) (hd : a.determinize = .ok d) : d.Ordered := by
  unfold Automaton.determinize at hd
  split at hd
  · next hdet =>
    obtain rfl := Except.ok.inj hd
    exact h.2 hdet
  · obtain ⟨subsets, hrepresents⟩ := subsetConstruction_represents h.1 hd
    refine ⟨hrepresents.wellFormed h.1, ?_, hrepresents.noEpsilon, subsetConstruction_breadthFirst h.1 hd⟩
    rw [hrepresents.eq_frozen]
    rfl

theorem Obtained.kept (h : a.Obtained) : a.Kept := by
  induction h with
  | start config => exact ⟨wellFormed_start config, fun h => absurd h Bool.false_ne_true⟩
  | @step a α p _ hp ih =>
    have hgrows := (hp.leads ih.1).grows
    refine ⟨hgrows.wellFormed, fun hdet => ?_⟩
    -- A step on a deterministic automaton changes nothing, and none makes an automaton deterministic.
    rw [hgrows.deterministic] at hdet
    have hkeeps : (p.apply a).2 = a := hp.keeps hdet
    rw [hkeeps]
    exact ih.2 hdet
  | determinize _ hd ih =>
    have hordered := ih.determinize hd
    exact ⟨hordered.wellFormed, fun _ => hordered⟩
  | minimize _ hm ih =>
    obtain ⟨d, hd, rfl⟩ := minimize_eq_ok_iff.1 hm
    have hordered := (ih.determinize hd).merged
    exact ⟨hordered.wellFormed, fun _ => hordered⟩

private theorem WellFormed.verdict_eq (hd : d.WellFormed) {q : StateId} (hq : q < d.size) :
    d.verdict q = some ((d.terminal? q).isSome, d.terminal? q) := by
  obtain ⟨state, hstate⟩ := exists_state? hq
  rw [verdict, terminal?, hstate, Option.map_some, (hd.sound q state hstate).final_iff, Option.bind_some]

/-- States are alike if runs from them end on the same words, and at states that accept the same. -/
theorem alike_of_runs (hd : d.WellFormed) (he : e.WellFormed) {p q : StateId} (hp : p < d.size) (hq : q < e.size)
    (hends : ∀ w, (d.run? p w).isSome ↔ (e.run? q w).isSome)
    (haccepts : ∀ w, (d.run? p w).bind d.terminal? = (e.run? q w).bind e.terminal?) : d.Alike p e q := by
  intro w
  have hends := hends w
  have haccepts := haccepts w
  cases hrun : d.run? p w with
  | none =>
    cases hrun' : e.run? q w with
    | none => rfl
    | some q' => simp [hrun, hrun'] at hends
  | some p' =>
    cases hrun' : e.run? q w with
    | none => simp [hrun, hrun'] at hends
    | some q' =>
      rw [hrun, hrun', Option.bind_some, Option.bind_some] at haccepts
      rw [Option.map_some, Option.map_some, hd.verdict_eq (hd.run?_lt hp hrun),
        he.verdict_eq (he.run?_lt hq hrun'), haccepts]

/-- Two automata give the same words to the same terminals, and can read the same words. -/
structure Agree (a b : Automaton) : Prop where
  accepts : ∀ w, a.accepts w = b.accepts w
  reach : ∀ w, (∃ q, Path a.Edge a.initial w q) ↔ ∃ q, Path b.Edge b.initial w q

namespace Agree

theorem refl (a : Automaton) : a.Agree a := ⟨fun _ => rfl, fun _ => .rfl⟩

theorem symm (h : a.Agree b) : b.Agree a := ⟨fun w => (h.accepts w).symm, fun w => (h.reach w).symm⟩

theorem trans (h : a.Agree b) (h' : b.Agree d) : a.Agree d :=
  ⟨fun w => (h.accepts w).trans (h'.accepts w), fun w => (h.reach w).trans (h'.reach w)⟩

theorem determinize (ha : a.WellFormed) (hd : a.determinize = .ok d) : d.Agree a := by
  unfold Automaton.determinize at hd
  split at hd
  · obtain rfl := Except.ok.inj hd
    exact refl a
  · obtain ⟨subsets, hrepresents⟩ := subsetConstruction_represents ha hd
    refine ⟨hrepresents.accepts_eq ha, fun w => ?_⟩
    simp only [hrepresents.noEpsilon.path_iff_run?, ← Option.isSome_iff_exists]
    exact hrepresents.isSome_run?_iff ha w

theorem merged (hd : d.WellFormed) (h : d.NoEpsilon) : d.merged.Agree d := by
  have hmirrors := merged_mirrors hd
  have hmerged := h.merged hd
  have hrun (w : List Symbol) : d.merged.run? d.merged.initial w = (d.run? d.initial w).map d.blockOf :=
    hmirrors.run? hd w hd.initial_lt
  refine ⟨fun w => ?_, fun w => ?_⟩
  · rw [hmerged.accepts_eq (merged_wellFormed hd), h.accepts_eq hd, hrun]
    cases hq : d.run? d.initial w with
    | none => rfl
    | some q => exact hmirrors.terminal q (hd.run?_lt hd.initial_lt hq)
  · simp only [hmerged.path_iff_run?, h.path_iff_run?, ← Option.isSome_iff_exists, hrun, Option.isSome_map]

theorem minimize (ha : a.Kept) (hm : a.minimize = .ok m) : m.Agree a := by
  obtain ⟨d, hd, rfl⟩ := minimize_eq_ok_iff.1 hm
  have hordered := ha.determinize hd
  exact (merged hordered.wellFormed hordered.noEpsilon).trans (determinize ha.1 hd)

/-- A word leads to the same verdict in deterministic automata that agree. -/
theorem alike (h : d.Agree e) (hd : d.Ordered) (he : e.Ordered) : d.Alike d.initial e e.initial := by
  refine alike_of_runs hd.wellFormed he.wellFormed hd.wellFormed.initial_lt he.wellFormed.initial_lt
    (fun w => ?_) fun w => ?_
  · have hreach := h.reach w
    simpa only [hd.noEpsilon.path_iff_run?, he.noEpsilon.path_iff_run?, ← Option.isSome_iff_exists] using hreach
  · have haccepts := h.accepts w
    rwa [hd.noEpsilon.accepts_eq hd.wellFormed, he.noEpsilon.accepts_eq he.wellFormed] at haccepts

end Agree

end Automaton

end TableLexer
