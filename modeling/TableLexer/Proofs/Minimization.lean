import TableLexer.Proofs.Automaton.Obtained
import TableLexer.Proofs.Automaton.Shortlex
import TableLexer.Proofs.Automaton.StateLimit

/-! Minimizing merges exactly those states that no word tells apart, and leads to the same automaton from
whatever automaton gives the same words to the same terminals. Its states are the words that can be read, up to
those that go on alike. -/
namespace TableLexer

namespace Automaton

variable {a b m n : Automaton}

private theorem Agree.matches?_eq (h : a.Agree b) (text : String) : a.matches? text = b.matches? text := by
  rw [matches?, matches?]
  exact congrArg _ (funext h.accepts)

private theorem accepts_eq_of_matches? (h : ∀ text, a.matches? text = b.matches? text) (w : List Symbol) :
    a.accepts w = b.accepts w := by
  have htext := h (String.ofList (w.map Symbol.toChar))
  rwa [matches?, matches?, String.toList_ofList, Symbol.word?_map_toChar, Option.bind_some, Option.bind_some]
    at htext

/-- The minimal automaton accepts the same texts. Its states stand for the states of the deterministic one, two
of them for the same state exactly if no word tells them apart, and the refinement that finds them ends when no
round would split a block. -/
theorem minimize_merges_alike (ha : a.Obtained) (hm : a.minimize = .ok m) :
    ∃ d, a.determinize = .ok d ∧ (∀ text, m.matches? text = a.matches? text) ∧
      m.Mirrors d d.blockOf ∧ (∀ q < d.size, m.Alike (d.blockOf q) d q) ∧
      (∀ i, i < m.size ↔ ∃ q < d.size, d.blockOf q = i) ∧
      (∀ p < d.size, ∀ q < d.size, d.blockOf p = d.blockOf q ↔ d.Alike p d q) ∧
      Stable (d.states.toList.map fun q => d.usedSymbols.map q.transition) d.blocks ∧
      ∀ p < m.size, ∀ q < m.size, m.Alike p m q → p = q := by
  have hmatches := (Agree.minimize ha.kept hm).matches?_eq
  obtain ⟨d, hd, rfl⟩ := minimize_eq_ok_iff.1 hm
  have hwf := (ha.kept.determinize hd).wellFormed
  refine ⟨d, hd, hmatches, merged_mirrors hwf, fun q => merged_alike hwf, fun i => ?_,
    fun p hp q hq => blockOf_eq_iff hwf hp hq, (partitions_blocks hwf).stable,
    fun p hp q hq => eq_of_merged_alike hwf hp hq⟩
  constructor
  · intro hi
    obtain ⟨q, state, hstate, hblock, -⟩ := exists_representative hwf hi
    exact ⟨q, lt_size_of_state? hstate, hblock⟩
  · intro h
    obtain ⟨q, -, rfl⟩ := h
    exact blockOf_lt hwf q

/-- Whatever is put behind two words, both or neither can be read, and they are given to the same terminal. -/
def Interchangeable (a : Automaton) (v w : List Symbol) : Prop :=
  ∀ u, ((∃ q, Path a.Edge a.initial (v ++ u) q) ↔ ∃ q, Path a.Edge a.initial (w ++ u) q) ∧
    a.accepts (v ++ u) = a.accepts (w ++ u)

theorem Interchangeable.refl (a : Automaton) (w : List Symbol) : a.Interchangeable w w := fun _ => ⟨.rfl, rfl⟩

section minimal

variable (ha : a.Kept) (hm : a.minimize = .ok m)
include ha hm

private theorem Kept.ordered_minimize : m.Ordered := by
  obtain ⟨d, hd, rfl⟩ := minimize_eq_ok_iff.1 hm
  exact (ha.determinize hd).merged

private theorem Kept.canonical_minimize : m.Canonical := by
  obtain ⟨d, hd, rfl⟩ := minimize_eq_ok_iff.1 hm
  exact (ha.determinize hd).canonical_merged

theorem isSome_run?_minimize_iff (w : List Symbol) :
    (m.run? m.initial w).isSome ↔ ∃ q, Path a.Edge a.initial w q := by
  simp only [← (Agree.minimize ha hm).reach, (ha.ordered_minimize hm).noEpsilon.path_iff_run?,
    Option.isSome_iff_exists]

/-- Two words lead to one state of the minimal automaton exactly if they are interchangeable. -/
theorem run?_minimize_eq_iff {v w : List Symbol} {p q : StateId} (hp : m.run? m.initial v = some p)
    (hq : m.run? m.initial w = some q) : p = q ↔ a.Interchangeable v w := by
  have hordered := ha.ordered_minimize hm
  have hends {w : List Symbol} {r : StateId} (hr : m.run? m.initial w = some r) (u : List Symbol) :
      (∃ q, Path a.Edge a.initial (w ++ u) q) ↔ (m.run? r u).isSome := by
    rw [← isSome_run?_minimize_iff ha hm, run?_append, hr, Option.bind_some]
  have haccepts {w : List Symbol} {r : StateId} (hr : m.run? m.initial w = some r) (u : List Symbol) :
      a.accepts (w ++ u) = (m.run? r u).bind m.terminal? := by
    rw [← (Agree.minimize ha hm).accepts, hordered.noEpsilon.accepts_eq hordered.wellFormed, run?_append, hr,
      Option.bind_some]
  constructor
  · intro heq u
    subst heq
    exact ⟨(hends hp u).trans (hends hq u).symm, (haccepts hp u).trans (haccepts hq u).symm⟩
  · intro h
    have hlt := hordered.wellFormed.run?_lt hordered.wellFormed.initial_lt hp
    have hlt' := hordered.wellFormed.run?_lt hordered.wellFormed.initial_lt hq
    refine (ha.canonical_minimize hm).reduced p hlt q hlt' ?_
    refine alike_of_runs hordered.wellFormed hordered.wellFormed hlt hlt' (fun u => ?_) fun u => ?_
    · exact ((hends hp u).symm.trans (h u).1).trans (hends hq u)
    · exact ((haccepts hp u).symm.trans (h u).2).trans (haccepts hq u)

/-- The minimal automaton has as many states as there are words that can be read and are not interchangeable. -/
theorem size_minimize (words : List (List Symbol)) (hread : ∀ w ∈ words, ∃ q, Path a.Edge a.initial w q)
    (hall : ∀ w, (∃ q, Path a.Edge a.initial w q) → ∃ v ∈ words, a.Interchangeable v w)
    (hapart : words.Pairwise fun v w => ¬ a.Interchangeable v w) : m.size = words.length := by
  have hordered := ha.ordered_minimize hm
  have hruns (w : List Symbol) (hw : w ∈ words) : ∃ q, m.run? m.initial w = some q :=
    Option.isSome_iff_exists.1 ((isSome_run?_minimize_iff ha hm w).2 (hread w hw))
  choose! place hplace using hruns
  have hnodup : (words.map place).Nodup := by
    refine List.pairwise_map.2 (hapart.imp_of_mem fun hv hw hne heq => hne ?_)
    exact (run?_minimize_eq_iff ha hm (hplace _ hv) (hplace _ hw)).1 heq
  have hstates (i : Nat) : i ∈ List.range m.size ↔ i ∈ words.map place := by
    rw [List.mem_range, List.mem_map]
    constructor
    · intro hi
      obtain ⟨w, hw⟩ := hordered.breadthFirst.exists_run hordered.wellFormed hi
      obtain ⟨v, hv, hvw⟩ := hall w ((isSome_run?_minimize_iff ha hm w).1 (by simp [hw]))
      exact ⟨v, hv, (run?_minimize_eq_iff ha hm (hplace v hv) hw).2 hvw⟩
    · intro hi
      obtain ⟨w, hw, rfl⟩ := hi
      exact hordered.wellFormed.run?_lt hordered.wellFormed.initial_lt (hplace w hw)
  have hperm := (List.perm_ext_iff_of_nodup List.nodup_range hnodup).2 hstates
  simpa using hperm.length_eq

end minimal

/-- The texts `a` and `b`, each spelled out. -/
def letterEach : Automaton :=
  (Builder.apply (Builder.addTerminal "LETTER" do
    Builder.alternate [← Builder.string "a", ← Builder.string "b"]) {}).2

theorem obtained_letterEach : letterEach.Obtained :=
  .step (.start {}) (.addTerminal _ (.bind (.string _) fun _ => .bind (.string _) fun _ => .alternate _))

/-- Nothing can be read after one of the letters. -/
private theorem eq_of_read_letterEach {w : List Symbol} (h : ∃ q, Path letterEach.Edge letterEach.initial w q) :
    w = [] ∨ w = [.ofChar 'a'] ∨ w = [.ofChar 'b'] := by
  have hnext : ∀ w ∈ [[], [.ofChar 'a'], [.ofChar 'b']], ∀ s, (letterEach.after (w ++ [s])).toList ≠ [] →
      w ++ [s] = [.ofChar 'a'] ∨ w ++ [s] = [.ofChar 'b'] := by decide +kernel
  induction w using List.reverseRecOn with
  | nil => exact .inl rfl
  | append_singleton w s ih =>
    obtain ⟨q, hpath⟩ := h
    obtain ⟨p, hp, -⟩ := hpath.split
    have hmem := StateSet.mem_toList.2 ((mem_after obtained_letterEach.kept.1).2 hpath)
    exact .inr (hnext w (by simpa using ih ⟨p, hp⟩) s (List.ne_nil_of_mem hmem))

private theorem read_letterEach {c : Symbol} (h : (letterEach.accepts [c]).isSome) :
    ∃ q, Path letterEach.Edge letterEach.initial [c] q := by
  obtain ⟨_, q, hpath, -⟩ := (isSome_accepts_iff obtained_letterEach.kept.1).1 h
  exact ⟨q, hpath⟩

private theorem interchangeable_letterEach : letterEach.Interchangeable [.ofChar 'a'] [.ofChar 'b'] := by
  intro u
  cases u with
  | nil =>
    refine ⟨iff_of_true (read_letterEach ?_) (read_letterEach ?_), ?_⟩ <;> decide +kernel
  | cons s u =>
    have hends (c : Symbol) : ¬ ∃ q, Path letterEach.Edge letterEach.initial ([c] ++ s :: u) q :=
      fun h => by simpa using eq_of_read_letterEach h
    have hnone (c : Symbol) : letterEach.accepts ([c] ++ s :: u) = none :=
      (accepts_eq_none_iff obtained_letterEach.kept.1).2 fun _ ⟨q, hpath, _⟩ => hends c ⟨q, hpath⟩
    exact ⟨iff_of_false (hends _) (hends _), (hnone _).trans (hnone _).symm⟩

theorem exists_minimize_letterEach : ∃ m, letterEach.minimize = .ok m ∧ m.size = 2 := by
  have hkept := obtained_letterEach.kept
  obtain ⟨d, hd⟩ : ∃ d, letterEach.determinize = .ok d :=
    exists_determinize_of_size hkept.1 (by decide +kernel) (by decide +kernel)
  have hm : letterEach.minimize = .ok d.merged := minimize_eq_ok_iff.2 ⟨d, hd, rfl⟩
  have hapart : ¬ letterEach.Interchangeable [] [.ofChar 'a'] := fun h => absurd (h []).2 (by decide +kernel)
  refine ⟨d.merged, hm, size_minimize hkept hm [[], [.ofChar 'a']] ?_ (fun w hw => ?_) (by simpa using hapart)⟩
  · simpa using ⟨⟨_, Path.refl _⟩, read_letterEach (by decide +kernel)⟩
  · rcases eq_of_read_letterEach hw with rfl | rfl | rfl
    · exact ⟨_, List.mem_cons_self, .refl _ _⟩
    · exact ⟨_, List.mem_cons_of_mem _ List.mem_cons_self, .refl _ _⟩
    · exact ⟨_, List.mem_cons_of_mem _ List.mem_cons_self, interchangeable_letterEach⟩

/-- One state is left for both letters. -/
theorem minimize_merges_alike_letterEach : letterEach.Obtained ∧ ∃ m, letterEach.minimize = .ok m ∧ m.size = 2 ∧
    ∃ d, letterEach.determinize = .ok d ∧ (∀ text, m.matches? text = letterEach.matches? text) ∧
      m.Mirrors d d.blockOf ∧ (∀ q < d.size, m.Alike (d.blockOf q) d q) ∧
      (∀ i, i < m.size ↔ ∃ q < d.size, d.blockOf q = i) ∧
      (∀ p < d.size, ∀ q < d.size, d.blockOf p = d.blockOf q ↔ d.Alike p d q) ∧
      Stable (d.states.toList.map fun q => d.usedSymbols.map q.transition) d.blocks ∧
      ∀ p < m.size, ∀ q < m.size, m.Alike p m q → p = q := by
  obtain ⟨m, hm, hsize⟩ := exists_minimize_letterEach
  exact ⟨obtained_letterEach, m, hm, hsize, minimize_merges_alike obtained_letterEach hm⟩

/-- Nothing changes when a minimal automaton is minimized. -/
theorem Ordered.merged_merged {d : Automaton} (h : d.Ordered) : d.merged.merged = d.merged := by
  have hagree := Agree.merged h.merged.wellFormed h.merged.noEpsilon
  have halike := hagree.alike h.merged.merged h.merged
  have hstates := h.merged.canonical_merged.states_eq h.canonical_merged halike
  have hinitial := h.merged.merged.breadthFirst.initial_eq.trans h.merged.breadthFirst.initial_eq.symm
  calc d.merged.merged
    _ = d.frozen d.merged.merged.states d.merged.merged.initial := rfl
    _ = d.frozen d.merged.states d.merged.initial := by rw [hstates, hinitial]
    _ = d.merged := rfl

/-- Automata that give the same words to the same terminals and can read the same words have the same minimal
automaton, number for number. A minimal automaton is its own. -/
theorem minimize_canonical (ha : a.Obtained) (hb : b.Obtained)
    (hmatches : ∀ text, a.matches? text = b.matches? text)
    (hreach : ∀ w, (∃ q, Path a.Edge a.initial w q) ↔ ∃ q, Path b.Edge b.initial w q)
    (hm : a.minimize = .ok m) (hn : b.minimize = .ok n) :
    m.initial = n.initial ∧ m.states = n.states ∧ m.minimize = .ok m := by
  have hagree : m.Agree n := by
    have hab : a.Agree b := ⟨accepts_eq_of_matches? hmatches, hreach⟩
    exact ((Agree.minimize ha.kept hm).trans hab).trans (Agree.minimize hb.kept hn).symm
  obtain ⟨d, hd, rfl⟩ := minimize_eq_ok_iff.1 hm
  obtain ⟨e, he, rfl⟩ := minimize_eq_ok_iff.1 hn
  have hd := ha.kept.determinize hd
  have he := hb.kept.determinize he
  refine ⟨?_, ?_, ?_⟩
  · exact hd.merged.breadthFirst.initial_eq.trans he.merged.breadthFirst.initial_eq.symm
  · exact hd.canonical_merged.states_eq he.canonical_merged (hagree.alike hd.merged he.merged)
  · rw [minimize_eq hd.merged.deterministic, hd.merged_merged]

/-- The letters and their deterministic automaton have one minimal automaton. -/
theorem minimize_canonical_letterEach : ∃ d m n, letterEach.determinize = .ok d ∧
    (∀ text, letterEach.matches? text = d.matches? text) ∧
    (∀ w, (∃ q, Path letterEach.Edge letterEach.initial w q) ↔ ∃ q, Path d.Edge d.initial w q) ∧
    letterEach.minimize = .ok m ∧ d.minimize = .ok n ∧
    m.initial = n.initial ∧ m.states = n.states ∧ m.minimize = .ok m := by
  obtain ⟨m, hm, -⟩ := exists_minimize_letterEach
  obtain ⟨d, hd, -⟩ := minimize_eq_ok_iff.1 hm
  have hn := minimize_eq (obtained_letterEach.kept.determinize hd).deterministic
  have hagree := (Agree.determinize obtained_letterEach.kept.1 hd).symm
  exact ⟨d, m, d.merged, hd, hagree.matches?_eq, hagree.reach, hm, hn,
    minimize_canonical obtained_letterEach (obtained_letterEach.determinize hd) hagree.matches?_eq hagree.reach hm hn⟩

end Automaton

end TableLexer
