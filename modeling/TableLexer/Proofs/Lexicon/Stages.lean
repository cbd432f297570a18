import TableLexer.Lexicon
import TableLexer.Proofs.Automaton.Obtained
import TableLexer.Proofs.Automaton.StateLimit
import TableLexer.Proofs.Description.Build
import TableLexer.Proofs.Registry
import TableLexer.Proofs.Scanner.Steps
import TableLexer.Proofs.Table.Compressed

/-! The stages in which a description becomes a lexicon, and what each of them keeps. -/
namespace TableLexer

open Automaton

namespace Description

variable {d : Description} {n a : Automaton}

/-- What the deterministic automaton of a description has kept of the automaton that is described. -/
structure Determinized (d : Description) (n a : Automaton) : Prop where
  wellFormed : a.WellFormed
  noEpsilon : a.NoEpsilon
  deterministic : a.deterministic = true
  terminals : a.terminals = n.terminals
  size_le : a.size ≤ max 1 d.options.config.stateLimit
  accepts : ∀ w, a.accepts w = n.accepts w
  run : ∀ w, (a.run? a.initial w).isSome ↔ ∃ q, Path n.Edge n.initial w q

theorem determinized (hbuild : d.build = .ok n) (h : n.determinize = .ok a) : d.Determinized n a := by
  have hgrows := grows_of_build hbuild
  rw [determinize_eq_subsetConstruction hgrows.deterministic] at h
  obtain ⟨subsets, ha⟩ := subsetConstruction_represents hgrows.wellFormed h
  have hlimit := ha.size_le
  rw [← ha.size_eq, hgrows.config] at hlimit
  exact ⟨ha.wellFormed hgrows.wellFormed, ha.noEpsilon, by rw [ha.eq_frozen]; rfl,
    ha.terminals_eq, hlimit, ha.accepts_eq hgrows.wellFormed, ha.isSome_run?_iff hgrows.wellFormed⟩

/-- The two automata of a description match the same texts. -/
theorem Determinized.matches?_eq (h : d.Determinized n a) : a.matches? = n.matches? :=
  funext fun _ => congrArg _ (funext h.accepts)

/-- Merging states keeps what a deterministic automaton has kept. -/
theorem Determinized.merged (h : d.Determinized n a) : d.Determinized n a.merged where
  wellFormed := merged_wellFormed h.wellFormed
  noEpsilon := h.noEpsilon.merged h.wellFormed
  deterministic := rfl
  terminals := h.terminals
  size_le := (size_merged_le h.wellFormed).trans h.size_le
  accepts w := ((Agree.merged h.wellFormed h.noEpsilon).accepts w).trans (h.accepts w)
  run w := by
    have hreach := (Agree.merged h.wellFormed h.noEpsilon).reach w
    simp only [(h.noEpsilon.merged h.wellFormed).path_iff_run?, h.noEpsilon.path_iff_run?,
      ← Option.isSome_iff_exists] at hreach
    exact hreach.trans (h.run w)

/-- The ignored terminals are terminals, and none of them is the end of input. -/
theorem mem_ignoredIds {terminals : Registry} {ids : List TerminalId} (h : d.ignoredIds terminals = .ok ids) :
    ∀ id ∈ ids, id ≠ eof ∧ terminals.contains id = true := by
  have hids := mapM_eq_ok_iff.1 h
  clear h
  generalize d.ignored = names at hids
  induction hids with
  | nil => simp
  | cons hname _ ih =>
    refine List.forall_mem_cons.2 ⟨?_, ih⟩
    split at hname
    · simp at hname
    · next id hid =>
      split at hname
      · simp at hname
      · next hne =>
        obtain rfl := Except.ok.inj hname
        exact ⟨hne, decide_eq_true (Registry.lt_size_of_name? (Registry.name?_of_id? hid))⟩

end Description

namespace Lexicon

/-- The automaton whose table a lexicon has. -/
def tabled (options : Options) (a : Automaton) : Automaton := if options.minimize then a.merged else a

/-- The lexicon for a deterministic automaton. -/
def ofAutomaton (options : Options) (a : Automaton) (ignored : List TerminalId) : Lexicon where
  table := (tabled options a).table
  compressed := if options.compress then some (tabled options a).table.compress else none
  ignored

variable {d : Description} {n a : Automaton} {e : ConstructionError}

theorem determinized_tabled (h : d.Determinized n a) : d.Determinized n (tabled d.options a) := by
  unfold tabled
  split
  · exact h.merged
  · exact h

private theorem declare_yields_build (d : Description) : d.declare.Yields d.build := by
  rw [Description.build, d.declare_yields.result_eq]
  exact d.declare_yields

private theorem reduce_yields (options : Options) (ha : a.deterministic = true) :
    (reduce options a).Yields (.ok (tabled options a)) := by
  unfold reduce tabled
  split
  · have hminimize : (Journaled.ofExcept BuildError.construction a.minimize).Yields (.ok a.merged) := by
      rw [minimize_eq ha]
      exact Journaled.yields_pure _
    exact hminimize.bind_ok ((Journaled.yields_pure _).after_note _)
  · exact Journaled.yields_pure a

private theorem squeeze_yields (options : Options) (t : Table) :
    (squeeze options t).Yields (.ok (if options.compress then some t.compress else none)) := by
  unfold squeeze
  split
  · exact (Journaled.yields_pure _).after_note _
  · exact Journaled.yields_pure none

theorem ofDescription_of_build_error (h : d.build = .error e) :
    ofDescription d = .error (.description (.construction e)) := by
  have hbuild := (declare_yields_build d).withFailure (BuildError.description ∘ .construction)
  rw [h] at hbuild
  exact hbuild.bind_error.result_eq

section built

variable (hbuild : d.build = .ok n)
include hbuild

private theorem declare_yields_ok :
    (d.declare.withFailure (BuildError.description ∘ .construction)).Yields (.ok n) := by
  have hdeclare := (declare_yields_build d).withFailure (BuildError.description ∘ .construction)
  rwa [hbuild] at hdeclare

theorem ofDescription_of_determinize_error (h : n.determinize = .error e) :
    ofDescription d = .error (.construction e) := by
  have hdeterminize : (Journaled.ofExcept BuildError.construction n.determinize).Yields
      (.error (.construction e)) := by
    rw [h]
    exact Journaled.yields_throw _
  exact ((declare_yields_ok hbuild).bind_ok hdeterminize.bind_error).result_eq

/-- Once an automaton is deterministic, nothing but an ignored terminal can be wrong. -/
theorem ofDescription_of_determinize (h : n.determinize = .ok a) : ofDescription d = (do
    let ignored ← (d.ignoredIds n.terminals).mapError .description
    return ofAutomaton d.options a ignored) := by
  have ha := Description.determinized hbuild h
  have htabled := determinized_tabled ha
  have hdeterminize : (Journaled.ofExcept BuildError.construction n.determinize).Yields (.ok a) := by
    rw [h]
    exact Journaled.yields_pure a
  have hcompile : (Journaled.ofExcept BuildError.construction (tabled d.options a).compile).Yields
      (.ok (tabled d.options a).table) := by
    rw [compile_eq htabled.deterministic]
    exact Journaled.yields_pure _
  have hterminals : (tabled d.options a).table.terminals = n.terminals := htabled.terminals
  refine Journaled.Yields.result_eq ((declare_yields_ok hbuild).bind_ok (hdeterminize.bind_ok ?_))
  refine .after_note ((reduce_yields _ ha.deterministic).bind_ok (hcompile.bind_ok (.after_note ?_ _))) _
  rw [hterminals]
  refine (Journaled.yields_ofExcept _ _).bind fun ignored => ?_
  exact (squeeze_yields _ _).bind_ok (Journaled.yields_pure _)

end built

theorem ofDescription_eq_ok_iff {l : Lexicon} : ofDescription d = .ok l ↔ ∃ n a ignored,
    d.build = .ok n ∧ n.determinize = .ok a ∧ d.ignoredIds n.terminals = .ok ignored ∧
      ofAutomaton d.options a ignored = l := by
  cases hbuild : d.build with
  | error e => simp [ofDescription_of_build_error hbuild]
  | ok n =>
    cases h : n.determinize with
    | error e => simp [ofDescription_of_determinize_error hbuild h, h]
    | ok a =>
      rw [ofDescription_of_determinize hbuild h]
      cases hignored : d.ignoredIds n.terminals with
      | error e => simp [h, hignored, bind, Except.bind, Except.mapError]
      | ok ignored => simp [h, hignored, bind, Except.bind, Except.mapError, pure, Except.pure]

/-- What scanners are told by a lexicon is in its compressed table, or else in its dense one. -/
private theorem implements_of_tables {l : Lexicon} {place : StateId → StateId} {states : Set StateId}
    (hdense : l.compressed = none → Implements l.table a place states)
    (hcompressed : ∀ t, l.compressed = some t → Implements t a place states) : Implements l a place states := by
  obtain ⟨table, compressed, ignored⟩ := l
  cases compressed with
  | none =>
    obtain ⟨hinitial, hterminals, hnext, haccepts, hexpected⟩ := hdense rfl
    exact ⟨hinitial, hterminals, hnext, haccepts, hexpected⟩
  | some t =>
    obtain ⟨hinitial, hterminals, hnext, haccepts, hexpected⟩ := hcompressed t rfl
    exact ⟨hinitial, hterminals, hnext, haccepts, hexpected⟩

/-- The lexicon does in each state what its automaton does there, if the targets fit into cells. -/
theorem ofAutomaton_implements (options : Options) (ignored : List TerminalId)
    (ha : (tabled options a).WellFormed) :
    Implements (ofAutomaton options a ignored) (tabled options a) id (tabled options a).fitting := by
  have htable := table_implements_fitting ha
  refine implements_of_tables (fun _ => htable) fun t ht => ?_
  obtain ⟨-, ht⟩ := Option.ite_none_right_eq_some.1 ht
  obtain rfl := Option.some.inj ht
  exact Table.compress_implements (rectangular_table _) htable

/-- A small description can be compiled if it may be ambiguous. -/
theorem exists_ofDescription {k : Nat} {ignored : List TerminalId}
    (hbuilt : (d.build.map fun n => (n.size, d.ignoredIds n.terminals)).toOption = some (k, .ok ignored))
    (hpolicy : d.options.config.ambiguity = .firstDeclared) (hroom : 2 ^ k < d.options.config.stateLimit) :
    ∃ l, ofDescription d = .ok l := by
  cases hbuild : d.build with
  | error e =>
    rw [hbuild] at hbuilt
    contradiction
  | ok n =>
    rw [hbuild] at hbuilt
    obtain ⟨rfl, hignored⟩ := Prod.mk.inj (Option.some.inj hbuilt)
    have hgrows := Description.grows_of_build hbuild
    obtain ⟨a, ha⟩ := exists_determinize_of_size hgrows.wellFormed (by rw [hgrows.config, hpolicy])
      (by rwa [hgrows.config])
    exact ⟨_, ofDescription_eq_ok_iff.2 ⟨n, a, ignored, hbuild, ha, hignored, rfl⟩⟩

/-- Words between blanks, which are ignored. -/
def words : Description where
  terminals := [("WORD", .plus (.oneOf [⟨.ofChar 'a', .ofChar 'z'⟩])), ("BLANK", .literal " ")]
  ignored := ["BLANK"]

theorem exists_words : ∃ l, ofDescription words = .ok l := by
  have hbuilt : (words.build.map fun n => (n.size, words.ignoredIds n.terminals)).toOption =
      some (8, .ok [2]) := by decide +kernel
  exact exists_ofDescription hbuilt rfl (by decide)

end Lexicon

end TableLexer
