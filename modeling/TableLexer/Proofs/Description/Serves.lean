import TableLexer.Proofs.Description.Matches
import TableLexer.Proofs.Pattern.Reads

/-! Every terminal of a description reads the same words and begins the same words wherever it stands
among the terminals. -/
namespace TableLexer

namespace Description

open Automaton Builder

variable {d : Description} {base a c n : Automaton} {named : String × Pattern} {done : List (String × Pattern)}

private theorem prelude_start (config : BuildConfig) : ({ config } : Automaton).Prelude where
  wellFormed := wellFormed_start config
  rooted := (lexes_start config).rooted
  idle l q edge := by
    cases l <;> simp [edge_none, edge_some, epsilonOf, transition?, state?, State.transition] at edge
  silent p := by cases p <;> simp [terminal?, state?]
  names := rfl
  apart name f hf := by simp at hf

private theorem prelude_define (h : a.Prelude) (hdefine : define a named = .ok c) : c.Prelude := by
  obtain ⟨f, b, hbuild, hb, howns, rfl⟩ := named.2.build_public.defined h.wellFormed (define_eq_ok_iff.1 hdefine)
  have hc := (Grows.defining hb.wellFormed named.1 howns).wellFormed
  obtain ⟨-, hplaced, -⟩ := Pattern.build_placed h.extends_self hbuild
  have hframe := hplaced.frame
  have hrooted : b.Rooted := h.rooted.frame h.wellFormed hframe
  refine ⟨hc, hrooted, fun l q edge => ?_, fun p => ?_, ?_, fun name g hg => ?_⟩
  · have edge : b.Edge b.initial l q := edge
    rw [hframe.initial, hframe.edge _ h.wellFormed.initial_lt] at edge
    exact h.idle l q edge
  · exact (congrFun hframe.terminal p).trans (h.silent p)
  · exact (congrArg Registry.names hframe.terminals).trans h.names
  · show g.entry ≠ b.initial ∧ g.exit ≠ b.initial
    rw [hframe.initial]
    rw [defining, List.lookup_cons] at hg
    split at hg
    · obtain rfl := Option.some.inj hg
      exact ⟨(Nat.lt_of_lt_of_le h.wellFormed.initial_lt hplaced.entry_le).ne',
        (Nat.lt_of_lt_of_le h.wellFormed.initial_lt hplaced.exit_le).ne'⟩
    · exact h.apart name g (hframe.definitions ▸ hg)

/-- A terminal that can be declared after others can be declared without them. -/
theorem exists_declareTerminal_prelude (h : base.Extends a) (hdeclare : declareTerminal a named = .ok c) :
    ∃ c', declareTerminal base named = .ok c' := by
  obtain ⟨id, happly⟩ := declareTerminal_eq_ok_iff.1 hdeclare
  obtain ⟨hmutable, hname, g, b, _, hbuild, -, hlimit, -⟩ := addTerminal_eq_ok_iff.1 happly
  obtain ⟨f, b', hbase, hgrows, halong, hpair⟩ := Pattern.build_follows named.2 (.refl h) g b hbuild
  have hkeep : ∀ f b, named.2.build.apply base = (.ok f, b) → b.deterministic = base.deterministic :=
    fun f b hfb => (named.2.build_public.grows h.prelude.wellFormed hfb).deterministic
  rw [halong.config, halong.size] at hlimit
  have hlimit := Nat.lt_of_le_of_lt (Nat.le_add_right _ _) hlimit
  obtain ⟨c', hc'⟩ := (exists_addTerminal_iff hkeep).2
    ⟨h.deterministic ▸ hmutable, hname, f, b', hbase, hpair.owns, hlimit, rfl⟩
  exact ⟨c', declareTerminal_eq_ok_iff.2 ⟨_, hc'⟩⟩

/-- The automaton has the given terminals, in their order, after a prelude of definitions. -/
structure Serves (base : Automaton) (terminals : List (String × Pattern)) (a : Automaton) : Prop where
  extends_base : base.Extends a
  names : a.terminals.names = eofName :: terminals.map Prod.fst
  spells : ∀ w i, a.Spells w i ↔ ∃ (j : Nat) (name : String) (p : Pattern),
    i = j + 1 ∧ terminals[j]? = some (name, p) ∧ p.Reads base w
  leads : ∀ w, (∃ q, Path a.Edge a.initial w q) ↔ w = [] ∨ ∃ named ∈ terminals, named.2.Begins base w
  alone : ∀ named ∈ terminals, ∃ c, declareTerminal base named = .ok c

theorem serves_prelude (h : base.Prelude) : Serves base [] base where
  extends_base := h.extends_self
  names := h.names
  alone named hmem := by simp at hmem
  spells w i := by
    simp [Spells, h.silent]
  leads w := by
    simp only [List.not_mem_nil, false_and, exists_false, or_false]
    constructor
    · intro hresult
      obtain ⟨q, hpath⟩ := hresult
      cases hpath with
      | refl _ => rfl
      | step edge _ => exact absurd edge (h.idle _ _)
    · intro hnil
      rw [hnil]
      exact ⟨_, .refl _⟩

/-- A terminal that is declared changes nothing about the prelude. -/
theorem extends_declareTerminal (h : base.Extends a) (hdeclare : declareTerminal a named = .ok c) :
    base.Extends c := by
  have ha := h.wellFormed
  obtain ⟨id, happly⟩ := declareTerminal_eq_ok_iff.1 hdeclare
  obtain ⟨f, b, hbuild, hb, hdeclared⟩ := named.2.build_public.declared ha happly
  have hgrows := (Builder.Public.addTerminal named.1 named.2.build_public).grows ha happly
  obtain ⟨hsince, hplaced, -⟩ := Pattern.build_placed h hbuild
  have hframe := hplaced.frame
  exact {
    prelude := h.prelude
    wellFormed := hgrows.wellFormed
    rooted := hplaced.rooted_declared ha hb.wellFormed hdeclared h.rooted
    size_le := Nat.le_trans h.size_le hgrows.size_le
    state := fun p hp hne => by
      have hlt := Nat.lt_of_lt_of_le hp h.size_le
      rw [state?_addTerminal hbuild happly (Nat.lt_of_lt_of_le hlt hb.size_le)
        (Nat.ne_of_lt (Nat.lt_of_lt_of_le hlt hplaced.exit_le)) (hframe.initial.trans h.initial ▸ hne),
        hsince.state p hlt, h.state p hp hne]
    initial := hdeclared.initial.trans (hframe.initial.trans h.initial)
    definitions := hdeclared.definitions.trans (hframe.definitions.trans h.definitions)
    deterministic := hgrows.deterministic.trans h.deterministic
    config := hgrows.config.trans h.config }

/-- A terminal that is declared joins those there are. -/
theorem Serves.declareTerminal (h : Serves base done a) (hnew : named.1 ∉ done.map Prod.fst)
    (hdeclare : declareTerminal a named = .ok c) : Serves base (done ++ [named]) c := by
  have ha := h.extends_base.wellFormed
  have hrooted := h.extends_base.rooted
  obtain ⟨id, happly⟩ := declareTerminal_eq_ok_iff.1 hdeclare
  obtain ⟨f, b, hbuild, hb, hdeclared⟩ := named.2.build_public.declared ha happly
  obtain ⟨-, hplaced, hreads, hbegins⟩ := Pattern.build_placed h.extends_base hbuild
  have hencode := encode_next ((congrArg Registry.names hplaced.frame.terminals).trans h.names)
    hdeclared.ne_eof hnew
  refine ⟨extends_declareTerminal h.extends_base hdeclare, ?_, fun w i => ?_, fun w => ?_, ?_⟩
  · rw [hdeclared.terminals, hencode]
  · rw [hplaced.spells_declared ha hb.wellFormed hdeclared hrooted, h.spells, hreads, hdeclared.id_eq, hencode]
    exact numbered_concat (·.Reads base w)
  · rw [hplaced.leads_declared ha hdeclared hrooted, h.leads, hbegins]
    simp [or_assoc, or_and_right, exists_or]
  · refine List.forall_mem_append.2 ⟨h.alone, List.forall_mem_singleton.2 ?_⟩
    exact exists_declareTerminal_prelude h.extends_base hdeclare

/-- The automaton of a description has its terminals, after a prelude of its definitions. -/
theorem serves_of_build (hnames : (d.terminals.map Prod.fst).Nodup) (hbuild : d.build = .ok n) : ∃ base,
    d.definitions.foldlM define { config := d.options.config } = .ok base ∧ Serves base d.terminals n := by
  obtain ⟨base, hdefine, hdeclare⟩ := build_eq_ok_iff.1 hbuild
  have hbase : base.Prelude := foldlM_ok (fun _ a => a.Prelude) hdefine (prelude_start _)
    fun _ _ _ _ _ _ ha hac => prelude_define ha hac
  refine ⟨base, hdefine, foldlM_declareTerminal_ok (Serves base) hnames hdeclare (serves_prelude hbase) ?_⟩
  intro done named a c _ hnew ha hac
  exact ha.declareTerminal hnew hac

end Description

end TableLexer
