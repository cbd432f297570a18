import TableLexer.Proofs.Automaton.Embedding
import TableLexer.Proofs.Pattern.Declared

/-! The same steps taken in two automata, of which the second one has more states to begin with. If
they succeed there, they succeed in the first one as well, and what they build is the same, except that
its states come later in the second one. -/
namespace TableLexer

namespace Automaton

/-- An automaton that has definitions, but no terminals yet. -/
structure Prelude (a : Automaton) : Prop where
  wellFormed : a.WellFormed
  rooted : a.Rooted
  idle : a.Idle a.initial
  silent : ∀ p, a.terminal? p = none
  names : a.terminals.names = [eofName]
  apart : ∀ name f, a.definitions.lookup name = some f → f.entry ≠ a.initial ∧ f.exit ≠ a.initial

/-- An automaton with the states of a prelude, of which only the initial one may lead to more. -/
structure Extends (base ambient : Automaton) : Prop where
  prelude : base.Prelude
  wellFormed : ambient.WellFormed
  rooted : ambient.Rooted
  size_le : base.size ≤ ambient.size
  state : ∀ p < base.size, p ≠ base.initial → ambient.state? p = base.state? p
  initial : ambient.initial = base.initial
  definitions : ambient.definitions = base.definitions
  deterministic : ambient.deterministic = base.deterministic
  config : ambient.config = base.config

theorem Prelude.extends_self {a : Automaton} (h : a.Prelude) : a.Extends a :=
  ⟨h, h.wellFormed, h.rooted, Nat.le_refl _, fun _ _ _ => rfl, rfl, rfl, rfl, rfl⟩

/-- The second automaton has grown out of the first one, whose states it has as they were, and its new
states accept nothing. -/
structure Since (a b : Automaton) : Prop where
  grows : a.Grows b
  state : ∀ p < a.size, b.state? p = a.state? p
  silent : ∀ p, a.size ≤ p → b.terminal? p = none
  initial : b.initial = a.initial
  terminals : b.terminals = a.terminals
  definitions : b.definitions = a.definitions

namespace Since

variable {a b : Automaton} {source : StateId}

theorem refl (ha : a.WellFormed) : a.Since a :=
  ⟨.refl ha, fun _ _ => rfl, fun _ hp => terminal?_eq_none hp, rfl, rfl, rfl⟩

theorem extended (h : a.Since b) (hgrows : b.Grows b.extended) : a.Since b.extended where
  grows := h.grows.trans hgrows
  state p hp := by
    rw [state?_extended, if_neg (Nat.ne_of_lt (Nat.lt_of_lt_of_le hp h.grows.size_le)), h.state p hp]
  silent p hp := by
    rw [(Adds.extended b).terminal]
    exact h.silent p hp
  initial := h.initial
  terminals := h.terminals
  definitions := h.definitions

theorem modifyState {f : State → State} (h : a.Since b) (hsource : a.size ≤ source)
    (hgrows : b.Grows (b.modifyState source f)) (hterminal : ∀ q, (f q).terminal = q.terminal) :
    a.Since (b.modifyState source f) where
  grows := h.grows.trans hgrows
  state p hp := by
    rw [state?_modifyState, if_neg (Nat.ne_of_gt (Nat.lt_of_lt_of_le hp hsource)), h.state p hp]
  silent p hp := by
    have hnone := h.silent p hp
    rw [terminal?] at hnone ⊢
    rw [state?_modifyState]
    split
    · cases hq : b.state? p <;> simp_all
    · exact hnone
  initial := h.initial
  terminals := h.terminals
  definitions := h.definitions

theorem fillIn {pairs : List (StateId × StateId)} {n : Nat} (h : a.Since b) (hnaming : Builder.Naming pairs n b.size)
    (hle : a.size ≤ n) (hsilent : ∀ pair ∈ pairs, b.terminal? pair.1 = none) :
    a.Since (Builder.fillIn pairs b) := by
  obtain ⟨hother, hfilled⟩ := Builder.state?_fillIn hnaming
  obtain ⟨hinitial, hterminals, hdefinitions⟩ := Builder.initial_fillIn pairs b
  refine ⟨h.grows.trans (Builder.grows_fillIn h.grows.wellFormed hnaming), fun p hp => ?_, fun p hp => ?_,
    hinitial.trans h.initial, hterminals.trans h.terminals, hdefinitions.trans h.definitions⟩
  · rw [hother p (hnaming.notMem_of_lt (hp.trans_le hle)), h.state p hp]
  · rw [terminal?]
    by_cases hmem : p ∈ pairs.map (·.2)
    · obtain ⟨⟨old, new⟩, hpair, rfl⟩ := List.mem_map.1 hmem
      have hnone := hsilent _ hpair
      rw [terminal?] at hnone
      rw [hfilled old new hpair]
      cases hq : b.state? old <;> simp_all [State.restricted]
    · rw [hother p hmem]
      exact h.silent p hp

end Since

/-- By how many states the states that are built in an ambient automaton come later. -/
def gap (base ambient : Automaton) : Nat := ambient.size - base.size

/-- The same has been built after a prelude and after an automaton that extends it. -/
structure Alongside (base ambient a b : Automaton) : Prop where
  extends_base : base.Extends ambient
  since : base.Since a
  since' : ambient.Since b
  size : b.size = a.size + gap base ambient
  embeds : Embeds (· + gap base ambient) {p | base.size ≤ p} a b

namespace Alongside

variable {base ambient a b : Automaton} {source target : StateId}

theorem le_add_gap {p : StateId} (hp : base.size ≤ p) : ambient.size ≤ p + gap base ambient := by
  unfold gap
  omega

theorem refl (h : base.Extends ambient) : Alongside base ambient base ambient where
  extends_base := h
  since := .refl h.prelude.wellFormed
  since' := .refl h.wellFormed
  size := (Nat.add_sub_cancel' h.size_le).symm
  embeds := {
    strictMono := fun _ _ hlt => Nat.add_lt_add_right hlt _
    closed := fun p hp q hq => by
      obtain ⟨l, edge⟩ := (mem_successorsOf h.prelude.wellFormed).1 hq
      exact absurd edge (idle_of_size_le hp l q)
    state := fun p hp => by
      rw [state?_eq_none_iff.2 (le_add_gap hp), state?_eq_none_iff.2 hp]
      rfl }

variable (h : Alongside base ambient a b)
include h

theorem wellFormed : a.WellFormed := h.since.grows.wellFormed

theorem wellFormed' : b.WellFormed := h.since'.grows.wellFormed

private theorem silent (p : StateId) : a.terminal? p = none := by
  by_cases hp : p < base.size
  · have hnone := h.extends_base.prelude.silent p
    rw [terminal?] at hnone ⊢
    rwa [h.since.state p hp]
  · exact h.since.silent p (Nat.le_of_not_lt hp)

theorem deterministic : b.deterministic = a.deterministic := by
  rw [h.since.grows.deterministic, h.since'.grows.deterministic, h.extends_base.deterministic]

theorem config : b.config = a.config := by
  rw [h.since.grows.config, h.since'.grows.config, h.extends_base.config]

theorem definitions : b.definitions = a.definitions := by
  rw [h.since.definitions, h.since'.definitions, h.extends_base.definitions]

/-- The states of the prelude are the same in both, the initial one apart. -/
theorem embeds_prelude : Embeds id {p | p < base.size ∧ p ≠ base.initial} a b where
  strictMono := strictMono_id
  closed p hp q hq := by
    obtain ⟨hp, -⟩ := hp
    have hbase := h.extends_base.prelude
    rw [successorsOf, h.since.state p hp, ← successorsOf, mem_successorsOf hbase.wellFormed] at hq
    obtain ⟨l, edge⟩ := hq
    exact ⟨hbase.wellFormed.edge_lt edge, fun heq => hbase.rooted p l (heq ▸ edge)⟩
  state p hp := by
    obtain ⟨hp, hne⟩ := hp
    have hlt := Nat.lt_of_lt_of_le hp h.extends_base.size_le
    rw [id, h.since'.state p hlt, h.extends_base.state p hp hne, h.since.state p hp]
    simp [State.renamed_id]

theorem extended (hgrows : a.Grows a.extended) (hgrows' : b.Grows b.extended) :
    Alongside base ambient a.extended b.extended where
  extends_base := h.extends_base
  since := h.since.extended hgrows
  since' := h.since'.extended hgrows'
  size := by rw [size_extended, size_extended, h.size, Nat.add_right_comm]
  embeds := {
    strictMono := h.embeds.strictMono
    closed := fun p hp q hq => by
      rw [mem_successorsOf hgrows.wellFormed] at hq
      simp only [(Adds.extended a).edge, sup_bot_eq, ← mem_successorsOf h.wellFormed] at hq
      exact h.embeds.closed p hp q hq
    state := fun p hp => by
      rw [state?_extended, state?_extended, h.size, h.embeds.state p hp]
      simp only [Nat.add_right_cancel_iff]
      split <;> rfl }

/-- A new state may be changed in both in the same way. -/
theorem modifyState {f f' : State → State} (hsource : base.size ≤ source)
    (hgrows : a.Grows (a.modifyState source f))
    (hgrows' : b.Grows (b.modifyState (source + gap base ambient) f'))
    (hf : ∀ q, f' (q.renamed (· + gap base ambient)) = (f q).renamed (· + gap base ambient))
    (hterminal : ∀ q, (f q).terminal = q.terminal) (hterminal' : ∀ q, (f' q).terminal = q.terminal)
    (hsuccessors : ∀ q, ∀ id ∈ (f q).successors, id ∈ q.successors ∨ base.size ≤ id) :
    Alongside base ambient (a.modifyState source f) (b.modifyState (source + gap base ambient) f') where
  extends_base := h.extends_base
  since := h.since.modifyState hsource hgrows hterminal
  since' := h.since'.modifyState (le_add_gap hsource) hgrows' hterminal'
  size := by rw [size_modifyState, size_modifyState, h.size]
  embeds := {
    strictMono := h.embeds.strictMono
    closed := fun p hp q hq => by
      have hold := h.embeds.closed p hp q
      rw [successorsOf] at hq hold
      rw [state?_modifyState] at hq
      cases hstate : a.state? p with
      | none => simp [hstate] at hq
      | some state =>
        rw [hstate] at hq hold
        split at hq
        · exact (hsuccessors state q hq).elim hold id
        · exact hold hq
    state := fun p hp => by
      rw [state?_modifyState, state?_modifyState, h.embeds.state p hp]
      simp only [Nat.add_right_cancel_iff]
      split
      · cases a.state? p <;> simp [hf]
      · rfl }

section fillIn

variable {rename : StateId → StateId} {pairs : List (StateId × StateId)} {n : Nat}
  (hstate : ∀ pair ∈ pairs, b.state? (rename pair.1) = (a.state? pair.1).map (·.renamed rename))

include hstate in
/-- The states that are copied accept nothing, under their other names either. -/
private theorem silent_moved : ∀ pair ∈ Builder.moved rename (gap base ambient) pairs, b.terminal? pair.1 = none := by
  intro pair hpair
  obtain ⟨old, hmem, rfl⟩ := List.mem_map.1 hpair
  have hnone := h.silent old.1
  rw [terminal?] at hnone ⊢
  rw [hstate old hmem]
  cases hq : a.state? old.1 <;> simp_all [State.renamed_eq]

variable (hnaming : Builder.Naming pairs n a.size) (hle : base.size ≤ n)
include hnaming

include hle in
/-- New states still lead to new states only. -/
private theorem closed_fillIn {p q : StateId} (hp : base.size ≤ p) (hq : q ∈ (Builder.fillIn pairs a).successorsOf p) :
    base.size ≤ q := by
  obtain ⟨hother, hfilled⟩ := Builder.state?_fillIn hnaming
  rw [successorsOf] at hq
  by_cases hmem : p ∈ pairs.map (·.2)
  · obtain ⟨⟨old, new⟩, hpair, rfl⟩ := List.mem_map.1 hmem
    rw [hfilled old new hpair] at hq
    cases hold : a.state? old with
    | none => simp [hold] at hq
    | some state =>
      rw [hold] at hq
      obtain ⟨_, -, hname⟩ := State.exists_of_mem_restricted hq
      exact hle.trans (hnaming.fresh _ ((Builder.nameOf_eq_some_iff hnaming.nodup_old).1 hname)).2
  · rw [hother p hmem] at hq
    exact h.embeds.closed p hp q hq

variable (hinj : Function.Injective rename) (hlt : ∀ pair ∈ pairs, rename pair.1 < n + gap base ambient)
include hinj hlt

/-- The copies have names in the second automaton, too. -/
private theorem naming_moved :
    Builder.Naming (Builder.moved rename (gap base ambient) pairs) (n + gap base ambient) b.size :=
  h.size ▸ hnaming.moved hinj hlt

include hstate in
/-- A new state is the same in both, whether it is a copy or not. -/
private theorem state?_fillIn_moved {p : StateId} (hp : base.size ≤ p) :
    (Builder.fillIn (Builder.moved rename (gap base ambient) pairs) b).state? (p + gap base ambient) =
      ((Builder.fillIn pairs a).state? p).map (·.renamed (· + gap base ambient)) := by
  obtain ⟨hother, hfilled⟩ := Builder.state?_fillIn hnaming
  obtain ⟨hother', hfilled'⟩ := Builder.state?_fillIn (h.naming_moved hnaming hinj hlt)
  by_cases hmem : p ∈ pairs.map (·.2)
  · obtain ⟨⟨old, new⟩, hpair, rfl⟩ := List.mem_map.1 hmem
    rw [hfilled old new hpair, hfilled' _ _ (Builder.mem_moved hpair), hstate _ hpair, Option.map_map, Option.map_map]
    have hnames := Builder.nameOf_moved hnaming.nodup_old hinj (gap base ambient)
    exact congrArg (Option.map · (a.state? old)) (funext fun q => State.restricted_renamed hnames q)
  · have hmem' : p + gap base ambient ∉ (Builder.moved rename (gap base ambient) pairs).map (·.2) := by
      rw [Builder.map_snd_moved, List.mem_map_of_injective h.embeds.strictMono.injective]
      exact hmem
    rw [hother p hmem, hother' _ hmem', h.embeds.state p hp]

include hstate hle in
/-- Copies are filled in in both in the same way. -/
theorem fillIn : Alongside base ambient (Builder.fillIn pairs a)
    (Builder.fillIn (Builder.moved rename (gap base ambient) pairs) b) where
  extends_base := h.extends_base
  since := h.since.fillIn hnaming hle fun pair _ => h.silent pair.1
  since' := h.since'.fillIn (h.naming_moved hnaming hinj hlt) (le_add_gap hle) (h.silent_moved hstate)
  size := by rw [(Builder.fillIn_keeps _ b).1, (Builder.fillIn_keeps pairs a).1, h.size]
  embeds := {
    strictMono := h.embeds.strictMono
    closed := fun _ hp _ hq => h.closed_fillIn hnaming hle hp hq
    state := fun _ hp => h.state?_fillIn_moved hstate hnaming hinj hlt hp }

end fillIn

/-- What is built in the ambient automaton leaves its states alone. -/
theorem frame : Frame ambient.size ambient b where
  keep p l q edge := by
    by_cases hp : p < ambient.size
    · exact (Builder.edge_congr (h.since'.state p hp)).2 edge
    · exact absurd edge (idle_of_size_le (Nat.le_of_not_lt hp) l q)
  added p l q edge := by
    by_cases hp : p < ambient.size
    · exact .inl ((Builder.edge_congr (h.since'.state p hp)).1 edge)
    · have hle := h.extends_base.size_le
      obtain ⟨m, rfl⟩ := Nat.exists_eq_add_of_le (Nat.le_of_not_lt hp)
      have hp : ambient.size + m = base.size + m + gap base ambient := by
        unfold gap
        omega
      rw [hp] at edge ⊢
      have hnew : base.size ≤ base.size + m := Nat.le_add_right ..
      obtain ⟨q, hedge, rfl⟩ := (h.embeds.edge_iff hnew).1 edge
      exact .inr ⟨le_add_gap hnew, le_add_gap (h.embeds.edge_mem h.wellFormed hnew hedge)⟩
  terminal := by
    funext p
    by_cases hp : p < ambient.size
    · rw [terminal?, terminal?, h.since'.state p hp]
    · rw [h.since'.silent p (Nat.le_of_not_lt hp), terminal?_eq_none (Nat.le_of_not_lt hp)]
  initial := h.since'.initial
  terminals := h.since'.terminals
  definitions := h.since'.definitions

end Alongside

end Automaton

end TableLexer
