import Mathlib.Data.Finset.Card
import TableLexer.Proofs.Builder.Room

/-! What fragments cost: the states that they take, and how many more states symbols come to lead to. The
latter bound the number of sets of states that can be told apart when the automaton is run. -/
namespace TableLexer

namespace Automaton

variable {a b : Automaton} {q : StateId}

open Classical in
/-- The states to which symbols lead. -/
noncomputable def landings (a : Automaton) : Finset StateId :=
  {q ∈ Finset.range a.size | ∃ p s, a.Edge p (some s) q}

theorem mem_landings (ha : a.WellFormed) : q ∈ a.landings ↔ ∃ p s, a.Edge p (some s) q := by
  simp only [landings, Finset.mem_filter, Finset.mem_range, and_iff_right_iff_imp]
  intro hedge
  obtain ⟨p, s, edge⟩ := hedge
  exact ha.edge_lt edge

theorem landings_start (config : BuildConfig) : ({ config } : Automaton).landings = ∅ := by
  rw [Finset.eq_empty_iff_forall_notMem]
  intro q hq
  obtain ⟨p, s, edge⟩ := (mem_landings (wellFormed_start config)).1 hq
  cases p with
  | zero => simp [edge_some, transition?, state?, State.transition] at edge
  | succ p => exact idle_of_size_le (show 1 ≤ p + 1 by omega) _ _ edge

/-- New edges lead to new landings only. -/
theorem card_landings_le (ha : a.WellFormed) (hb : b.WellFormed) (extra : Finset StateId) {k : Nat}
    (h : ∀ p s q, b.Edge p (some s) q → a.Edge p (some s) q ∨ q ∈ extra) (hextra : extra.card ≤ k) :
    b.landings.card ≤ a.landings.card + k := by
  have hsubset : b.landings ⊆ a.landings ∪ extra := by
    intro q hq
    obtain ⟨p, s, edge⟩ := (mem_landings hb).1 hq
    rcases h p s q edge with edge | hq
    · exact Finset.mem_union_left _ ((mem_landings ha).2 ⟨p, s, edge⟩)
    · exact Finset.mem_union_right _ hq
  calc b.landings.card
    _ ≤ (a.landings ∪ extra).card := Finset.card_le_card hsubset
    _ ≤ a.landings.card + extra.card := Finset.card_union_le ..
    _ ≤ a.landings.card + k := Nat.add_le_add_left hextra _

end Automaton

namespace Builder

open Automaton

variable {a b : Automaton} {f g : Fragment} {p : Builder Fragment} {next : Fragment → Builder Fragment}
  {k k' m n n' r : Nat}

/-- Edges have been added, at the cost of at most `n` states and `k` landings. -/
structure Made (a b : Automaton) (n k : Nat) : Prop where
  grows : a.Grows b
  adds : ∃ new, a.Adds b new
  size_le : b.size ≤ a.size + n
  landings_le : b.landings.card ≤ a.landings.card + k

theorem Made.terminal (h : Made a b n k) : b.terminal? = a.terminal? := by
  obtain ⟨new, hnew⟩ := h.adds
  exact hnew.terminal

theorem Made.definitions (h : Made a b n k) : b.definitions = a.definitions := by
  obtain ⟨new, hnew⟩ := h.adds
  exact hnew.definitions

/-- If the automaton can be extended and has room for `n` more states, the step makes a fragment of it, at the
cost of at most these states and `k` landings. -/
def Makes (p : Builder Fragment) (a : Automaton) (n k : Nat) : Prop :=
  a.deterministic = false → a.size + n ≤ a.config.stateLimit →
    ∃ f b, p.apply a = (.ok f, b) ∧ b.owns f ∧ Made a b n k

namespace Makes

theorem intro (haffords : Affords p a n) (hleads : Leads p a fun f b => b.owns f ∧
    (∃ new, a.Adds b new) ∧ b.landings.card ≤ a.landings.card + k) : Makes p a n k := by
  intro hmutable hroom
  obtain ⟨f, b, hf, hsize, -⟩ := haffords hmutable hroom
  obtain ⟨howns, hadds, hlandings⟩ := hleads.good f b hf
  exact ⟨f, b, hf, howns, hleads.grows_of_eq hf, hadds, hsize, hlandings⟩

theorem affords (h : Makes p a n k) : Affords p a n := by
  intro hmutable hroom
  obtain ⟨f, b, hf, -, hmade⟩ := h hmutable hroom
  exact ⟨f, b, hf, hmade.size_le, hmade.grows.deterministic.trans hmutable, hmade.grows.config⟩

theorem leads (h : Makes p a n k) (hmutable : a.deterministic = false)
    (hroom : a.size + n ≤ a.config.stateLimit) : Leads p a fun f b => b.owns f ∧ Made a b n k := by
  obtain ⟨f, b, hf, howns, hmade⟩ := h hmutable hroom
  refine ⟨hf ▸ hmade.grows, fun g c hg => ?_⟩
  obtain ⟨heq, rfl⟩ := Prod.mk.inj (hf.symm.trans hg)
  obtain rfl := Except.ok.inj heq
  exact ⟨howns, hmade⟩

theorem bind (hp : Makes p a n k) (hnext : ∀ f b, b.owns f → Made a b n k → Makes (next f) b m r)
    (hn : n + m ≤ n') (hk : k + r ≤ k') : Makes (p >>= next) a n' k' := by
  intro hmutable hroom
  obtain ⟨f, b, hf, howns, hb⟩ := hp hmutable (by omega)
  have hsize := hb.size_le
  obtain ⟨g, c, hg, howns', hc⟩ := hnext f b howns hb (hb.grows.deterministic.trans hmutable)
    (by rw [hb.grows.config]; omega)
  obtain ⟨new, hnew⟩ := hb.adds
  obtain ⟨new', hnew'⟩ := hc.adds
  have hsize' := hc.size_le
  have hlandings := hb.landings_le
  have hlandings' := hc.landings_le
  exact ⟨g, c, by rw [apply_bind, hf]; exact hg, howns', hb.grows.trans hc.grows, ⟨_, hnew.trans hnew'⟩,
    by omega, by omega⟩

section wellFormed

variable (ha : a.WellFormed)
include ha

theorem literal (s : Symbol) : Makes (literal s) a 2 1 := by
  refine intro (Takes.literal ha s).affords ((Leads.literal ha s).mono ?_)
  intro f b hb hadded
  obtain ⟨-, howns, hadds⟩ := hadded
  refine ⟨howns, ⟨_, hadds⟩, card_landings_le ha hb.wellFormed {f.exit} (fun p t q edge => ?_) (by simp)⟩
  exact (hadds.edge_iff.1 edge).imp_right fun hnew => Finset.mem_singleton.2 hnew.2.2

theorem symbols (chosen : List Symbol) : Makes (symbols chosen) a 2 1 := by
  refine intro (Takes.symbols ha chosen).affords ((Leads.symbols ha chosen).mono ?_)
  intro f b hb hadded
  obtain ⟨-, howns, hadds⟩ := hadded
  refine ⟨howns, ⟨_, hadds⟩, card_landings_le ha hb.wellFormed {f.exit} (fun p t q edge => ?_) (by simp)⟩
  refine (hadds.edge_iff.1 edge).imp_right fun hnew => ?_
  obtain ⟨s, -, harc⟩ := hnew
  exact Finset.mem_singleton.2 harc.2.2

theorem append (hf : a.owns f) (hg : a.owns g) : Makes (append f g) a 0 0 := by
  refine intro (Takes.append hf hg).affords ((Leads.append ha f g).mono ?_)
  intro h b hb hadded
  obtain ⟨rfl, -, -, hadds⟩ := hadded
  refine ⟨?_, ⟨_, hadds⟩, card_landings_le ha hb.wellFormed ∅ (fun p t q edge => ?_) (by simp)⟩
  · exact owns_iff.2 ⟨(owns_iff.1 (hb.owns hf)).1, (owns_iff.1 (hb.owns hg)).2⟩
  · exact (hadds.edge_iff.1 edge).imp_right fun hnew => absurd hnew.2.2.1 (by simp)

theorem alternate {parts : List Fragment} (hne : parts ≠ []) (hparts : ∀ part ∈ parts, a.owns part) :
    Makes (alternate parts) a 2 0 := by
  refine intro (Takes.alternate ha hne hparts).affords ((Leads.alternate ha parts).mono ?_)
  intro f b hb hadded
  obtain ⟨-, howns, -, hadds⟩ := hadded
  refine ⟨howns, ⟨_, hadds⟩, card_landings_le ha hb.wellFormed ∅ (fun p t q edge => ?_) (by simp)⟩
  refine (hadds.edge_iff.1 edge).imp_right fun hnew => ?_
  obtain ⟨part, -, hbridge | hbridge⟩ := hnew
  · exact absurd hbridge.2.2.1 (by simp)
  · exact absurd hbridge.2.2.1 (by simp)

/-- Every landing of a copy is the copy of a landing. -/
theorem instantiate {name : String} (hf : a.definitions.lookup name = some f)
    (hsilent : ∀ id, a.terminal? id = none) : Makes (instantiate name) a a.size a.landings.card := by
  have howns := ha.owned name f hf
  refine intro ((Takes.instantiate ha hf).affords.mono (length_members_le ha howns)) ((Leads.instantiate ha name).mono ?_)
  intro g b hb hcopy
  obtain ⟨f', hf', hcopied⟩ := hcopy
  obtain rfl := Option.some.inj (hf.symm.trans hf')
  have hadds := hcopied.adds fun id _ => hsilent id
  let rename (q : StateId) : StateId := (nameOf ((a.members f).zipIdx a.size) q).getD q
  refine ⟨hcopied.owns_copy, ⟨_, hadds⟩, card_landings_le ha hb.wellFormed (a.landings.image rename)
    (fun p t q edge => ?_) Finset.card_image_le⟩
  refine (hadds.edge_iff.1 edge).imp_right fun hnew => ?_
  obtain ⟨p', q', -, hq, edge⟩ := hnew
  refine Finset.mem_image.2 ⟨q', (mem_landings ha).2 ⟨p', t, edge⟩, ?_⟩
  have hnodup : (((a.members f).zipIdx a.size).map (·.1)).Nodup := by
    rw [List.zipIdx_map_fst]
    exact members_nodup a f
  exact congrArg (·.getD q') ((nameOf_eq_some_iff hnodup).2 hq)

end wellFormed

end Makes

end Builder

end TableLexer
