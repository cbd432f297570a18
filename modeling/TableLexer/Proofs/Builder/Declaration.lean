import TableLexer.Automaton.Declaration
import TableLexer.Proofs.Builder.Copy

/-! What declaring a terminal and defining a name do to an automaton. -/
namespace TableLexer

namespace Automaton

variable {a b c : Automaton}

/-- The automaton with a name registered. -/
def registered (a : Automaton) (name : String) : Automaton :=
  { a with terminals := (a.terminals.encode name).2 }

private theorem Grows.registered (h : a.WellFormed) (name : String) : a.Grows (a.registered name) where
  wellFormed := {
    initial_lt := h.initial_lt
    sound := fun id q hq => (h.sound id q hq).mono (Nat.le_refl _) (a.terminals.size_le_encode name)
    owned := h.owned
    eof_first := (a.terminals.name?_encode name).2 eof eofName h.eof_first
    size_le := h.size_le }
  size_le := Nat.le_refl _
  deterministic := rfl
  config := rfl

/-- The automaton with one more state, which accepts the terminal of a name. -/
def accepting (a : Automaton) (name : String) : Automaton :=
  (a.extended.registered name).modifyState a.size (·.markFinal (some (a.terminals.encode name).1))

/-- The automaton with a name defined. -/
def defining (a : Automaton) (name : String) (f : Fragment) : Automaton :=
  { a with definitions := (name, f) :: a.definitions }

theorem Grows.defining (h : a.WellFormed) (name : String) {f : Fragment} (hf : a.owns f) :
    a.Grows (a.defining name f) where
  wellFormed := {
    initial_lt := h.initial_lt
    sound := h.sound
    owned := fun other g hg => by
      rw [Automaton.defining, List.lookup_cons] at hg
      split at hg
      · obtain rfl := Option.some.inj hg
        exact hf
      · exact h.owned other g hg
    eof_first := h.eof_first
    size_le := h.size_le }
  size_le := Nat.le_refl _
  deterministic := rfl
  config := rfl

private theorem edge_markFinal (a : Automaton) (id : StateId) (terminal : Option TerminalId) :
    (a.modifyState id (·.markFinal terminal)).Edge = a.Edge := by
  funext p l q
  refine propext ?_
  cases l with
  | none =>
    rw [edge_none_iff, edge_none_iff, state?_modifyState]
    cases a.state? p <;> split <;> simp [State.markFinal]
  | some s =>
    rw [edge_some_iff, edge_some_iff, state?_modifyState]
    cases a.state? p <;> split <;> simp [State.markFinal, State.transition]

private theorem terminal?_markFinal {id : StateId} (hid : id < a.size) (terminal : Option TerminalId)
    (p : StateId) : (a.modifyState id (·.markFinal terminal)).terminal? p =
      if p = id then terminal else a.terminal? p := by
  obtain ⟨q, hq⟩ := exists_state? hid
  rw [terminal?, terminal?, state?_modifyState]
  by_cases hp : p = id
  · rw [if_pos hp, if_pos hp.symm, hp, hq]
    rfl
  · rw [if_neg hp, if_neg (Ne.symm hp)]

/-- A terminal accepts what a fragment accepts: a new state that accepts it follows the exit, and the
entry follows the initial state. -/
structure Declared (a b : Automaton) (name : String) (f : Fragment) (id : TerminalId) : Prop where
  ne_eof : name ≠ eofName
  owns : a.owns f
  id_eq : id = (a.terminals.encode name).1
  terminals : b.terminals = (a.terminals.encode name).2
  edge : b.Edge = a.Edge ⊔ bridge f.exit a.size ⊔ bridge a.initial f.entry
  terminal : ∀ p, b.terminal? p = if p = a.size then some id else a.terminal? p
  initial : b.initial = a.initial
  definitions : b.definitions = a.definitions
  size_lt : a.size < b.size

private theorem size_lt_accepting (a : Automaton) (name : String) : a.size < (a.extended.registered name).size := by
  change a.size < a.extended.size
  rw [size_extended]
  exact Nat.lt_succ_self _

private theorem edge_accepting (a : Automaton) (name : String) : (a.accepting name).Edge = a.Edge := by
  rw [accepting, edge_markFinal]
  exact (Adds.extended a).edge.trans (sup_bot_eq _)

private theorem terminal?_accepting (a : Automaton) (name : String) (p : StateId) :
    (a.accepting name).terminal? p =
      if p = a.size then some (a.terminals.encode name).1 else a.terminal? p := by
  rw [accepting, terminal?_markFinal (size_lt_accepting a name)]
  exact if_congr Iff.rfl rfl (congrFun (Adds.extended a).terminal p)

/-- The accepting state is joined to the exit of a fragment, and the entry to the initial state. -/
private theorem Declared.of_adds {name : String} {f : Fragment} (hname : name ≠ eofName) (howns : a.owns f)
    (hout : (a.accepting name).Adds b (bridge f.exit a.size)) (hin : b.Adds c (bridge b.initial f.entry))
    (hsize : a.size < c.size) : Declared a c name f (a.terminals.encode name).1 where
  ne_eof := hname
  owns := howns
  id_eq := rfl
  terminals := hin.terminals.trans hout.terminals
  edge := by
    rw [hin.edge, hout.edge, edge_accepting, hout.initial]
    rfl
  terminal p := by rw [hin.terminal, hout.terminal, terminal?_accepting]
  initial := hin.initial.trans hout.initial
  definitions := hin.definitions.trans hout.definitions
  size_lt := hsize

end Automaton

namespace Builder

open Automaton

namespace Leads

variable {a : Automaton} {name : String} {build : Builder Fragment} {good : Fragment → Automaton → Prop}

theorem addDefinition (ha : a.WellFormed) (hbuild : Leads build a good) :
    Leads (addDefinition name build) a fun _ c =>
      ∃ f b, a.Grows b ∧ good f b ∧ b.owns f ∧ c = b.defining name f := by
  refine (ensureMutable ha).bind fun _ b _ => ?_
  intro heq
  obtain rfl := heq
  refine hbuild.bind fun f b hb hgood => ?_
  refine (check hb.wellFormed f).bind fun _ c _ => ?_
  intro hadded
  obtain ⟨rfl, howns⟩ := hadded
  refine (modify (.defining hb.wellFormed name howns)).mono ?_
  intro _ d _ heq
  obtain rfl := heq
  exact ⟨f, c, hb, hgood, howns, rfl⟩

theorem addTerminal (ha : a.WellFormed) (hbuild : Leads build a good) :
    Leads (addTerminal name build) a fun id c => ∃ f b, a.Grows b ∧ good f b ∧ Declared b c name f id := by
  refine (ensureMutable ha).bind fun _ b _ => ?_
  intro heq
  obtain rfl := heq
  split
  · exact throw ha
  next hname =>
  refine hbuild.bind fun f b hb hgood => ?_
  refine (check hb.wellFormed f).bind fun _ c _ => ?_
  intro hadded
  obtain ⟨rfl, howns⟩ := hadded
  refine (newState hb.wellFormed).bind fun accept d hd => ?_
  intro hresult
  obtain ⟨rfl, rfl⟩ := hresult
  refine (modifyGet (Grows.registered hd.wellFormed name)).bind fun id e he => ?_
  intro hencode
  obtain ⟨rfl, rfl⟩ : (c.extended.terminals.encode name).1 = id ∧ c.extended.registered name = e :=
    Prod.mk.inj hencode
  have hid := Registry.encode_ne_eof hd.wellFormed.eof_first hname
  have hlt := c.extended.terminals.encode_lt_size name
  refine (modify (.modifyState he.wellFormed c.size fun q hq => hq.markFinal hid hlt)).bind
    fun _ e' he' => ?_
  intro hmark
  obtain rfl : e' = c.accepting name := hmark
  have haccept : c.size < (c.accepting name).size :=
    Nat.lt_of_lt_of_le (size_lt_accepting c name) he'.size_le
  obtain ⟨hentry, hexit⟩ := owns_iff.1 (((hd.trans he).trans he').owns howns)
  refine (addEpsilon he'.wellFormed hexit haccept).bind fun _ g hg hout => ?_
  refine (get hg.wellFormed).bind fun _ g' _ => ?_
  intro hresult
  obtain ⟨rfl, rfl⟩ := hresult
  refine (addEpsilon hg.wellFormed hg.wellFormed.initial_lt
    (Nat.lt_of_lt_of_le hentry hg.size_le)).bind fun _ k hk hin => ?_
  exact pure hk.wellFormed ⟨f, c, hb, hgood,
    .of_adds hname howns hout hin (Nat.lt_of_lt_of_le haccept (hg.trans hk).size_le)⟩

end Leads

section success

variable {a b c : Automaton} {source target : StateId} {f : Fragment} {name : String} {id : TerminalId}
  {build : Builder Fragment}

theorem ensureMutable_eq_ok_iff {x : Unit} :
    ensureMutable.apply a = (.ok x, b) ↔ a.deterministic = false ∧ a = b := by
  rw [ensureMutable, apply_bind, apply_get]
  dsimp only
  split
  · next h => simp [h]
  · next h => simp [h]

theorem check_eq_ok_iff {x : Unit} : (check f).apply a = (.ok x, b) ↔ a.owns f ∧ a = b := by
  rw [check, apply_bind, apply_get]
  dsimp only
  split
  · next h => simp [h]
  · next h => simp [h]

theorem newState_eq_ok_iff {id : StateId} : newState.apply a = (.ok id, b) ↔
    a.size < a.config.stateLimit ∧ a.size = id ∧ a.extended = b := by
  rw [newState, apply_bind, apply_get]
  dsimp only
  split
  · next h => simp [Nat.not_lt.2 h]
  · next h => simp [Nat.lt_of_not_le h, extended]

theorem addEpsilon_eq_ok_iff {x : Unit} : (addEpsilon source target).apply a = (.ok x, b) ↔
    a.deterministic = false ∧ (if source = target then a else a.modifyState source (·.addEpsilon target)) = b := by
  rw [addEpsilon]
  simp only [apply_bind_eq_ok_iff, ensureMutable_eq_ok_iff]
  constructor
  · intro h
    obtain ⟨_, _, ⟨hmutable, rfl⟩, h⟩ := h
    refine ⟨hmutable, ?_⟩
    split at h <;> simp_all
  · intro h
    obtain ⟨hmutable, rfl⟩ := h
    refine ⟨x, a, ⟨hmutable, rfl⟩, ?_⟩
    split <;> simp_all

/-- What makes a declaration succeed, and what it does then. -/
theorem addTerminal_eq_ok_iff : (addTerminal name build).apply a = (.ok id, c) ↔
    a.deterministic = false ∧ name ≠ eofName ∧ ∃ f b d, build.apply a = (.ok f, b) ∧ b.owns f ∧
      b.size < b.config.stateLimit ∧ (b.terminals.encode name).1 = id ∧
      (addEpsilon f.exit b.size).apply (b.accepting name) = (.ok (), d) ∧
      (addEpsilon d.initial f.entry).apply d = (.ok (), c) := by
  constructor
  · intro h
    obtain ⟨_, _, hfirst, h⟩ := apply_bind_eq_ok_iff.1 h
    obtain ⟨hmutable, rfl⟩ := ensureMutable_eq_ok_iff.1 hfirst
    split at h
    · simp at h
    next hname =>
    obtain ⟨f, b, hbuild, h⟩ := apply_bind_eq_ok_iff.1 h
    obtain ⟨_, _, hcheck, h⟩ := apply_bind_eq_ok_iff.1 h
    obtain ⟨howns, rfl⟩ := check_eq_ok_iff.1 hcheck
    obtain ⟨accept, _, hnew, h⟩ := apply_bind_eq_ok_iff.1 h
    obtain ⟨hlimit, rfl, rfl⟩ := newState_eq_ok_iff.1 hnew
    obtain ⟨_, _, hid, h⟩ := apply_bind_eq_ok_iff.1 h
    obtain rfl : b.extended.registered name = _ := (Prod.mk.inj hid).2
    obtain rfl : (b.terminals.encode name).1 = _ := Except.ok.inj (Prod.mk.inj hid).1
    obtain ⟨_, _, hmark, h⟩ := apply_bind_eq_ok_iff.1 h
    obtain rfl : b.accepting name = _ := (Prod.mk.inj hmark).2
    obtain ⟨_, d, hout, h⟩ := apply_bind_eq_ok_iff.1 h
    obtain ⟨_, _, hget, h⟩ := apply_bind_eq_ok_iff.1 h
    obtain ⟨rfl, rfl⟩ : d = _ ∧ d = _ := by simpa using hget
    obtain ⟨_, _, hin, h⟩ := apply_bind_eq_ok_iff.1 h
    obtain ⟨rfl, rfl⟩ : (b.terminals.encode name).1 = id ∧ _ = c := by simpa using h
    exact ⟨hmutable, hname, f, b, d, hbuild, howns, hlimit, rfl, hout, hin⟩
  · intro h
    obtain ⟨hmutable, hname, f, b, d, hbuild, howns, hlimit, rfl, hout, hin⟩ := h
    rw [addTerminal, if_neg hname]
    refine apply_bind_eq_ok_iff.2 ⟨⟨⟩, a, ensureMutable_eq_ok_iff.2 ⟨hmutable, rfl⟩, ?_⟩
    refine apply_bind_eq_ok_iff.2 ⟨f, b, hbuild, ?_⟩
    refine apply_bind_eq_ok_iff.2 ⟨⟨⟩, b, check_eq_ok_iff.2 ⟨howns, rfl⟩, ?_⟩
    refine apply_bind_eq_ok_iff.2 ⟨b.size, b.extended, newState_eq_ok_iff.2 ⟨hlimit, rfl, rfl⟩, ?_⟩
    refine apply_bind_eq_ok_iff.2 ⟨(b.terminals.encode name).1, b.extended.registered name, rfl, ?_⟩
    refine apply_bind_eq_ok_iff.2 ⟨⟨⟩, b.accepting name, rfl, ?_⟩
    refine apply_bind_eq_ok_iff.2 ⟨⟨⟩, d, hout, ?_⟩
    refine apply_bind_eq_ok_iff.2 ⟨d, d, rfl, ?_⟩
    exact apply_bind_eq_ok_iff.2 ⟨⟨⟩, c, hin, rfl⟩

/-- A declaration succeeds exactly if the name is free to be used, the fragment is built and has states of
the automaton, and there is room for the state that accepts. -/
theorem exists_addTerminal_iff (hkeep : ∀ f b, build.apply a = (.ok f, b) → b.deterministic = a.deterministic) :
    (∃ c, (addTerminal name build).apply a = (.ok id, c)) ↔
      a.deterministic = false ∧ name ≠ eofName ∧ ∃ f b, build.apply a = (.ok f, b) ∧ b.owns f ∧
        b.size < b.config.stateLimit ∧ (b.terminals.encode name).1 = id := by
  simp only [addTerminal_eq_ok_iff]
  constructor
  · intro h
    obtain ⟨c, hmutable, hname, f, b, d, hbuild, howns, hlimit, hid, -⟩ := h
    exact ⟨hmutable, hname, f, b, hbuild, howns, hlimit, hid⟩
  · intro h
    obtain ⟨hmutable, hname, f, b, hbuild, howns, hlimit, hid⟩ := h
    have hb : b.deterministic = false := (hkeep f b hbuild).trans hmutable
    have hmarked : (b.accepting name).deterministic = false := hb
    refine ⟨_, hmutable, hname, f, b, _, hbuild, howns, hlimit, hid, addEpsilon_eq_ok_iff.2 ⟨hmarked, rfl⟩,
      addEpsilon_eq_ok_iff.2 ⟨?_, rfl⟩⟩
    split
    · exact hb
    · exact hb

/-- An epsilon edge changes nothing but its source. -/
private theorem state?_addEpsilon {x : Unit} (h : (addEpsilon source target).apply a = (.ok x, b)) :
    b.initial = a.initial ∧ ∀ p, p ≠ source → b.state? p = a.state? p := by
  obtain ⟨-, rfl⟩ := addEpsilon_eq_ok_iff.1 h
  split
  · exact ⟨rfl, fun _ _ => rfl⟩
  · refine ⟨rfl, fun p hp => ?_⟩
    rw [state?_modifyState, if_neg hp.symm]

/-- A declaration changes only the exit and the initial state, of the states there are. -/
theorem state?_addTerminal (hbuild : build.apply a = (.ok f, b))
    (hdeclare : (addTerminal name build).apply a = (.ok id, c)) {p : StateId} (hp : p < b.size)
    (hexit : p ≠ f.exit) (hinitial : p ≠ b.initial) : c.state? p = b.state? p := by
  obtain ⟨-, -, _, _, d, hresult, -, -, -, hout, hin⟩ := addTerminal_eq_ok_iff.1 hdeclare
  obtain ⟨rfl, rfl⟩ := apply_unique hbuild hresult
  obtain ⟨hinitial', hout⟩ := state?_addEpsilon hout
  rw [(state?_addEpsilon hin).2 p (hinitial' ▸ hinitial), hout p hexit, accepting, state?_modifyState,
    if_neg (Nat.ne_of_gt hp)]
  exact (state?_extended _ p).trans (if_neg (Nat.ne_of_lt hp))

end success

end Builder

end TableLexer
