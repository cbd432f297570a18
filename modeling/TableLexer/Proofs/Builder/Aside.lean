import TableLexer.Pattern
import TableLexer.Proofs.Automaton.Embedding

/-! Steps that work aside from the first states of an automaton: whether they succeed or fail, they change nothing
but later states. Building a pattern is one of them. -/
namespace TableLexer

/-- The fragment has none of the first `n` states as its ends. -/
def Fragment.From (n : Nat) (f : Fragment) : Prop := n ≤ f.entry ∧ n ≤ f.exit

theorem Fragment.from_zero (f : Fragment) : f.From 0 := ⟨Nat.zero_le _, Nat.zero_le _⟩

namespace Automaton

variable {a b c : Automaton} {n source : Nat}

/-- The first `n` states are left as they were, and so is all that is no state. -/
structure Spares (n : Nat) (a b : Automaton) : Prop where
  size_le : a.size ≤ b.size
  state : ∀ p < n, b.state? p = a.state? p
  rest : b = { a with states := b.states }

namespace Spares

theorem refl (n : Nat) (a : Automaton) : Spares n a a := ⟨Nat.le_refl _, fun _ _ => rfl, rfl⟩

theorem trans (h : Spares n a b) (h' : Spares n b c) : Spares n a c where
  size_le := Nat.le_trans h.size_le h'.size_le
  state p hp := (h'.state p hp).trans (h.state p hp)
  rest := by rw [h'.rest, h.rest]

private theorem extended (h : n ≤ a.size) : Spares n a a.extended where
  size_le := by rw [size_extended]; exact Nat.le_succ _
  state p hp := by rw [state?_extended, if_neg (Nat.ne_of_lt (Nat.lt_of_lt_of_le hp h))]
  rest := rfl

theorem modifyState (a : Automaton) (h : n ≤ source) (f : State → State) : Spares n a (a.modifyState source f) where
  size_le := by rw [size_modifyState]
  state p hp := by rw [state?_modifyState, if_neg (Nat.ne_of_gt (Nat.lt_of_lt_of_le hp h))]
  rest := rfl

theorem fillIn {pairs : List (StateId × StateId)} (h : ∀ pair ∈ pairs, n ≤ pair.2) :
    Spares n a (Builder.fillIn pairs a) := by
  refine List.foldlRecOn pairs _ (motive := Spares n a) (.refl n a) ?_
  intro b hb pair hpair
  dsimp only
  split
  · exact hb.trans (.modifyState b (h pair hpair) _)
  · exact hb

variable (h : Spares n a b)
include h

theorem initial : b.initial = a.initial := by rw [h.rest]

theorem terminals : b.terminals = a.terminals := by rw [h.rest]

theorem definitions : b.definitions = a.definitions := by rw [h.rest]

theorem deterministic : b.deterministic = a.deterministic := by rw [h.rest]

theorem config : b.config = a.config := by rw [h.rest]

end Spares

/-- An automaton is a part of whatever spares all of its states. -/
theorem Spares.embeds (h : Spares a.size a b) (ha : a.WellFormed) : Embeds id {p | p < a.size} a b where
  strictMono := strictMono_id
  closed _ _ _ hq := successorsOf_lt ha hq
  state p hp := by
    rw [id, h.state p hp]
    simp [State.renamed_id]

end Automaton

namespace Builder

open Automaton

variable {α β : Type} {a b : Automaton} {p : Builder α} {next : α → Builder β} {f g : Fragment}
  {good : α → Prop} {good' : β → Prop} {n source target : Nat}

/-- Whatever becomes of the step, it spares the first `n` states of an automaton, and if it succeeds its result is
good. -/
structure Aside (n : Nat) (p : Builder α) (good : α → Prop) : Prop where
  spares : ∀ a : Automaton, n ≤ a.size → Spares n a (p.apply a).2
  good : ∀ (a : Automaton) x b, n ≤ a.size → p.apply a = (.ok x, b) → good x

namespace Aside

theorem pure {x : α} (h : good x) : Aside n (pure x) good where
  spares a _ := .refl n a
  good a y b _ hy := by
    obtain ⟨rfl, -⟩ : x = y ∧ a = b := by simpa using hy
    exact h

theorem throw {e : ConstructionError} : Aside n (throw e) good where
  spares a _ := .refl n a
  good a y b _ hy := by simp at hy

theorem get : Aside n get fun _ => True := ⟨fun a _ => .refl n a, fun _ _ _ _ _ => trivial⟩

theorem update {change : Automaton → Automaton} (h : ∀ a : Automaton, n ≤ a.size → Spares n a (change a)) :
    Aside n (modify change) fun _ => True := ⟨h, fun _ _ _ _ _ => trivial⟩

theorem bind (hp : Aside n p good) (hnext : ∀ x, good x → Aside n (next x) good') : Aside n (p >>= next) good' where
  spares a ha := by
    have hspares := hp.spares a ha
    rw [apply_bind]
    rcases hx : p.apply a with ⟨e | x, b⟩
    · rwa [hx] at hspares
    · rw [hx] at hspares
      exact hspares.trans ((hnext x (hp.good a x b ha hx)).spares b (Nat.le_trans ha hspares.size_le))
  good a y c ha hy := by
    obtain ⟨x, b, hx, hy⟩ := apply_bind_eq_ok_iff.1 hy
    have hspares := hp.spares a ha
    rw [hx] at hspares
    exact (hnext x (hp.good a x b ha hx)).good b y c (Nat.le_trans ha hspares.size_le) hy

theorem throw_bind {e : ConstructionError} : Aside n (MonadExcept.throw e >>= next) good' :=
  (show Aside n (MonadExcept.throw e) fun _ => False from throw).bind fun _ => False.elim

theorem ensureMutable : Aside n ensureMutable fun _ => True := by
  refine get.bind fun a _ => ?_
  split
  · exact throw
  · exact pure trivial

theorem check (f : Fragment) : Aside n (check f) fun _ => True := by
  refine get.bind fun a _ => ?_
  split
  · exact pure trivial
  · exact throw

theorem newState : Aside n newState (n ≤ ·) where
  spares a ha := by
    rw [Builder.newState, apply_bind, apply_get]
    dsimp only
    split
    · exact .refl n a
    · exact .extended ha
  good a id b ha hid := by
    rw [Builder.newState, apply_bind, apply_get] at hid
    dsimp only at hid
    split at hid
    · simp at hid
    · obtain ⟨rfl, -⟩ : a.size = id ∧ a.extended = b := by simpa [extended] using hid
      exact ha

/-- A state that is not spared may be changed. -/
theorem modifyState (h : n ≤ source) (change : State → State) :
    Aside n (modify (·.modifyState source change)) fun _ => True :=
  update fun a _ => .modifyState a h change

theorem addEpsilon (h : n ≤ source) (target : StateId) : Aside n (addEpsilon source target) fun _ => True := by
  refine ensureMutable.bind fun _ _ => ?_
  split
  · exact modifyState h _
  · exact pure trivial

theorem addTransition (h : n ≤ source) (s : Symbol) (target : StateId) :
    Aside n (addTransition source s target) fun _ => True := by
  refine ensureMutable.bind fun _ _ => get.bind fun a _ => ?_
  split
  · exact modifyState h _
  · split
    · exact pure trivial
    · exact newState.bind fun fork hfork => (modifyState hfork _).bind fun _ _ => modifyState h _

theorem fragment : Aside n fragment (Fragment.From n) :=
  ensureMutable.bind fun _ _ => newState.bind fun _ hentry => newState.bind fun _ hexit => pure ⟨hentry, hexit⟩

theorem epsilon : Aside n epsilon (Fragment.From n) :=
  fragment.bind fun _ hf => (addEpsilon hf.1 _).bind fun _ _ => pure hf

theorem literal (s : Symbol) : Aside n (literal s) (Fragment.From n) :=
  fragment.bind fun _ hf => (addTransition hf.1 s _).bind fun _ _ => pure hf

theorem spell {last : StateId} (h : n ≤ last) (text : List Char) : Aside n (spell last text) (n ≤ ·) := by
  induction text generalizing last with
  | nil => exact pure h
  | cons c rest ih =>
    rw [Builder.spell]
    split
    · exact throw
    · exact newState.bind fun next hnext => (addTransition h _ next).bind fun _ _ => ih hnext

theorem string (text : String) : Aside n (string text) (Fragment.From n) := by
  unfold Builder.string
  split
  · exact epsilon
  · exact ensureMutable.bind fun _ _ => newState.bind fun _ hentry =>
      (spell hentry _).bind fun _ hexit => pure ⟨hentry, hexit⟩

theorem forM {ι : Type} {items : List ι} {step : ι → Builder PUnit}
    (h : ∀ x ∈ items, Aside n (step x) fun _ => True) : Aside n (items.forM step) fun _ => True := by
  induction items with
  | nil => exact pure trivial
  | cons x items ih =>
    obtain ⟨hx, hitems⟩ := List.forall_mem_cons.1 h
    exact hx.bind fun _ _ => ih hitems

theorem symbols (chosen : List Symbol) : Aside n (symbols chosen) (Fragment.From n) :=
  fragment.bind fun _ hf => (forM fun s _ => addTransition hf.1 s _).bind fun _ _ => pure hf

theorem append (hf : f.From n) (hg : g.From n) : Aside n (append f g) (Fragment.From n) :=
  (check f).bind fun _ _ => (check g).bind fun _ _ => (addEpsilon hf.2 _).bind fun _ _ => pure ⟨hf.1, hg.2⟩

theorem foldlM_append {parts : List Fragment} (hf : f.From n) (hparts : ∀ part ∈ parts, part.From n) :
    Aside n (parts.foldlM Builder.append f) (Fragment.From n) := by
  induction parts generalizing f with
  | nil => exact pure hf
  | cons part parts ih =>
    obtain ⟨hpart, hparts⟩ := List.forall_mem_cons.1 hparts
    exact (append hf hpart).bind fun g hg => ih hg hparts

theorem sequence {parts : List Fragment} (h : ∀ part ∈ parts, part.From n) :
    Aside n (sequence parts) (Fragment.From n) := by
  cases parts with
  | nil => exact epsilon
  | cons first rest => exact foldlM_append (h first List.mem_cons_self) fun part hpart => h part (.tail _ hpart)

theorem alternate {parts : List Fragment} (h : ∀ part ∈ parts, part.From n) :
    Aside n (alternate parts) (Fragment.From n) := by
  unfold Builder.alternate
  split
  · exact throw_bind
  · refine (forM fun part _ => check part).bind fun _ _ => fragment.bind fun f hf => ?_
    refine (forM fun part hpart => ?_).bind fun _ _ => pure hf
    exact (addEpsilon hf.1 _).bind fun _ _ => addEpsilon (h part hpart).2 _

theorem optional (hf : f.From n) : Aside n (optional f) (Fragment.From n) :=
  (check f).bind fun _ _ => (addEpsilon hf.1 _).bind fun _ _ => pure hf

theorem star (hf : f.From n) : Aside n (star f) (Fragment.From n) :=
  (check f).bind fun _ _ => fragment.bind fun _ hg =>
    (addEpsilon hg.1 _).bind fun _ _ => (addEpsilon hg.1 _).bind fun _ _ =>
      (addEpsilon hf.2 _).bind fun _ _ => (addEpsilon hg.2 _).bind fun _ _ => pure hg

theorem plus (hf : f.From n) : Aside n (plus f) (Fragment.From n) :=
  (check f).bind fun _ _ => ensureMutable.bind fun _ _ => newState.bind fun _ hentry =>
    (addEpsilon hentry _).bind fun _ _ => (addEpsilon hf.2 _).bind fun _ _ => pure ⟨hentry, hf.2⟩

/-- All states get new states to stand for them. -/
theorem duplicate {ids : List StateId} {made : List (StateId × StateId)} (h : ∀ pair ∈ made, n ≤ pair.2) :
    Aside n (duplicate ids made) fun pairs =>
      pairs.map Prod.fst = made.reverse.map Prod.fst ++ ids ∧ ∀ pair ∈ pairs, n ≤ pair.2 := by
  induction ids generalizing made with
  | nil => exact pure ⟨(List.append_nil _).symm, fun pair hpair => h pair (List.mem_reverse.1 hpair)⟩
  | cons id ids ih =>
    refine newState.bind fun new hnew => ?_
    have hrest := ih (List.forall_mem_cons.2 ⟨hnew, h⟩ : ∀ pair ∈ (id, new) :: made, n ≤ pair.2)
    simpa using hrest

/-- Whatever fragment is copied, the copy consists of new states. -/
theorem copy (f : Fragment) : Aside n (copy f) (Fragment.From n) := by
  refine (check f).bind fun _ _ => ensureMutable.bind fun _ _ => get.bind fun a _ => ?_
  have hnone : ∀ pair ∈ ([] : List (StateId × StateId)), n ≤ pair.2 := by simp
  refine (duplicate hnone).bind fun pairs hpairs => ?_
  obtain ⟨hold, hnew⟩ := hpairs
  have hlookup (p : StateId) (hp : p ∈ a.members f) : n ≤ (pairs.lookup p).getD p := by
    obtain ⟨pair, hpair, rfl⟩ := List.mem_map.1 (show p ∈ pairs.map Prod.fst by simpa [hold] using hp)
    cases hq : pairs.lookup pair.1 with
    | none => exact absurd (List.lookup_eq_none_iff.1 hq pair hpair) (by simp)
    | some q =>
      obtain ⟨before, after, hsplit, -⟩ := List.lookup_eq_some_iff.1 hq
      exact hnew (pair.1, q) (by simp [hsplit])
  refine (update fun a _ => .fillIn hnew).bind fun _ _ => pure ⟨?_, ?_⟩
  · exact hlookup f.entry (entry_mem_members a f)
  · exact hlookup f.exit (exit_mem_members a f)

theorem instantiate (name : String) : Aside n (instantiate name) (Fragment.From n) := by
  refine get.bind fun a _ => ?_
  split
  · exact copy _
  · exact throw

theorem copies (f : Fragment) (k : Nat) {made : List Fragment} (h : ∀ part ∈ made, part.From n) :
    Aside n (copies f k made) fun parts => ∀ part ∈ parts, part.From n := by
  induction k generalizing made with
  | zero => exact pure h
  | succ k ih => exact (copy f).bind fun g hg => ih (List.forall_mem_cons.2 ⟨hg, h⟩)

theorem optionalCopies (f : Fragment) (exit : StateId) (k : Nat) {last : StateId} (h : n ≤ last) :
    Aside n (optionalCopies f exit k last) (n ≤ ·) := by
  induction k generalizing last with
  | zero => exact pure h
  | succ k ih =>
    exact (copy f).bind fun part hpart => (addEpsilon h _).bind fun _ _ => (addEpsilon h _).bind fun _ _ => ih hpart.2

theorem upTo (f : Fragment) (k : Nat) : Aside n (upTo f k) (Fragment.From n) :=
  fragment.bind fun g hg => (optionalCopies f g.exit k hg.1).bind fun _ hlast =>
    (addEpsilon hlast _).bind fun _ _ => pure hg

theorem withMore (f : Fragment) (min : Nat) (max : Option Nat) {required : List Fragment}
    (h : ∀ part ∈ required, part.From n) : Aside n (withMore f min max required) (Fragment.From n) := by
  have hreverse {g : Fragment} (hg : g.From n) : ∀ part ∈ (g :: required).reverse, part.From n := fun part hpart =>
    List.forall_mem_cons.2 ⟨hg, h⟩ part (List.mem_reverse.1 hpart)
  unfold Builder.withMore
  split
  · exact (copy f).bind fun g hg => (star hg).bind fun g hg => sequence (hreverse hg)
  · split
    · exact (upTo f _).bind fun g hg => sequence (hreverse hg)
    · exact sequence fun part hpart => h part (List.mem_reverse.1 hpart)

theorem repeated (f : Fragment) (min : Nat) (max : Option Nat) : Aside n (repeated f min max) (Fragment.From n) := by
  have hcopies : Aside n (do
      let limit := (← MonadState.get).config.stateLimit
      if min ≥ limit then MonadExcept.throw (ConstructionError.stateLimit limit)
      Builder.withMore f min max (← Builder.copies f min [])) (Fragment.From n) := by
    refine get.bind fun a _ => ?_
    dsimp only
    split
    · exact throw_bind
    · exact (copies f min (by simp)).bind fun made hmade => withMore f min max hmade
  refine (check f).bind fun _ _ => ?_
  cases max with
  | none => exact hcopies
  | some max =>
    dsimp only
    split
    · exact throw_bind
    · exact hcopies

end Aside

end Builder

namespace Pattern

open Builder (Aside)

variable {n : Nat}

mutual

/-- A pattern is built out of new states only. -/
theorem build_aside : (p : Pattern) → Aside n p.build (Fragment.From n)
  | literal text => .string text
  | sequence parts => (buildAll_aside parts).bind fun _ => .sequence
  | alternation parts => (buildAll_aside parts).bind fun _ => .alternate
  | oneOf _ => .symbols _
  | noneOf _ => .symbols _
  | star p => (build_aside p).bind fun _ => .star
  | plus p => (build_aside p).bind fun _ => .plus
  | optional p => (build_aside p).bind fun _ => .optional
  | defined name => .instantiate name
  | repeated p min max => (build_aside p).bind fun f _ => .repeated f min max

theorem buildAll_aside : (parts : List Pattern) → Aside n (buildAll parts) fun fs => ∀ f ∈ fs, f.From n
  | [] => .pure (by simp)
  | p :: rest => (build_aside p).bind fun _ hf => (buildAll_aside rest).bind fun _ hfs =>
      .pure (List.forall_mem_cons.2 ⟨hf, hfs⟩)

end

end Pattern

end TableLexer
