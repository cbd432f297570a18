import TableLexer.Proofs.Automaton.Obtained
import TableLexer.Proofs.Builder.Aside

/-! Building only ever adds. Whatever public steps do with an automaton, every path that there was is still there for
the same word, possibly by way of new states, and every state that accepted a terminal still accepts it. -/
namespace TableLexer

namespace Automaton

variable {a b c : Automaton} {source : StateId} {p q : StateId} {w : List Symbol} {id : TerminalId}

/-- What there was is still there: for every edge a path, and what the states accept, where the automaton starts and
how the terminals are named. -/
structure Upholds (a b : Automaton) : Prop where
  edge : ∀ p l q, a.Edge p l q → Path b.Edge p l.toList q
  terminal : ∀ p id, a.terminal? p = some id → b.terminal? p = some id
  initial : b.initial = a.initial
  name : ∀ id name, a.terminals.name? id = some name → b.terminals.name? id = some name

namespace Upholds

theorem path (h : a.Upholds b) (hpath : Path a.Edge p w q) : Path b.Edge p w q := by
  induction hpath with
  | refl p => exact .refl p
  | step edge _ ih => exact (h.edge _ _ _ edge).trans ih

theorem refl (a : Automaton) : a.Upholds a := ⟨fun _ _ _ edge => .single edge, fun _ _ h => h, rfl, fun _ _ h => h⟩

theorem trans (h : a.Upholds b) (h' : b.Upholds c) : a.Upholds c where
  edge p l q edge := h'.path (h.edge p l q edge)
  terminal p id hid := h'.terminal p id (h.terminal p id hid)
  initial := h'.initial.trans h.initial
  name id name hname := h'.name id name (h.name id name hname)

/-- It is enough that the states there were are left alone. -/
theorem of_state (hstate : ∀ p < a.size, b.state? p = a.state? p) (hinitial : b.initial = a.initial)
    (hname : ∀ id name, a.terminals.name? id = some name → b.terminals.name? id = some name) : a.Upholds b where
  edge p l q edge := by
    have hp : p < a.size := Nat.lt_of_not_le fun hle => idle_of_size_le hle l q edge
    exact .single ((Builder.edge_congr (hstate p hp)).2 edge)
  terminal p id hid := by
    have hp : p < a.size := Nat.lt_of_not_le fun hle => by simp [terminal?_eq_none hle] at hid
    rwa [terminal?, hstate p hp]
  initial := hinitial
  name := hname

private theorem of_spares (h : Spares a.size a b) : a.Upholds b :=
  of_state h.state h.initial fun _ _ hname => h.terminals ▸ hname

/-- A state may be changed if it still accepts the same terminal and leads on every symbol to where it led before,
possibly by epsilon edges. -/
theorem modifyState {f : State → State} (h : ∀ state, a.state? source = some state →
    (∀ id, state.terminal = some id → (f state).terminal = some id) ∧
    (∀ q ∈ state.epsilon, q ∈ (f state).epsilon) ∧
    ∀ s q, state.transition s = some q →
      ∃ m, (f state).transition s = some m ∧ Path (a.modifyState source f).Edge m [] q) :
    a.Upholds (a.modifyState source f) where
  edge p l q edge := by
    by_cases hp : source = p
    · subst hp
      have hstate {state : State} (hstate : a.state? source = some state) :
          (a.modifyState source f).state? source = some (f state) := by
        rw [state?_modifyState, if_pos rfl, hstate, Option.map_some]
      cases l with
      | none =>
        obtain ⟨state, hold, hq⟩ := edge_none_iff.1 edge
        exact .single (edge_none_iff.2 ⟨f state, hstate hold, (h state hold).2.1 q hq⟩)
      | some s =>
        obtain ⟨state, hold, hq⟩ := edge_some_iff.1 edge
        obtain ⟨m, hm, hpath⟩ := (h state hold).2.2 s q hq
        exact .symbol (edge_some_iff.2 ⟨f state, hstate hold, hm⟩) hpath
    · exact .single ((Builder.edge_congr (by rw [state?_modifyState, if_neg hp])).2 edge)
  terminal p id hid := by
    rw [terminal?, state?_modifyState]
    split
    · next hp =>
      obtain ⟨state, hstate, hid⟩ := Option.bind_eq_some_iff.1 hid
      rw [hstate, Option.map_some, Option.bind_some]
      exact (h state (hp ▸ hstate)).1 id hid
    · exact hid
  initial := rfl
  name _ _ h := h

theorem addEpsilon (a : Automaton) (source target : StateId) :
    a.Upholds (a.modifyState source (·.addEpsilon target)) :=
  modifyState fun _ _ => ⟨fun _ hid => hid, fun _ hq => State.mem_epsilon_addEpsilon.2 (.inr hq),
    fun _ q hq => ⟨q, hq, .refl q⟩⟩

/-- A transition may be led elsewhere if an epsilon edge leads back to its target. -/
theorem setTransition {s : Symbol} {target : StateId}
    (h : ∀ old, a.Edge source (some s) old → a.Edge target none old) :
    a.Upholds (a.modifyState source (·.setTransition s target)) := by
  refine modifyState fun state hstate => ⟨fun _ hid => hid, fun _ hq => hq, fun t q hq => ?_⟩
  rw [State.transition_setTransition]
  split
  · next heq =>
    subst heq
    obtain ⟨state', hstate', hmem⟩ := edge_none_iff.1 (h q (edge_some_iff.2 ⟨state, hstate, hq⟩))
    refine ⟨target, rfl, .single (edge_none_iff.2 ?_)⟩
    rw [state?_modifyState]
    split
    · exact ⟨state'.setTransition t target, by rw [hstate', Option.map_some], hmem⟩
    · exact ⟨state', hstate', hmem⟩
  · exact ⟨q, hq, .refl q⟩

/-- The newest state, which has accepted nothing so far, may come to accept a terminal. -/
theorem accepting (a : Automaton) (name : String) : a.extended.Upholds (a.accepting name) := by
  have hregistered : a.extended.Upholds (a.extended.registered name) :=
    of_state (fun _ _ => rfl) rfl fun id known hname => (a.terminals.name?_encode name).2 id known hname
  refine hregistered.trans
    (modifyState fun state hstate => ⟨fun id hid => ?_, fun _ hq => hq, fun _ q hq => ⟨q, hq, .refl q⟩⟩)
  obtain rfl : {} = state := Option.some.inj (((state?_extended a a.size).trans (if_pos rfl)).symm.trans hstate)
  simp at hid

/-- A word that belongs to a terminal still does, unless it has come to belong to one declared before. -/
theorem exists_accepts (h : a.Upholds b) (ha : a.WellFormed) (hb : b.WellFormed) {k : TerminalId}
    (hk : a.accepts w = some k) : ∃ k' ≤ k, b.accepts w = some k' := by
  obtain ⟨⟨q, hpath, hterminal⟩, -⟩ := (accepts_eq_some_iff ha).1 hk
  have hspells : b.Spells w k := ⟨q, h.initial ▸ h.path hpath, h.terminal q k hterminal⟩
  obtain ⟨k', hk'⟩ := Option.isSome_iff_exists.1 ((isSome_accepts_iff hb).2 ⟨k, hspells⟩)
  exact ⟨k', ((accepts_eq_some_iff hb).1 hk').2 hspells, hk'⟩

end Upholds

end Automaton

namespace Builder

open Automaton

variable {α β : Type} {a b : Automaton} {p : Builder α} {next : α → Builder β}

/-- Whatever becomes of the step, what there was is upheld. -/
def Upholding (p : Builder α) : Prop := ∀ a : Automaton, a.Upholds (p.apply a).2

/-- Of what follows a step, it is enough to look at what the step can lead to. -/
theorem upholds_bind (hp : a.Upholds (p.apply a).2)
    (hnext : ∀ x b, p.apply a = (.ok x, b) → b.Upholds ((next x).apply b).2) :
    a.Upholds ((p >>= next).apply a).2 := by
  rw [apply_bind]
  rcases hx : p.apply a with ⟨e | x, b⟩
  · rwa [hx] at hp
  · rw [hx] at hp
    exact hp.trans (hnext x b hx)

namespace Upholding

theorem pure (x : α) : Upholding (pure x) := fun a => .refl a

theorem throw (e : ConstructionError) : Upholding (throw e : Builder α) := fun a => .refl a

theorem get : Upholding get := fun a => .refl a

theorem bind (hp : Upholding p) (hnext : ∀ x, Upholding (next x)) : Upholding (p >>= next) := fun a =>
  upholds_bind (hp a) fun x b _ => hnext x b

theorem throw_bind {e : ConstructionError} : Upholding (MonadExcept.throw e >>= next) := fun a => .refl a

theorem tryCatch {handle : ConstructionError → Builder α} (hp : Upholding p) (hhandle : ∀ e, Upholding (handle e)) :
    Upholding (tryCatch p handle) := by
  intro a
  have hupholds := hp a
  rw [apply_tryCatch]
  rcases hx : p.apply a with ⟨e | x, b⟩
  · rw [hx] at hupholds
    exact hupholds.trans (hhandle e b)
  · rwa [hx] at hupholds

/-- What works aside from all states there are upholds them. -/
theorem of_aside {good : Nat → α → Prop} (h : ∀ n, Aside n p (good n)) : Upholding p := fun a =>
  .of_spares ((h a.size).spares a (Nat.le_refl _))

theorem ensureMutable : Upholding ensureMutable := of_aside fun _ => .ensureMutable

theorem check (f : Fragment) : Upholding (check f) := of_aside fun _ => .check f

theorem newState : Upholding newState := of_aside fun _ => .newState

theorem fragment : Upholding fragment := of_aside fun _ => .fragment

theorem copy (f : Fragment) : Upholding (copy f) := of_aside fun _ => .copy f

theorem addEpsilon (source target : StateId) : Upholding (addEpsilon source target) := by
  refine ensureMutable.bind fun _ => ?_
  split
  · exact fun a => .addEpsilon a source target
  · exact pure _

/-- Where two edges meet on a symbol, the state in between leads on to where the first one led. -/
theorem addTransition (source : StateId) (s : Symbol) (target : StateId) :
    Upholding (addTransition source s target) := by
  refine ensureMutable.bind fun _ a => upholds_bind (get a) fun x b hx => ?_
  obtain ⟨rfl, rfl⟩ : a = x ∧ a = b := by simpa using hx
  cases hold : (a.state? source).bind (·.transition s) with
  | none => exact .setTransition fun old edge => absurd (hold.symm.trans edge) (by simp)
  | some old =>
    dsimp only
    split
    · exact .refl a
    · refine upholds_bind (newState a) fun fork b hb => ?_
      obtain ⟨-, rfl, rfl⟩ := newState_eq_ok_iff.1 hb
      obtain ⟨state, hstate, htransition⟩ := Option.bind_eq_some_iff.1 hold
      have hne : a.size ≠ source := (Nat.ne_of_lt (lt_size_of_state? hstate)).symm
      have hforked : a.extended.Upholds
          (a.extended.modifyState a.size fun q => (q.addEpsilon old).addEpsilon target) :=
        .modifyState fun _ _ => ⟨fun _ hid => hid,
          fun _ hq => State.mem_epsilon_addEpsilon.2 (.inr (State.mem_epsilon_addEpsilon.2 (.inr hq))),
          fun _ q hq => ⟨q, hq, .refl q⟩⟩
      refine hforked.trans (.setTransition fun other edge => ?_)
      obtain ⟨state', hstate', hother⟩ := edge_some_iff.1 edge
      rw [state?_modifyState, if_neg hne, state?_extended, if_neg hne.symm, hstate] at hstate'
      obtain rfl := Option.some.inj hstate'
      obtain rfl : old = other := Option.some.inj (htransition.symm.trans hother)
      refine edge_none_iff.2 ⟨((({} : State).addEpsilon old).addEpsilon target), ?_, ?_⟩
      · rw [state?_modifyState, if_pos rfl, state?_extended, if_pos rfl, Option.map_some]
      · exact State.mem_epsilon_addEpsilon.2 (.inr (State.mem_epsilon_addEpsilon.2 (.inl rfl)))

theorem forM {ι : Type} (items : List ι) {step : ι → Builder PUnit} (h : ∀ x, Upholding (step x)) :
    Upholding (items.forM step) := by
  induction items with
  | nil => exact pure _
  | cons x items ih => exact (h x).bind fun _ => ih

theorem epsilon : Upholding epsilon := of_aside fun _ => .epsilon

theorem literal (s : Symbol) : Upholding (literal s) :=
  fragment.bind fun _ => (addTransition _ s _).bind fun _ => pure _

theorem string (text : String) : Upholding (string text) := of_aside fun _ => .string text

theorem symbols (chosen : List Symbol) : Upholding (symbols chosen) := of_aside fun _ => .symbols chosen

theorem append (f g : Fragment) : Upholding (append f g) :=
  (check f).bind fun _ => (check g).bind fun _ => (addEpsilon _ _).bind fun _ => pure _

theorem sequence (parts : List Fragment) : Upholding (sequence parts) := by
  cases parts with
  | nil => exact epsilon
  | cons first rest =>
    show Upholding (rest.foldlM Builder.append first)
    induction rest generalizing first with
    | nil => exact pure first
    | cons part rest ih => exact (append first part).bind ih

theorem alternate (parts : List Fragment) : Upholding (alternate parts) := by
  unfold Builder.alternate
  split
  · exact throw_bind
  · exact (forM parts check).bind fun _ => fragment.bind fun f =>
      (forM parts fun part => (addEpsilon _ _).bind fun _ => addEpsilon _ _).bind fun _ => pure f

theorem optional (f : Fragment) : Upholding (optional f) :=
  (check f).bind fun _ => (addEpsilon _ _).bind fun _ => pure f

theorem star (f : Fragment) : Upholding (star f) :=
  (check f).bind fun _ => fragment.bind fun g => (addEpsilon _ _).bind fun _ => (addEpsilon _ _).bind fun _ =>
    (addEpsilon _ _).bind fun _ => (addEpsilon _ _).bind fun _ => pure g

theorem plus (f : Fragment) : Upholding (plus f) :=
  (check f).bind fun _ => ensureMutable.bind fun _ => newState.bind fun _ =>
    (addEpsilon _ _).bind fun _ => (addEpsilon _ _).bind fun _ => pure _

theorem addDefinition (name : String) {build : Builder Fragment} (hbuild : Upholding build) :
    Upholding (addDefinition name build) :=
  ensureMutable.bind fun _ => hbuild.bind fun _ => (check _).bind fun _ _ =>
    .of_state (fun _ _ => rfl) rfl fun _ _ hname => hname

theorem addTerminal (name : String) {build : Builder Fragment} (hbuild : Upholding build) :
    Upholding (addTerminal name build) := by
  refine ensureMutable.bind fun _ => ?_
  split
  · exact throw _
  · refine hbuild.bind fun f => (check f).bind fun _ a => ?_
    refine upholds_bind (newState a) fun accept b hb => ?_
    obtain ⟨-, rfl, rfl⟩ := newState_eq_ok_iff.1 hb
    have hrest : Upholding (do
        Builder.addEpsilon f.exit a.size
        Builder.addEpsilon (← MonadState.get).initial f.entry
        return (a.terminals.encode name).1) :=
      (addEpsilon _ _).bind fun _ => get.bind fun _ => (addEpsilon _ _).bind fun _ => pure _
    exact (Upholds.accepting a name).trans (hrest (a.accepting name))

end Upholding

/-- Public steps only ever add. -/
theorem Public.upholding (hp : p.Public) : Upholding p := by
  induction hp with
  | pure x => exact .pure x
  | bind _ _ ihp ihf => exact ihp.bind ihf
  | throw e => exact .throw e
  | tryCatch _ _ ihp ihhandle => exact ihp.tryCatch ihhandle
  | get => exact .get
  | epsilon => exact .epsilon
  | literal s => exact .literal s
  | string text => exact .string text
  | oneOf ranges => exact .symbols _
  | noneOf ranges => exact .symbols _
  | append f g => exact .append f g
  | sequence parts => exact .sequence parts
  | alternate parts => exact .alternate parts
  | optional f => exact .optional f
  | star f => exact .star f
  | plus f => exact .plus f
  | repeated f min max => exact .of_aside fun _ => .repeated f min max
  | copy f => exact .copy f
  | instantiate name => exact .of_aside fun _ => .instantiate name
  | addTerminal name _ ih => exact .addTerminal name ih
  | addDefinition name _ ih => exact .addDefinition name ih

/-- A terminal is named as it was declared. -/
theorem name?_of_addTerminal {name : String} {build : Builder Fragment} {id : TerminalId}
    (h : (addTerminal name build).apply a = (.ok id, b)) : b.terminals.name? id = some name := by
  obtain ⟨-, -, f, c, d, -, -, -, rfl, hout, hin⟩ := addTerminal_eq_ok_iff.1 h
  have hname : (c.accepting name).terminals.name? (c.terminals.encode name).1 = some name :=
    (c.terminals.name?_encode name).1
  have hd := (Upholding.addEpsilon f.exit c.size (c.accepting name)).name _ _ hname
  rw [hout] at hd
  have hb := (Upholding.addEpsilon d.initial f.entry d).name _ _ hd
  rwa [hin] at hb

/-- Building only ever adds. Paths stay paths for the same words, a text that belongs to a terminal belongs to it or
to an earlier one afterwards, and an id keeps its name from the declaration on. -/
theorem building_only_adds (ha : a.Obtained) {p : Builder α} (hp : p.Public) (hb : (p.apply a).2 = b) :
    (∀ q w r, Path a.Edge q w r → Path b.Edge q w r) ∧
      (∀ text k, a.matches? text = some k → ∃ k' ≤ k, b.matches? text = some k') ∧
      (∀ id name, a.terminals.name? id = some name → b.terminals.name? id = some name) ∧
      (∀ name build id c, (addTerminal name build).apply a = (.ok id, c) →
        (p.apply c).2.terminals.name? id = some name) ∧
      ∀ source s target q w r, Path a.Edge q w r →
        Path ((addEpsilon source target).apply a).2.Edge q w r ∧
        Path ((addTransition source s target).apply a).2.Edge q w r := by
  subst hb
  have hupholds := hp.upholding a
  refine ⟨fun q w r => hupholds.path, fun text k hk => ?_, hupholds.name, fun name build id c hdeclare => ?_,
    fun source s target q w r hpath => ⟨?_, ?_⟩⟩
  · obtain ⟨w, hw, haccepts⟩ := Option.bind_eq_some_iff.1 hk
    obtain ⟨k', hle, hk'⟩ := hupholds.exists_accepts ha.kept.1 (ha.step hp).kept.1 haccepts
    exact ⟨k', hle, Option.bind_eq_some_iff.2 ⟨w, hw, hk'⟩⟩
  · exact (hp.upholding c).name id name (name?_of_addTerminal hdeclare)
  · exact (Upholding.addEpsilon source target a).path hpath
  · exact (Upholding.addTransition source s target a).path hpath

/-- Two terminals of one letter each. -/
def twoLetters : Automaton :=
  (apply (do
    let _ ← addTerminal "A" (string "a")
    addTerminal "B" (string "b")) {}).2

/-- The fragment of the second terminal is used again, for the first one, before something fails. -/
theorem building_only_adds_twoLetters : twoLetters.Obtained ∧ twoLetters.matches? "b" = some 2 ∧
    ∃ b, ((do
        let _ ← addTerminal "A" (star ⟨4, 5⟩)
        copy ⟨5, 99⟩ : Builder Fragment).apply twoLetters).2 = b ∧
      Path b.Edge 4 [.ofChar 'b'] 5 ∧ (∃ k ≤ 2, b.matches? "b" = some k) ∧ b.matches? "b" = some 1 ∧
      b.terminals.name? 2 = some "B" := by
  have hobtained : twoLetters.Obtained :=
    .step (.start _) (.bind (.addTerminal _ (.string _)) fun _ => .addTerminal _ (.string _))
  have hpublic : (do
      let _ ← addTerminal "A" (star ⟨4, 5⟩)
      copy ⟨5, 99⟩ : Builder Fragment).Public := .bind (.addTerminal _ (.star _)) fun _ => .copy _
  have hmatches : twoLetters.matches? "b" = some 2 := by decide +kernel
  obtain ⟨hpath, hnotlater, hname, -⟩ := building_only_adds hobtained hpublic rfl
  refine ⟨hobtained, hmatches, _, rfl, hpath _ _ _ (.symbol ?_ (.refl 5)), hnotlater _ _ hmatches, by decide +kernel,
    hname _ _ (by decide +kernel)⟩
  show twoLetters.transition? 4 (.ofChar 'b') = some 5
  decide +kernel

end Builder

end TableLexer
