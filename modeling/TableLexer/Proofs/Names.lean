import TableLexer.Proofs.Automaton.Obtained
import TableLexer.Proofs.Builder.Aside
import TableLexer.Proofs.Directory

/-! The terminals of an automaton are what registering their names one after the other leads to, so that each name
has one id. -/
namespace TableLexer

namespace Builder

open Automaton

variable {α β : Type} {a b : Automaton} {p : Builder α} {next : α → Builder β}

/-- Whatever becomes of the step, the terminals are those there were, and names that have been registered since. -/
def Registers (p : Builder α) : Prop :=
  ∀ a : Automaton, ∃ names, (p.apply a).2.terminals = a.terminals.registering names

namespace Registers

/-- What changes only states registers nothing. -/
theorem of_aside {good : α → Prop} (h : Aside 0 p good) : Registers p := fun a =>
  ⟨[], (h.spares a (Nat.zero_le _)).terminals⟩

theorem pure (x : α) : Registers (pure x) := fun _ => ⟨[], rfl⟩

theorem throw (e : ConstructionError) : Registers (throw e : Builder α) := fun _ => ⟨[], rfl⟩

theorem bind (hp : Registers p) (hnext : ∀ x, Registers (next x)) : Registers (p >>= next) := by
  intro a
  obtain ⟨names, hnames⟩ := hp a
  rw [apply_bind]
  rcases hx : p.apply a with ⟨e | x, b⟩
  · rw [hx] at hnames
    exact ⟨names, hnames⟩
  · rw [hx] at hnames
    obtain ⟨more, hmore⟩ := hnext x b
    rw [show b.terminals = a.terminals.registering names from hnames] at hmore
    exact ⟨names ++ more, hmore.trans (Registry.registering_append _ names more).symm⟩

theorem tryCatch {handle : ConstructionError → Builder α} (hp : Registers p) (hhandle : ∀ e, Registers (handle e)) :
    Registers (tryCatch p handle) := by
  intro a
  obtain ⟨names, hnames⟩ := hp a
  rw [apply_tryCatch]
  rcases hx : p.apply a with ⟨e | x, b⟩
  · rw [hx] at hnames
    obtain ⟨more, hmore⟩ := hhandle e b
    rw [show b.terminals = a.terminals.registering names from hnames] at hmore
    exact ⟨names ++ more, hmore.trans (Registry.registering_append _ names more).symm⟩
  · rw [hx] at hnames
    exact ⟨names, hnames⟩

theorem addTerminal (name : String) {build : Builder Fragment} (hbuild : Registers build) :
    Registers (addTerminal name build) := by
  refine (of_aside .ensureMutable).bind fun _ => ?_
  split
  · exact fun a => ⟨[], rfl⟩
  · -- What is built first may declare terminals itself, and their names come before this one.
    refine hbuild.bind fun f => (of_aside (.check f)).bind fun _ => (of_aside .newState).bind fun accept => ?_
    have hencode : Registers (modifyGet fun a : Automaton =>
        ((a.terminals.encode name).1, { a with terminals := (a.terminals.encode name).2 })) := fun a => ⟨[name], rfl⟩
    refine hencode.bind fun id => (of_aside (.modifyState (Nat.zero_le _) _)).bind fun _ => ?_
    exact (of_aside (.addEpsilon (Nat.zero_le _) _)).bind fun _ => (of_aside .get).bind fun a =>
      (of_aside (.addEpsilon (Nat.zero_le _) _)).bind fun _ => pure id

theorem addDefinition (name : String) {build : Builder Fragment} (hbuild : Registers build) :
    Registers (addDefinition name build) :=
  (of_aside .ensureMutable).bind fun _ => hbuild.bind fun f => (of_aside (.check f)).bind fun _ _ => ⟨[], rfl⟩

end Registers

/-- Public steps do nothing to the terminals but to register names. -/
theorem Public.registers (hp : p.Public) : Registers p := by
  induction hp with
  | pure x => exact .pure x
  | bind _ _ ihp ihf => exact ihp.bind ihf
  | throw e => exact .throw e
  | tryCatch _ _ ihp ihhandle => exact ihp.tryCatch ihhandle
  | get => exact .of_aside .get
  | epsilon => exact .of_aside .epsilon
  | literal s => exact .of_aside (.literal s)
  | string text => exact .of_aside (.string text)
  | oneOf ranges => exact .of_aside (.symbols _)
  | noneOf ranges => exact .of_aside (.symbols _)
  | append f g => exact .of_aside (.append f.from_zero g.from_zero)
  | sequence parts => exact .of_aside (.sequence fun part _ => part.from_zero)
  | alternate parts => exact .of_aside (.alternate fun part _ => part.from_zero)
  | optional f => exact .of_aside (.optional f.from_zero)
  | star f => exact .of_aside (.star f.from_zero)
  | plus f => exact .of_aside (.plus f.from_zero)
  | repeated f min max => exact .of_aside (.repeated f min max)
  | copy f => exact .of_aside (.copy f)
  | instantiate name => exact .of_aside (.instantiate name)
  | addTerminal name _ ih => exact .addTerminal name ih
  | addDefinition name _ ih => exact .addDefinition name ih

end Builder

namespace Automaton

variable {a d : Automaton}

private theorem terminals_determinize (ha : a.WellFormed) (hd : a.determinize = .ok d) : d.terminals = a.terminals := by
  unfold determinize at hd
  split at hd
  · rw [← Except.ok.inj hd]
  · obtain ⟨subsets, hrepresents⟩ := subsetConstruction_represents ha hd
    exact hrepresents.terminals_eq

/-- In whatever way an automaton has been obtained, its terminals have been registered one after the other. -/
theorem Obtained.registered (h : a.Obtained) : ∃ names, a.terminals = Registry.initial.registering names := by
  induction h with
  | start config => exact ⟨[], rfl⟩
  | @step a α p _ hp ih =>
    obtain ⟨names, hnames⟩ := ih
    obtain ⟨more, hmore⟩ := hp.registers a
    rw [hnames] at hmore
    exact ⟨names ++ more, hmore.trans (Registry.registering_append _ names more).symm⟩
  | determinize ha hd ih => rwa [terminals_determinize ha.kept.1 hd]
  | minimize ha hm ih =>
    obtain ⟨d, hd, rfl⟩ := minimize_eq_ok_iff.1 hm
    rwa [show d.merged.terminals = d.terminals from rfl, terminals_determinize ha.kept.1 hd]

theorem Obtained.nodup_names (h : a.Obtained) : a.terminals.names.Nodup := by
  obtain ⟨names, hnames⟩ := h.registered
  rw [hnames]
  exact Registry.nodup_registering (List.nodup_singleton _) names

end Automaton

end TableLexer
