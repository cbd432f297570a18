import TableLexer.Pattern
import TableLexer.Proofs.Builder.Declaration
import TableLexer.Proofs.Builder.Repetition

/-! The automata that can be built from outside, by steps that may use any fragment, share it, and go
on after a failure. -/
namespace TableLexer

namespace Builder

open Automaton

/-- The steps that are open to whoever builds an automaton: the operations, and what can be done by
looking at the automaton, by choosing what to do next and by recovering from a failure. -/
inductive Public : {α : Type} → Builder α → Prop where
  | pure {α : Type} (x : α) : Public (pure x)
  | bind {α β : Type} {p : Builder α} {f : α → Builder β} (hp : Public p) (hf : ∀ x, Public (f x)) :
      Public (p >>= f)
  | throw {α : Type} (e : ConstructionError) : Public (throw e : Builder α)
  | tryCatch {α : Type} {p : Builder α} {handle : ConstructionError → Builder α} (hp : Public p)
      (hhandle : ∀ e, Public (handle e)) : Public (tryCatch p handle)
  | get : Public get
  | epsilon : Public epsilon
  | literal (s : Symbol) : Public (literal s)
  | string (text : String) : Public (string text)
  | oneOf (ranges : List SymbolRange) : Public (oneOf ranges)
  | noneOf (ranges : List SymbolRange) : Public (noneOf ranges)
  | append (f g : Fragment) : Public (append f g)
  | sequence (parts : List Fragment) : Public (sequence parts)
  | alternate (parts : List Fragment) : Public (alternate parts)
  | optional (f : Fragment) : Public (optional f)
  | star (f : Fragment) : Public (star f)
  | plus (f : Fragment) : Public (plus f)
  | repeated (f : Fragment) (min : Nat) (max : Option Nat) : Public (repeated f min max)
  | copy (f : Fragment) : Public (copy f)
  | instantiate (name : String) : Public (instantiate name)
  | addTerminal (name : String) {build : Builder Fragment} (hbuild : Public build) :
      Public (addTerminal name build)
  | addDefinition (name : String) {build : Builder Fragment} (hbuild : Public build) :
      Public (addDefinition name build)

variable {a : Automaton}

namespace Leads

theorem sequence (ha : a.WellFormed) (parts : List Fragment) :
    Leads (sequence parts) a fun _ _ => True := by
  cases parts with
  | nil => exact (epsilon ha).mono fun _ _ _ _ => trivial
  | cons first rest => exact (foldlM_append ha first).mono fun _ _ _ _ => trivial

theorem instantiate (ha : a.WellFormed) (name : String) :
    Leads (instantiate name) a fun g b => ∃ f, a.definitions.lookup name = some f ∧ Copied a b f g := by
  refine (get ha).bind fun _ b _ => ?_
  intro hresult
  obtain ⟨rfl, rfl⟩ := hresult
  cases hf : b.definitions.lookup name with
  | none => exact throw ha
  | some f => exact (copy ha f).mono fun g c _ hcopied => ⟨f, rfl, hcopied⟩

theorem withMore (ha : a.WellFormed) (f : Fragment) (min : Nat) (max : Option Nat)
    (required : List Fragment) : Leads (withMore f min max required) a fun _ _ => True := by
  unfold Builder.withMore
  cases max with
  | none =>
    refine (copy ha f).bind fun g b hb _ => ?_
    refine (star hb.wellFormed g).bind fun h c hc _ => ?_
    exact sequence hc.wellFormed _
  | some max =>
    dsimp only
    split
    · exact (upTo_owns ha f _).bind fun g b hb _ => sequence hb.wellFormed _
    · exact sequence ha _

end Leads

/-- Whatever is done with an automaton by public steps, it stays well formed. -/
theorem Public.leads {α : Type} {p : Builder α} (hp : Public p) (ha : a.WellFormed) :
    Leads p a fun _ _ => True := by
  have weaken {α : Type} {p : Builder α} {good : α → Automaton → Prop} {a : Automaton}
      (h : Leads p a good) : Leads p a fun _ _ => True := h.mono fun _ _ _ _ => trivial
  induction hp generalizing a with
  | pure x => exact .pure ha trivial
  | bind _ _ ihp ihf => exact (ihp ha).bind fun x b hb _ => ihf x hb.wellFormed
  | throw e => exact .throw ha
  | tryCatch _ _ ihp ihhandle => exact (ihp ha).tryCatch fun e b hb => ihhandle e hb.wellFormed
  | get => exact weaken (.get ha)
  | epsilon => exact weaken (.epsilon ha)
  | literal s => exact weaken (.literal ha s)
  | string text => exact weaken (.string ha text)
  | oneOf ranges => exact weaken (.symbols ha _)
  | noneOf ranges => exact weaken (.symbols ha _)
  | append f g => exact weaken (.append ha f g)
  | sequence parts => exact .sequence ha parts
  | alternate parts => exact weaken (.alternate ha parts)
  | optional f => exact weaken (.optional ha f)
  | star f => exact weaken (.star ha f)
  | plus f => exact weaken (.plus ha f)
  | repeated f min max =>
    exact .repeated (fun _ _ _ => True) ha (fun _ _ _ _ _ _ _ _ _ => trivial) trivial
      fun made b hb _ _ => .withMore hb.wellFormed f min max made
  | copy f => exact weaken (.copy ha f)
  | instantiate name => exact weaken (.instantiate ha name)
  | addTerminal name _ ih => exact weaken (.addTerminal ha (ih ha))
  | addDefinition name _ ih => exact weaken (.addDefinition ha (ih ha))

namespace Public

variable {α : Type} {p : Builder α} {build : Builder Fragment} {b c : Automaton} {name : String} {id : TerminalId}

theorem grows (hp : Public p) (ha : a.WellFormed) {result : Except ConstructionError α}
    (h : p.apply a = (result, b)) : a.Grows b :=
  (hp.leads ha).grows_of_eq h

/-- What is built comes first, and what is made of it then is known. -/
private theorem leads_apply (hp : Public p) (ha : a.WellFormed) : Leads p a fun x b => p.apply a = (.ok x, b) :=
  ⟨(hp.leads ha).grows, fun _ _ h => h⟩

theorem declared (hbuild : Public build) (ha : a.WellFormed) (h : (Builder.addTerminal name build).apply a = (.ok id, c)) :
    ∃ f b, build.apply a = (.ok f, b) ∧ a.Grows b ∧ Declared b c name f id := by
  obtain ⟨f, b, hb, happly, hdeclared⟩ := (Leads.addTerminal ha (hbuild.leads_apply ha)).good _ _ h
  exact ⟨f, b, happly, hb, hdeclared⟩

theorem defined (hbuild : Public build) (ha : a.WellFormed) (h : (Builder.addDefinition name build).apply a = (.ok (), c)) :
    ∃ f b, build.apply a = (.ok f, b) ∧ a.Grows b ∧ b.owns f ∧ c = b.defining name f := by
  obtain ⟨f, b, hb, happly, howns, hc⟩ := (Leads.addDefinition ha (hbuild.leads_apply ha)).good _ _ h
  exact ⟨f, b, happly, hb, howns, hc⟩

end Public

end Builder

/-- The automata that public steps lead to, whether they succeed or not. -/
def Automaton.Constructed (a : Automaton) : Prop :=
  ∃ (config : BuildConfig) (α : Type) (p : Builder α),
    p.Public ∧ a = (p.apply { config }).2

theorem Automaton.Constructed.grows {a : Automaton} (h : a.Constructed) :
    ∃ config : BuildConfig, ({ config } : Automaton).Grows a := by
  obtain ⟨config, α, p, hp, rfl⟩ := h
  exact ⟨config, (hp.leads (wellFormed_start config)).grows⟩

end TableLexer
