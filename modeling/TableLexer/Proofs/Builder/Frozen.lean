import TableLexer.Proofs.Builder.Public

/-! A deterministic automaton is frozen: whatever is done with it, it stays as it is. -/
namespace TableLexer

namespace Builder

variable {α β : Type} {a : Automaton} {p : Builder α} {f : α → Builder β}

/-- The step leaves the automaton as it is. -/
def Keeps (p : Builder α) (a : Automaton) : Prop := (p.apply a).2 = a

/-- The step fails and leaves the automaton as it is. -/
def Refuses (p : Builder α) (a : Automaton) : Prop := ∃ e, p.apply a = (.error e, a)

theorem Refuses.keeps (h : Refuses p a) : Keeps p a := by
  obtain ⟨e, he⟩ := h
  rw [Keeps, he]

theorem Refuses.bind (h : Refuses p a) (f : α → Builder β) : Refuses (p >>= f) a := by
  obtain ⟨e, he⟩ := h
  exact ⟨e, by rw [apply_bind, he]⟩

private theorem throw_refuses {e : ConstructionError} (f : α → Builder β) : Refuses (throw e >>= f) a :=
  Refuses.bind ⟨e, rfl⟩ f

namespace Keeps

theorem bind (hp : Keeps p a) (hf : ∀ x, Keeps (f x) a) : Keeps (p >>= f) a := by
  rw [Keeps] at hp ⊢
  rw [apply_bind]
  rcases happly : p.apply a with ⟨result, b⟩
  obtain rfl : b = a := by rwa [happly] at hp
  cases result with
  | error e => rfl
  | ok x => exact hf x

theorem bind_refuses (hp : Keeps p a) (hf : ∀ x, Refuses (f x) a) : Refuses (p >>= f) a := by
  rw [Keeps] at hp
  rcases happly : p.apply a with ⟨result, b⟩
  obtain rfl : b = a := by rwa [happly] at hp
  cases result with
  | error e => exact ⟨e, by rw [apply_bind, happly]⟩
  | ok x =>
    obtain ⟨e, he⟩ := hf x
    exact ⟨e, by rw [apply_bind, happly]; exact he⟩

theorem tryCatch {handle : ConstructionError → Builder α} (hp : Keeps p a)
    (hhandle : ∀ e, Keeps (handle e) a) : Keeps (tryCatch p handle) a := by
  rw [Keeps] at hp ⊢
  rw [apply_tryCatch]
  rcases happly : p.apply a with ⟨result, b⟩
  obtain rfl : b = a := by rwa [happly] at hp
  cases result with
  | error e => exact hhandle e
  | ok x => rfl

theorem eq {result : Except ConstructionError α} {b : Automaton} (hp : Keeps p a) (h : p.apply a = (result, b)) :
    b = a := by
  rwa [Keeps, h] at hp

theorem ensureMutable : Keeps ensureMutable a := by
  refine bind rfl fun b => ?_
  split <;> rfl

theorem check (f : Fragment) : Keeps (check f) a := by
  unfold Builder.check
  refine bind rfl fun b => ?_
  split <;> rfl

private theorem forM_check (parts : List Fragment) : Keeps (parts.forM Builder.check) a := by
  induction parts with
  | nil => rfl
  | cons part parts ih => exact bind (check part) fun _ => ih

end Keeps

section frozen

variable (ha : a.deterministic = true)
include ha

theorem apply_ensureMutable : ensureMutable.apply a = (.error .frozen, a) := by
  rw [ensureMutable, apply_bind, apply_get]
  dsimp only
  rw [if_pos ha, apply_throw]

private theorem ensureMutable_refuses : Refuses ensureMutable a := ⟨.frozen, apply_ensureMutable ha⟩

private theorem addEpsilon_refuses (source target : StateId) : Refuses (addEpsilon source target) a :=
  (ensureMutable_refuses ha).bind _

theorem fragment_refuses : Refuses fragment a := (ensureMutable_refuses ha).bind _

theorem epsilon_refuses : Refuses epsilon a := (fragment_refuses ha).bind _

theorem string_refuses (text : String) : Refuses (string text) a := by
  unfold string
  split
  · exact epsilon_refuses ha
  · exact (ensureMutable_refuses ha).bind _

private theorem append_refuses (f g : Fragment) : Refuses (append f g) a := by
  refine (Keeps.check f).bind_refuses fun _ => (Keeps.check g).bind_refuses fun _ => ?_
  exact (addEpsilon_refuses ha _ _).bind _

private theorem sequence_keeps (parts : List Fragment) : Keeps (sequence parts) a := by
  cases parts with
  | nil => exact (epsilon_refuses ha).keeps
  | cons first rest =>
    cases rest with
    | nil => rfl
    | cons second rest => exact ((append_refuses ha first second).bind _).keeps

private theorem alternate_keeps (parts : List Fragment) : Keeps (alternate parts) a := by
  unfold alternate
  split
  · rfl
  · exact (Keeps.forM_check parts).bind fun _ => ((fragment_refuses ha).bind _).keeps

private theorem star_refuses (f : Fragment) : Refuses (star f) a :=
  (Keeps.check f).bind_refuses fun _ => (fragment_refuses ha).bind _

private theorem plus_refuses (f : Fragment) : Refuses (plus f) a :=
  (Keeps.check f).bind_refuses fun _ => (ensureMutable_refuses ha).bind _

private theorem copy_refuses (f : Fragment) : Refuses (copy f) a :=
  (Keeps.check f).bind_refuses fun _ => (ensureMutable_refuses ha).bind _

private theorem copies_keeps (f : Fragment) (n : Nat) (made : List Fragment) : Keeps (copies f n made) a := by
  cases n with
  | zero => rfl
  | succ n => exact ((copy_refuses ha f).bind _).keeps

private theorem withMore_keeps (f : Fragment) (min : Nat) (max : Option Nat) (required : List Fragment) :
    Keeps (withMore f min max required) a := by
  unfold withMore
  cases max with
  | none => exact ((copy_refuses ha f).bind _).keeps
  | some max =>
    dsimp only
    split
    · exact (((fragment_refuses ha).bind _).bind _).keeps
    · exact sequence_keeps ha _

private theorem repeated_keeps (f : Fragment) (min : Nat) (max : Option Nat) : Keeps (repeated f min max) a := by
  have hmore : Keeps (copies f min [] >>= withMore f min max) a :=
    (copies_keeps ha f min []).bind (withMore_keeps ha f min max)
  have hrest : Keeps (do
      let limit := (← get).config.stateLimit
      if min ≥ limit then throw (.stateLimit limit)
      withMore f min max (← copies f min [])) a := by
    refine Keeps.bind rfl fun b => ?_
    dsimp only
    split
    · exact (throw_refuses _).keeps
    · exact hmore
  refine (Keeps.check f).bind fun _ => ?_
  cases max with
  | none => exact hrest
  | some max =>
    dsimp only
    split
    · exact (throw_refuses _).keeps
    · exact hrest

theorem instantiate_refuses (name : String) : Refuses (instantiate name) a := by
  refine Keeps.bind_refuses rfl fun b => ?_
  cases b.definitions.lookup name with
  | none => exact ⟨_, rfl⟩
  | some f => exact copy_refuses ha f

private theorem addTerminal_refuses (name : String) (build : Builder Fragment) : Refuses (addTerminal name build) a :=
  (ensureMutable_refuses ha).bind _

private theorem addDefinition_refuses (name : String) (build : Builder Fragment) :
    Refuses (addDefinition name build) a := (ensureMutable_refuses ha).bind _

/-- Public steps leave a deterministic automaton as it is. -/
theorem Public.keeps (hp : p.Public) : Keeps p a := by
  induction hp with
  | pure x => rfl
  | bind _ _ ihp ihf => exact ihp.bind ihf
  | throw e => rfl
  | tryCatch _ _ ihp ihhandle => exact ihp.tryCatch ihhandle
  | get => rfl
  | epsilon => exact (epsilon_refuses ha).keeps
  | literal s => exact ((fragment_refuses ha).bind _).keeps
  | string text => exact (string_refuses ha text).keeps
  | oneOf ranges => exact ((fragment_refuses ha).bind _).keeps
  | noneOf ranges => exact ((fragment_refuses ha).bind _).keeps
  | append f g => exact (append_refuses ha f g).keeps
  | sequence parts => exact sequence_keeps ha parts
  | alternate parts => exact alternate_keeps ha parts
  | optional f => exact ((Keeps.check f).bind_refuses fun _ => (addEpsilon_refuses ha _ _).bind _).keeps
  | star f => exact (star_refuses ha f).keeps
  | plus f => exact (plus_refuses ha f).keeps
  | repeated f min max => exact repeated_keeps ha f min max
  | copy f => exact (copy_refuses ha f).keeps
  | instantiate name => exact (instantiate_refuses ha name).keeps
  | addTerminal name _ _ => exact (addTerminal_refuses ha name _).keeps
  | addDefinition name _ _ => exact (addDefinition_refuses ha name _).keeps

end frozen

end Builder

end TableLexer
