import TableLexer.Proofs.Builder.Public

/-! How many states steps take. There is room for them up to the state limit, and nothing else is in the way of a step
that is made of fragments of the automaton. -/
namespace TableLexer

namespace Automaton

theorem length_members_pos (a : Automaton) (f : Fragment) : 0 < (a.members f).length :=
  List.length_pos_of_mem (entry_mem_members a f)

end Automaton

namespace Builder

open Automaton

variable {α β : Type} {a b : Automaton} {p : Builder α} {next : α → Builder β} {f g : Fragment}
  {good : α → Automaton → Prop} {k m n : Nat} {source target : StateId}

/-- If the automaton can be extended, the step takes `n` more states: it succeeds if they fit, and fails for the
state limit if they do not. -/
def Takes (p : Builder α) (a : Automaton) (n : Nat) : Prop :=
  a.deterministic = false →
    (a.size + n ≤ max a.size a.config.stateLimit → ∃ x b, p.apply a = (.ok x, b) ∧ b.size = a.size + n ∧
      b.deterministic = false ∧ b.config = a.config) ∧
    (max a.size a.config.stateLimit < a.size + n →
      ∃ b, p.apply a = (.error (.stateLimit a.config.stateLimit), b))

namespace Takes

theorem nothing (h : a.deterministic = false → ∃ x b, p.apply a = (.ok x, b) ∧ b.size = a.size ∧
    b.deterministic = false ∧ b.config = a.config) : Takes p a 0 :=
  fun hmutable => ⟨fun _ => h hmutable, fun hroom => by omega⟩

theorem pure (x : α) (a : Automaton) : Takes (pure x) a 0 := nothing fun hmutable => ⟨x, a, rfl, rfl, hmutable, rfl⟩

theorem get (a : Automaton) : Takes get a 0 := nothing fun hmutable => ⟨a, a, rfl, rfl, hmutable, rfl⟩

theorem update {change : Automaton → Automaton} (hsize : (change a).size = a.size)
    (hkeep : (change a).deterministic = a.deterministic ∧ (change a).config = a.config) : Takes (modify change) a 0 :=
  nothing fun hmutable => ⟨⟨⟩, change a, rfl, hsize, hkeep.1.trans hmutable, hkeep.2⟩

theorem modifyState (id : StateId) (change : State → State) (a : Automaton) :
    Takes (modify (·.modifyState id change)) a 0 := update (size_modifyState ..) ⟨rfl, rfl⟩

/-- What the first step makes of the automaton is known when the next one is to be taken. -/
theorem bind (hp : Takes p a m)
    (hnext : ∀ x b, p.apply a = (.ok x, b) → b.size = a.size + m → Takes (next x) b n) (hk : m + n = k) :
    Takes (p >>= next) a k := by
  subst hk
  intro hmutable
  obtain ⟨hfits, hfull⟩ := hp hmutable
  by_cases hroom : a.size + m ≤ max a.size a.config.stateLimit
  · obtain ⟨x, b, hx, hsize, hmutable', hconfig⟩ := hfits hroom
    have hlimit : max (a.size + m) a.config.stateLimit = max a.size a.config.stateLimit := by
      rw [← Nat.max_eq_right hroom, ← Nat.max_assoc, Nat.max_eq_left (Nat.le_add_right a.size m)]
    have hrest := hnext x b hx hsize hmutable'
    rw [hsize, hconfig, hlimit, Nat.add_assoc] at hrest
    rwa [apply_bind, hx]
  · obtain ⟨b, hb⟩ := hfull (Nat.lt_of_not_le hroom)
    rw [apply_bind, hb]
    have hle : a.size + m ≤ a.size + (m + n) := Nat.add_le_add_left (Nat.le_add_right m n) _
    exact ⟨fun hfit => absurd (Nat.le_trans hle hfit) hroom, fun _ => ⟨b, rfl⟩⟩

/-- The next step is taken where the first one leads to. -/
theorem bind_leads (hp : Takes p a m) (hleads : Leads p a good)
    (hnext : ∀ x b, a.Grows b → good x b → Takes (next x) b n) (hk : m + n = k) : Takes (p >>= next) a k :=
  hp.bind (fun x b hx _ => hnext x b (hleads.grows_of_eq hx) (hleads.good x b hx)) hk

theorem returning (hp : Takes p a n) (f : α → β) : Takes (p >>= fun x => Pure.pure (f x)) a n :=
  hp.bind (fun x b _ _ => pure (f x) b) (Nat.add_zero n)

theorem ensureMutable (a : Automaton) : Takes ensureMutable a 0 :=
  nothing fun hmutable => ⟨(), a, ensureMutable_eq_ok_iff.2 ⟨hmutable, rfl⟩, rfl, hmutable, rfl⟩

theorem check (hf : a.owns f) : Takes (check f) a 0 :=
  nothing fun hmutable => ⟨(), a, check_eq_ok_iff.2 ⟨hf, rfl⟩, rfl, hmutable, rfl⟩

theorem newState (a : Automaton) : Takes newState a 1 := by
  refine fun hmutable => ⟨fun hroom => ?_, fun hfull => ⟨a, ?_⟩⟩
  · exact ⟨a.size, a.extended, newState_eq_ok_iff.2 ⟨by omega, rfl, rfl⟩, size_extended a, hmutable, rfl⟩
  · have hlimit : a.size ≥ a.config.stateLimit := by omega
    simp [Builder.newState, apply_bind, hlimit]

theorem addEpsilon (source target : StateId) (a : Automaton) : Takes (addEpsilon source target) a 0 := by
  refine nothing fun hmutable => ⟨(), _, addEpsilon_eq_ok_iff.2 ⟨hmutable, rfl⟩, ?_⟩
  split
  · exact ⟨rfl, hmutable, rfl⟩
  · exact ⟨size_modifyState .., hmutable, rfl⟩

theorem fragment (a : Automaton) : Takes fragment a 2 :=
  (ensureMutable a).bind (fun _ b _ _ => (newState b).bind (fun _ c _ _ => (newState c).returning _) rfl) rfl

theorem epsilon (a : Automaton) : Takes epsilon a 2 :=
  (fragment a).bind (fun f b _ _ => (addEpsilon f.entry f.exit b).returning _) rfl

theorem star (hf : a.owns f) : Takes (star f) a 2 := by
  refine (check hf).bind (n := 2) (fun _ b _ _ => ?_) rfl
  refine (fragment b).bind (n := 0) (fun g c _ _ => ?_) rfl
  refine (addEpsilon _ _ c).bind (n := 0) (fun _ d _ _ => ?_) rfl
  refine (addEpsilon _ _ d).bind (n := 0) (fun _ d _ _ => ?_) rfl
  refine (addEpsilon _ _ d).bind (n := 0) (fun _ d _ _ => ?_) rfl
  exact (addEpsilon _ _ d).returning _

theorem append (hf : a.owns f) (hg : a.owns g) : Takes (append f g) a 0 := by
  refine (check hf).bind (n := 0) (fun _ b _ hb => ?_) rfl
  refine (check (owns_of_size_le hg hb.ge)).bind (n := 0) (fun _ c _ _ => ?_) rfl
  exact (addEpsilon f.exit g.entry c).returning _

theorem foldlM_append {parts : List Fragment} (hf : a.owns f) (hparts : ∀ part ∈ parts, a.owns part) :
    Takes (parts.foldlM Builder.append f) a 0 := by
  induction parts generalizing a f with
  | nil => exact pure f a
  | cons part parts ih =>
    obtain ⟨hpart, hparts⟩ := List.forall_mem_cons.1 hparts
    rw [List.foldlM_cons]
    refine (append hf hpart).bind (n := 0) (fun h b hh hb => ?_) rfl
    obtain rfl : h = ⟨f.entry, part.exit⟩ := by
      obtain ⟨_, _, -, hh⟩ := apply_bind_eq_ok_iff.1 hh
      obtain ⟨_, _, -, hh⟩ := apply_bind_eq_ok_iff.1 hh
      obtain ⟨_, _, -, hh⟩ := apply_bind_eq_ok_iff.1 hh
      exact (by simpa using hh : (⟨f.entry, part.exit⟩ : Fragment) = h ∧ _).1.symm
    have hkeep {g : Fragment} (hg : a.owns g) : b.owns g := owns_of_size_le hg hb.ge
    have hends : a.owns ⟨f.entry, part.exit⟩ := owns_iff.2 ⟨(owns_iff.1 hf).1, (owns_iff.1 hpart).2⟩
    exact ih (hkeep hends) fun part hpart => hkeep (hparts part hpart)

/-- Appending takes no states, unless there is nothing to append. -/
theorem sequence {parts : List Fragment} (hparts : ∀ part ∈ parts, a.owns part) :
    Takes (sequence parts) a (if parts.length = 0 then 2 else 0) := by
  cases parts with
  | nil => exact epsilon a
  | cons first rest =>
    exact foldlM_append (hparts first List.mem_cons_self) fun part hpart => hparts part (.tail _ hpart)

theorem duplicate (ids : List StateId) (made : List (StateId × StateId)) (a : Automaton) :
    Takes (duplicate ids made) a ids.length := by
  induction ids generalizing a made with
  | nil => exact pure _ a
  | cons id ids ih => exact (newState a).bind (fun _ b _ _ => ih _ b) (Nat.add_comm ..)

/-- A copy takes a state for every state of the fragment. -/
theorem copy (hf : a.owns f) : Takes (copy f) a (a.members f).length := by
  refine (check hf).bind (n := (a.members f).length) (fun _ b hb _ => ?_) (Nat.zero_add _)
  obtain ⟨-, rfl⟩ := check_eq_ok_iff.1 hb
  refine (ensureMutable a).bind (n := (a.members f).length) (fun _ b hb _ => ?_) (Nat.zero_add _)
  obtain ⟨-, rfl⟩ := ensureMutable_eq_ok_iff.1 hb
  refine (get a).bind (n := (a.members f).length) (fun x b hb _ => ?_) (Nat.zero_add _)
  obtain ⟨rfl, rfl⟩ : a = x ∧ a = b := by simpa using hb
  refine (duplicate _ [] a).bind (n := 0) (fun pairs c _ _ => ?_) (Nat.add_zero _)
  exact (update (fillIn_keeps pairs c).1 (fillIn_keeps pairs c).2).returning _

section wellFormed

variable (ha : a.WellFormed)
include ha

/-- A symbol takes no state if its source is not led elsewhere by it. -/
theorem addTransition {s : Symbol}
    (hfree : a.transition? source s = none ∨ a.transition? source s = some target) :
    Takes (addTransition source s target) a 0 := by
  refine (ensureMutable a).bind_leads (n := 0) (.ensureMutable ha) (fun _ b _ heq => ?_) rfl
  obtain rfl := heq
  refine (get b).bind_leads (n := 0) (.get ha) (fun _ c _ hresult => ?_) rfl
  obtain ⟨rfl, rfl⟩ := hresult
  have hsame : (c.state? source).bind (·.transition s) = c.transition? source s := rfl
  rw [hsame]
  rcases hfree with hnone | hsome
  · rw [hnone]
    exact modifyState _ _ c
  · rw [hsome]
    dsimp only
    rw [if_pos rfl]
    exact pure _ c

theorem literal (s : Symbol) : Takes (literal s) a 2 := by
  refine (fragment a).bind_leads (n := 0) (.fragment ha) (fun f b hb hadded => ?_) rfl
  obtain ⟨rfl, -, hadds⟩ := hadded
  have hidle := hadds.idle (idle_of_size_le (Nat.le_refl a.size)) fun _ _ => id
  exact (addTransition hb.wellFormed ((hidle.funnels (a.size + 1)).free s)).returning _

/-- A loop over steps that take no states takes none. -/
theorem forM {ι : Type} {items : List ι} {step : ι → Builder PUnit} (inv : Automaton → Prop) (hinv : inv a)
    (hstep : ∀ x ∈ items, ∀ b, a.Grows b → inv b →
      Takes (step x) b 0 ∧ Leads (step x) b fun _ c => inv c) : Takes (items.forM step) a 0 := by
  induction items generalizing a with
  | nil => exact pure _ a
  | cons x items ih =>
    rw [List.forM_eq_forM, List.forM_cons]
    obtain ⟨hx, hleads⟩ := hstep x List.mem_cons_self a (.refl ha) hinv
    refine hx.bind_leads (n := 0) hleads (fun _ b hb hinv' => ?_) rfl
    exact ih hb.wellFormed hinv' fun y hy c hc => hstep y (List.mem_cons_of_mem x hy) c (hb.trans hc)

theorem symbols (chosen : List Symbol) : Takes (symbols chosen) a 2 := by
  refine (fragment a).bind_leads (n := 0) (.fragment ha) (fun f b hb hadded => ?_) rfl
  obtain ⟨rfl, howns, hadds⟩ := hadded
  have hidle := hadds.idle (idle_of_size_le (Nat.le_refl a.size)) fun _ _ => id
  refine (forM hb.wellFormed (·.Funnels a.size (a.size + 1)) (hidle.funnels _) ?_).returning _
  intro s _ c hc hfunnels
  refine ⟨addTransition hc.wellFormed (hfunnels.free s), ?_⟩
  exact (Leads.addTransition_funnels hc.wellFormed (hc.owns howns) hfunnels s).mono fun _ _ _ h => h.1

private theorem forM_check {parts : List Fragment} (hparts : ∀ part ∈ parts, a.owns part) :
    Takes (parts.forM Builder.check) a 0 := by
  refine forM ha (· = a) rfl fun part hpart b _ heq => ?_
  obtain rfl := heq
  exact ⟨check (hparts part hpart), (Leads.check ha part).mono fun _ _ _ h => h.1⟩

theorem alternate {parts : List Fragment} (hne : parts ≠ []) (hparts : ∀ part ∈ parts, a.owns part) :
    Takes (alternate parts) a 2 := by
  rw [Builder.alternate, if_neg (by simpa using hne)]
  refine (forM_check ha hparts).bind_leads (n := 2) (.forM_check ha) (fun _ b _ hresult => ?_) rfl
  obtain ⟨rfl, -⟩ := hresult
  refine (fragment b).bind_leads (n := 0) (.fragment ha) (fun f c hc hadded => ?_) rfl
  obtain ⟨rfl, howns, -⟩ := hadded
  refine (forM hc.wellFormed (fun _ => True) trivial ?_).returning _
  intro part hpart d hd _
  have hpart := hd.owns (hc.owns (hparts part hpart))
  refine ⟨?_, (Leads.enclose hd.wellFormed (hd.owns howns) hpart).mono fun _ _ _ _ => trivial⟩
  exact (addEpsilon _ _ d).bind (n := 0) (fun _ e _ _ => addEpsilon _ _ e) rfl

theorem instantiate {name : String} (hf : a.definitions.lookup name = some f) :
    Takes (instantiate name) a (a.members f).length := by
  refine (get a).bind_leads (n := (a.members f).length) (.get ha) (fun _ b _ hresult => ?_) (Nat.zero_add _)
  obtain ⟨rfl, rfl⟩ := hresult
  rw [hf]
  exact copy (ha.owned name f hf)

end wellFormed

end Takes

/-- If the automaton can be extended and has room for `n` more states, the step succeeds and adds no more than
these. -/
def Affords (p : Builder α) (a : Automaton) (n : Nat) : Prop :=
  a.deterministic = false → a.size + n ≤ a.config.stateLimit → ∃ x b, p.apply a = (.ok x, b) ∧
    b.size ≤ a.size + n ∧ b.deterministic = false ∧ b.config = a.config

theorem Takes.affords (h : Takes p a n) : Affords p a n := by
  intro hmutable hroom
  obtain ⟨x, b, hx, hsize, hkeep⟩ := (h hmutable).1 (Nat.le_trans hroom (Nat.le_max_right ..))
  exact ⟨x, b, hx, Nat.le_of_eq hsize, hkeep⟩

namespace Affords

theorem mono (h : Affords p a n) (hle : n ≤ k) : Affords p a k := by
  intro hmutable hroom
  obtain ⟨x, b, hx, hb, hkeep⟩ := h hmutable (by omega)
  exact ⟨x, b, hx, by omega, hkeep⟩

/-- What the first step leads to is known when the next one is to be afforded. -/
theorem bind (hp : Affords p a n) (hleads : Leads p a good)
    (hnext : ∀ x b, a.Grows b → good x b → Affords (next x) b m) (hk : n + m ≤ k) : Affords (p >>= next) a k := by
  intro hmutable hroom
  obtain ⟨x, b, hx, hb, hmutable', hconfig⟩ := hp hmutable (by omega)
  obtain ⟨y, c, hy, hc, hmutable'', hconfig'⟩ := hnext x b (hleads.grows_of_eq hx) (hleads.good x b hx) hmutable'
    (by rw [hconfig]; omega)
  exact ⟨y, c, by rw [apply_bind, hx]; exact hy, by omega, hmutable'', hconfig'.trans hconfig⟩

variable {name : String} {build : Builder Fragment} {fit : Fragment → Automaton → Prop} (ha : a.WellFormed)
include ha

theorem addDefinition (hbuild : Affords build a n) (hleads : Leads build a fit)
    (howns : ∀ f b, fit f b → b.owns f) : Affords (addDefinition name build) a n := by
  refine (Takes.ensureMutable a).affords.bind (m := n) (.ensureMutable ha) (fun _ b _ heq => ?_) (by omega)
  obtain rfl := heq
  refine hbuild.bind (m := 0) hleads (fun f c hc hf => Takes.affords ?_) (Nat.le_refl _)
  refine (Takes.check (howns f c hf)).bind (n := 0) (fun _ d _ _ => ?_) rfl
  exact .update rfl ⟨rfl, rfl⟩

/-- A terminal takes one state more than what it accepts. -/
theorem addTerminal (hname : name ≠ eofName) (hbuild : Affords build a n) (hleads : Leads build a fit)
    (howns : ∀ f b, fit f b → b.owns f) : Affords (addTerminal name build) a (n + 1) := by
  refine (Takes.ensureMutable a).affords.bind (m := n + 1) (.ensureMutable ha) (fun _ b _ heq => ?_) (by omega)
  obtain rfl := heq
  rw [if_neg hname]
  refine hbuild.bind (m := 1) hleads (fun f c hc hf => Takes.affords ?_) (Nat.le_refl _)
  refine (Takes.check (howns f c hf)).bind (n := 1) (fun _ d _ _ => ?_) rfl
  refine (Takes.newState d).bind (n := 0) (fun accept e _ _ => ?_) rfl
  have hencode : Takes (modifyGet fun a => ((a.terminals.encode name).1, a.registered name)) e 0 :=
    .nothing fun hmutable => ⟨_, _, rfl, rfl, hmutable, rfl⟩
  refine hencode.bind (n := 0) (fun id e _ _ => ?_) rfl
  refine (Takes.modifyState accept _ e).bind (n := 0) (fun _ e _ _ => ?_) rfl
  refine (Takes.addEpsilon f.exit accept e).bind (n := 0) (fun _ e _ _ => ?_) rfl
  refine (Takes.get e).bind (n := 0) (fun now e _ _ => ?_) rfl
  exact (Takes.addEpsilon now.initial f.entry e).returning _

end Affords

end Builder

end TableLexer
