import TableLexer.Proofs.Builder.Alongside

/-! What succeeds after an automaton that extends a prelude succeeds after the prelude itself, and
builds the same there. -/
namespace TableLexer

namespace Automaton

variable {base ambient a b : Automaton}

/-- A state that the prelude does not have. -/
def New (base a : Automaton) (p : StateId) : Prop := base.size ≤ p ∧ p < a.size

theorem New.grows {p : StateId} (h : New base a p) (hgrows : a.Grows b) : New base b p :=
  ⟨h.1, Nat.lt_of_lt_of_le h.2 hgrows.size_le⟩

/-- A fragment of new states, and the one that is built alongside it. -/
structure Paired (base ambient a : Automaton) (f g : Fragment) : Prop where
  eq : g = f.renamed (· + gap base ambient)
  entry : New base a f.entry
  exit : New base a f.exit

namespace Paired

variable {f g : Fragment} (h : Paired base ambient a f g)
include h

theorem grows (hgrows : a.Grows b) : Paired base ambient b f g :=
  ⟨h.eq, h.entry.grows hgrows, h.exit.grows hgrows⟩

theorem owns : a.owns f := owns_iff.2 ⟨h.entry.2, h.exit.2⟩

end Paired

end Automaton

namespace Builder

open Automaton

variable {α β γ δ : Type} {base ambient a b : Automaton} {p : Builder α} {p' : Builder β}
  {good : α → β → Automaton → Automaton → Prop}

/-- If a step succeeds in the second automaton, its counterpart succeeds in the first one, and the
same has been built in both. -/
def Follows (base ambient : Automaton) (p : Builder α) (p' : Builder β) (a b : Automaton)
    (good : α → β → Automaton → Automaton → Prop) : Prop :=
  ∀ y b', p'.apply b = (.ok y, b') →
    ∃ x a', p.apply a = (.ok x, a') ∧ a.Grows a' ∧ Alongside base ambient a' b' ∧ good x y a' b'

namespace Follows

theorem pure {x : α} {y : β} (h : Alongside base ambient a b) (hgood : good x y a b) :
    Follows base ambient (pure x) (pure y) a b good := by
  intro z b' hb
  obtain ⟨rfl, rfl⟩ : y = z ∧ b = b' := by simpa using hb
  exact ⟨x, a, rfl, .refl h.wellFormed, h, hgood⟩

theorem throw {e : ConstructionError} : Follows base ambient p (throw e) a b good := by
  intro y b' hb
  simp at hb

theorem get (h : Alongside base ambient a b) :
    Follows base ambient get get a b fun x y a' b' => x = a ∧ y = b ∧ a' = a ∧ b' = b := by
  intro y b' hb
  obtain ⟨rfl, rfl⟩ : b = y ∧ b = b' := by simpa using hb
  exact ⟨a, a, rfl, .refl h.wellFormed, h, rfl, rfl, rfl, rfl⟩

theorem update {f f' : Automaton → Automaton} (hgrows : a.Grows (f a))
    (h : Alongside base ambient (f a) (f' b)) :
    Follows base ambient (modify f) (modify f') a b fun _ _ a' b' => a' = f a ∧ b' = f' b := by
  intro y b' hb
  obtain rfl : f' b = b' := by simpa using hb
  exact ⟨⟨⟩, f a, rfl, hgrows, h, rfl, rfl⟩

theorem bind {f : α → Builder γ} {f' : β → Builder δ} {good' : γ → δ → Automaton → Automaton → Prop}
    (hp : Follows base ambient p p' a b good)
    (hf : ∀ x y a' b', a.Grows a' → Alongside base ambient a' b' → good x y a' b' →
      Follows base ambient (f x) (f' y) a' b' good') :
    Follows base ambient (p >>= f) (p' >>= f') a b good' := by
  intro z c hz
  obtain ⟨y, b', hy, hz⟩ := apply_bind_eq_ok_iff.1 hz
  obtain ⟨x, a', hx, hgrows, hnext, hgood⟩ := hp y b' hy
  obtain ⟨z', c', hz', hgrows', hend, hgood'⟩ := hf x y a' b' hgrows hnext hgood z c hz
  exact ⟨z', c', apply_bind_eq_ok_iff.2 ⟨x, a', hx, hz'⟩, hgrows.trans hgrows', hend, hgood'⟩

theorem throw_bind {e : ConstructionError} {f : β → Builder δ} {p : Builder γ}
    {good' : γ → δ → Automaton → Automaton → Prop} :
    Follows base ambient p ((MonadExcept.throw e : Builder β) >>= f) a b good' := by
  intro y b' hb
  rw [apply_bind] at hb
  simp at hb

theorem mono {good' : α → β → Automaton → Automaton → Prop} (hp : Follows base ambient p p' a b good)
    (h : ∀ x y a' b', a.Grows a' → Alongside base ambient a' b' → good x y a' b' → good' x y a' b') :
    Follows base ambient p p' a b good' := by
  intro y b' hb
  obtain ⟨x, a', hx, hgrows, hnext, hgood⟩ := hp y b' hb
  exact ⟨x, a', hx, hgrows, hnext, h x y a' b' hgrows hnext hgood⟩

variable {source target : StateId} {f g : Fragment} (h : Alongside base ambient a b)
include h

theorem ensureMutable : Follows base ambient ensureMutable ensureMutable a b fun _ _ a' b' => a' = a ∧ b' = b := by
  refine (get h).bind fun _ _ a' b' _ h hresult => ?_
  obtain ⟨rfl, rfl, rfl, rfl⟩ := hresult
  rw [h.deterministic]
  split
  · exact throw
  · exact pure h ⟨rfl, rfl⟩

theorem check (hf : a.owns f) :
    Follows base ambient (check f) (check g) a b fun _ _ a' b' => a' = a ∧ b' = b ∧ b.owns g := by
  refine (get h).bind fun _ _ a' b' _ h hresult => ?_
  obtain ⟨rfl, rfl, rfl, rfl⟩ := hresult
  rw [if_pos hf]
  split
  · next hg => exact pure h ⟨rfl, rfl, hg⟩
  · exact throw

theorem newState : Follows base ambient newState newState a b fun x y a' b' =>
    New base a' x ∧ y = x + gap base ambient ∧ x = a.size ∧ y = b.size ∧ a' = a.extended ∧ b' = b.extended := by
  intro y b' hb
  obtain ⟨hlimit', rfl, rfl⟩ := newState_eq_ok_iff.1 hb
  have hlimit : a.size < a.config.stateLimit := by
    rw [h.config, h.size] at hlimit'
    omega
  have hlt : a.size < a.extended.size := by rw [size_extended]; exact Nat.lt_succ_self _
  have hgrows := Grows.extended h.wellFormed hlimit
  exact ⟨a.size, a.extended, newState_eq_ok_iff.2 ⟨hlimit, rfl, rfl⟩, hgrows,
    h.extended hgrows (.extended h.wellFormed' hlimit'), ⟨h.since.grows.size_le, hlt⟩, h.size,
    rfl, rfl, rfl, rfl⟩

theorem modifyState {f f' : State → State} (hsource : New base a source)
    (hsound : ∀ q, q.Sound a.size a.terminals → (f q).Sound a.size a.terminals)
    (hsound' : ∀ q, q.Sound b.size b.terminals → (f' q).Sound b.size b.terminals)
    (hf : ∀ q, f' (q.renamed (· + gap base ambient)) = (f q).renamed (· + gap base ambient))
    (hterminal : ∀ q, (f q).terminal = q.terminal) (hterminal' : ∀ q, (f' q).terminal = q.terminal)
    (hsuccessors : ∀ q, ∀ id ∈ (f q).successors, id ∈ q.successors ∨ base.size ≤ id) :
    Follows base ambient (modify fun a => Automaton.modifyState a source f)
      (modify fun b => Automaton.modifyState b (source + gap base ambient) f') a b
      fun _ _ _ _ => True := by
  have hgrows := Grows.modifyState h.wellFormed source hsound
  exact (update hgrows (h.modifyState hsource.1 hgrows (.modifyState h.wellFormed' _ hsound') hf
    hterminal hterminal' hsuccessors)).mono fun _ _ _ _ _ _ _ => trivial

theorem addEpsilon (hsource : New base a source) (htarget : New base a target) :
    Follows base ambient (addEpsilon source target)
      (addEpsilon (source + gap base ambient) (target + gap base ambient)) a b fun _ _ _ _ => True := by
  refine (ensureMutable h).bind fun _ _ a' b' _ h hresult => ?_
  obtain ⟨rfl, rfl⟩ := hresult
  simp only [ne_eq, Nat.add_right_cancel_iff]
  split
  · have htarget' : target + gap base ambient < b'.size := h.size ▸ Nat.add_lt_add_right htarget.2 _
    refine modifyState h hsource (fun q hq => hq.addEpsilon htarget.2) (fun q hq => hq.addEpsilon htarget')
      (State.addEpsilon_renamed h.embeds.strictMono · target) (fun _ => rfl) (fun _ => rfl) ?_
    intro q id hid
    rcases State.mem_successors_addEpsilon hid with hid | rfl
    · exact .inl hid
    · exact .inr htarget.1
  · exact pure h trivial

/-- An edge on a symbol is set in both. -/
theorem setTransition (s : Symbol) (hsource : New base a source) (htarget : New base a target) :
    Follows base ambient
      (modify fun a => Automaton.modifyState a source (·.setTransition s target))
      (modify fun b => Automaton.modifyState b (source + gap base ambient)
        (·.setTransition s (target + gap base ambient))) a b fun _ _ _ _ => True := by
  have htarget' : target + gap base ambient < b.size := h.size ▸ Nat.add_lt_add_right htarget.2 _
  refine modifyState h hsource (fun q hq => hq.setTransition s htarget.2)
    (fun q hq => hq.setTransition s htarget') (State.setTransition_renamed · _ s target) (fun _ => rfl)
    (fun _ => rfl) ?_
  intro q id hid
  rcases State.mem_successors_setTransition hid with hid | rfl
  · exact .inl hid
  · exact .inr htarget.1

theorem addTransition (s : Symbol) (hsource : New base a source) (htarget : New base a target) :
    Follows base ambient (addTransition source s target)
      (addTransition (source + gap base ambient) s (target + gap base ambient)) a b fun _ _ _ _ => True := by
  refine (ensureMutable h).bind fun _ _ a' b' _ h hresult => ?_
  obtain ⟨rfl, rfl⟩ := hresult
  refine (get h).bind fun _ _ a b _ h hresult => ?_
  obtain ⟨rfl, rfl, rfl, rfl⟩ := hresult
  have hlookup : (b.state? (source + gap base ambient)).bind (·.transition s) =
      ((a.state? source).bind (·.transition s)).map (· + gap base ambient) := by
    rw [h.embeds.state source hsource.1]
    cases a.state? source <;> simp [State.transition_renamed]
  rw [hlookup]
  cases hold : (a.state? source).bind (·.transition s) with
  | none => exact setTransition h s hsource htarget
  | some old =>
    have edge : a.Edge source (some s) old := hold
    have hnew : New base a old := ⟨h.embeds.edge_mem h.wellFormed hsource.1 edge, h.wellFormed.edge_lt edge⟩
    simp only [Option.map_some, Nat.add_right_cancel_iff]
    split
    · exact pure h trivial
    · refine (newState h).bind fun fork _ c d hgrows h hresult => ?_
      obtain ⟨hfork, rfl, -⟩ := hresult
      have htarget := htarget.grows hgrows
      have hnew := hnew.grows hgrows
      have hlt {p : StateId} (hp : New base c p) : p + gap base ambient < d.size :=
        h.size ▸ Nat.add_lt_add_right hp.2 _
      refine (modifyState h hfork (fun q hq => (hq.addEpsilon hnew.2).addEpsilon htarget.2)
        (fun q hq => (hq.addEpsilon (hlt hnew)).addEpsilon (hlt htarget)) (fun q => ?_) (fun _ => rfl)
        (fun _ => rfl) (fun q id hid => ?_)).bind fun _ _ e _ hgrows' h _ => ?_
      · rw [State.addEpsilon_renamed h.embeds.strictMono, State.addEpsilon_renamed h.embeds.strictMono]
      · rcases State.mem_successors_addEpsilon hid with hid | rfl
        · rcases State.mem_successors_addEpsilon hid with hid | rfl
          · exact .inl hid
          · exact .inr hnew.1
        · exact .inr htarget.1
      · exact setTransition h s (hsource.grows (hgrows.trans hgrows')) (hfork.grows hgrows')

theorem fragment : Follows base ambient fragment fragment a b fun f g a' _ => Paired base ambient a' f g := by
  refine (ensureMutable h).bind fun _ _ a' b' _ h hresult => ?_
  obtain ⟨rfl, rfl⟩ := hresult
  refine (newState h).bind fun entry _ c _ _ h hresult => ?_
  obtain ⟨hentry, rfl, -⟩ := hresult
  refine (newState h).bind fun exit _ d _ hgrows h hresult => ?_
  obtain ⟨hexit, rfl, -⟩ := hresult
  exact pure h ⟨rfl, hentry.grows hgrows, hexit⟩

theorem epsilon : Follows base ambient epsilon epsilon a b fun f g a' _ => Paired base ambient a' f g := by
  refine (fragment h).bind fun f g a' _ _ h hpair => ?_
  obtain rfl := hpair.eq
  exact (addEpsilon h hpair.entry hpair.exit).bind fun _ _ c _ hgrows h _ => pure h (hpair.grows hgrows)

theorem spell {text : List Char} {last : StateId} (hlast : New base a last) :
    Follows base ambient (spell last text) (spell (last + gap base ambient) text) a b fun exit exit' a' _ =>
      New base a' exit ∧ exit' = exit + gap base ambient := by
  induction text generalizing a b last with
  | nil => exact pure h ⟨hlast, rfl⟩
  | cons c rest ih =>
    rw [Builder.spell, Builder.spell]
    cases Symbol.ofChar? c with
    | none => exact throw
    | some s =>
      refine (newState h).bind fun next _ a' _ hgrows h hresult => ?_
      obtain ⟨hnext, rfl, -⟩ := hresult
      refine (addTransition h s (hlast.grows hgrows) hnext).bind fun _ _ c _ hgrows h _ => ?_
      exact ih h (hnext.grows hgrows)

theorem string (text : String) :
    Follows base ambient (string text) (string text) a b fun f g a' _ => Paired base ambient a' f g := by
  rw [Builder.string]
  split
  · exact epsilon h
  · refine (ensureMutable h).bind fun _ _ a' b' _ h hresult => ?_
    obtain ⟨rfl, rfl⟩ := hresult
    refine (newState h).bind fun entry _ c _ _ h hresult => ?_
    obtain ⟨hentry, rfl, -⟩ := hresult
    refine (spell h hentry).bind fun exit _ d _ hgrows h hresult => ?_
    obtain ⟨hexit, rfl⟩ := hresult
    exact pure h ⟨rfl, hentry.grows hgrows, hexit⟩

/-- A loop does the same in both if each of its rounds does. -/
theorem forM {ι κ : Type} {items : List ι} {items' : List κ} {step : ι → Builder PUnit}
    {step' : κ → Builder PUnit} {R : ι → κ → Prop} (hitems : List.Forall₂ R items items')
    (hstep : ∀ x y, R x y → ∀ a' b', a.Grows a' → Alongside base ambient a' b' →
      Follows base ambient (step x) (step' y) a' b' fun _ _ _ _ => True) :
    Follows base ambient (items.forM step) (items'.forM step') a b fun _ _ _ _ => True := by
  induction hitems generalizing a b with
  | nil => exact pure h trivial
  | @cons x y items items' hxy _ ih =>
    rw [List.forM_eq_forM, List.forM_cons, List.forM_eq_forM, List.forM_cons]
    refine (hstep x y hxy a b (.refl h.wellFormed) h).bind fun _ _ a' b' hgrows h _ => ?_
    exact ih h fun x y hxy c d hgrows' => hstep x y hxy c d (hgrows.trans hgrows')

theorem symbols (chosen : List Symbol) :
    Follows base ambient (symbols chosen) (symbols chosen) a b fun f g a' _ => Paired base ambient a' f g := by
  refine (fragment h).bind fun f g a' _ _ h hpair => ?_
  obtain rfl := hpair.eq
  refine (forM h (List.forall₂_same.2 fun s _ => Eq.refl s) fun s _ hs b _ hgrows h => ?_).bind
    fun _ _ c _ hgrows h _ => pure h (hpair.grows hgrows)
  exact hs ▸ addTransition h s (hpair.entry.grows hgrows) (hpair.exit.grows hgrows)

variable {f₂ g₂ : Fragment} {parts parts' : List Fragment}

theorem append (hf : Paired base ambient a f g) (hf₂ : Paired base ambient a f₂ g₂) :
    Follows base ambient (append f f₂) (append g g₂) a b fun f g a' _ => Paired base ambient a' f g := by
  refine (check h hf.owns).bind fun _ _ _ _ _ h hresult => ?_
  obtain ⟨rfl, rfl, -⟩ := hresult
  refine (check h hf₂.owns).bind fun _ _ _ _ _ h hresult => ?_
  obtain ⟨rfl, rfl, -⟩ := hresult
  obtain rfl := hf.eq
  obtain rfl := hf₂.eq
  refine (addEpsilon h hf.exit hf₂.entry).bind fun _ _ c _ hgrows h _ => ?_
  exact pure h ⟨rfl, hf.entry.grows hgrows, hf₂.exit.grows hgrows⟩

theorem foldlM_append (hf : Paired base ambient a f g)
    (hparts : List.Forall₂ (Paired base ambient a) parts parts') :
    Follows base ambient (parts.foldlM Builder.append f) (parts'.foldlM Builder.append g) a b
      fun f g a' _ => Paired base ambient a' f g := by
  induction parts generalizing a b f g parts' with
  | nil =>
    obtain rfl := List.forall₂_nil_left_iff.1 hparts
    exact pure h hf
  | cons part parts ih =>
    obtain ⟨part', parts', hpart, hrest, rfl⟩ := List.forall₂_cons_left_iff.1 hparts
    rw [List.foldlM_cons, List.foldlM_cons]
    refine (append h hf hpart).bind fun f g c _ hgrows h hf => ?_
    exact ih h hf (hrest.imp fun _ _ hpair => hpair.grows hgrows)

theorem sequence (hparts : List.Forall₂ (Paired base ambient a) parts parts') :
    Follows base ambient (sequence parts) (sequence parts') a b
      fun f g a' _ => Paired base ambient a' f g := by
  cases hparts with
  | nil => exact epsilon h
  | cons hfirst hrest => exact foldlM_append h hfirst hrest

theorem alternate (hparts : List.Forall₂ (Paired base ambient a) parts parts') :
    Follows base ambient (alternate parts) (alternate parts') a b
      fun f g a' _ => Paired base ambient a' f g := by
  rw [Builder.alternate, Builder.alternate]
  have hempty : parts.isEmpty = parts'.isEmpty := by cases hparts <;> rfl
  rw [hempty]
  split
  · exact throw_bind
  · refine (forM h hparts fun part _ hpart b _ hgrows h =>
      (check h (hpart.grows hgrows).owns).mono fun _ _ _ _ _ _ _ => trivial).bind fun _ _ b _ hb h _ => ?_
    refine (fragment h).bind fun f g c _ hc h hpair => ?_
    obtain rfl := hpair.eq
    refine (forM h hparts fun part _ hpart d _ hd h => ?_).bind fun _ _ d _ hgrows h _ =>
      pure h (hpair.grows hgrows)
    replace hpart := hpart.grows ((hb.trans hc).trans hd)
    obtain rfl := hpart.eq
    refine (addEpsilon h (hpair.grows hd).entry hpart.entry).bind fun _ _ e _ he h _ => ?_
    exact addEpsilon h (hpart.grows he).exit (hpair.grows (hd.trans he)).exit

theorem optional (hf : Paired base ambient a f g) :
    Follows base ambient (optional f) (optional g) a b fun f g a' _ => Paired base ambient a' f g := by
  refine (check h hf.owns).bind fun _ _ _ _ _ h hresult => ?_
  obtain ⟨rfl, rfl, -⟩ := hresult
  obtain rfl := hf.eq
  exact (addEpsilon h hf.entry hf.exit).bind fun _ _ c _ hgrows h _ => pure h (hf.grows hgrows)

theorem star (hf : Paired base ambient a f g) :
    Follows base ambient (star f) (star g) a b fun f g a' _ => Paired base ambient a' f g := by
  refine (check h hf.owns).bind fun _ _ _ _ _ h hresult => ?_
  obtain ⟨rfl, rfl, -⟩ := hresult
  refine (fragment h).bind fun f₂ g₂ b _ hgrows h hpair => ?_
  obtain rfl := hpair.eq
  replace hf := hf.grows hgrows
  obtain rfl := hf.eq
  refine (addEpsilon h hpair.entry hpair.exit).bind fun _ _ c _ hc h _ => ?_
  refine (addEpsilon h (hpair.grows hc).entry (hf.grows hc).entry).bind fun _ _ d _ hd h _ => ?_
  replace hd := hc.trans hd
  refine (addEpsilon h (hf.grows hd).exit (hpair.grows hd).exit).bind fun _ _ e _ he h _ => ?_
  replace he := hd.trans he
  refine (addEpsilon h (hpair.grows he).exit (hpair.grows he).entry).bind fun _ _ k _ hk h _ => ?_
  exact pure h (hpair.grows (he.trans hk))

theorem plus (hf : Paired base ambient a f g) :
    Follows base ambient (plus f) (plus g) a b fun f g a' _ => Paired base ambient a' f g := by
  refine (check h hf.owns).bind fun _ _ _ _ _ h hresult => ?_
  obtain ⟨rfl, rfl, -⟩ := hresult
  refine (ensureMutable h).bind fun _ _ _ _ _ h hresult => ?_
  obtain ⟨rfl, rfl⟩ := hresult
  refine (newState h).bind fun entry _ b _ hgrows h hresult => ?_
  obtain ⟨hentry, rfl, -⟩ := hresult
  replace hf := hf.grows hgrows
  obtain rfl := hf.eq
  refine (addEpsilon h hentry hf.entry).bind fun _ _ c _ hc h _ => ?_
  refine (addEpsilon h (hf.grows hc).exit (hentry.grows hc)).bind fun _ _ d _ hd h _ => ?_
  replace hd := hc.trans hd
  exact pure h ⟨rfl, hentry.grows hd, hf.exit.grows hd⟩

theorem duplicate {ids ids' : List StateId} {made made' : List (StateId × StateId)}
    (hlength : ids.length = ids'.length) :
    Follows base ambient (duplicate ids made) (duplicate ids' made') a b fun pairs pairs' a' b' =>
      pairs = made.reverse ++ ids.zipIdx a.size ∧ pairs' = made'.reverse ++ ids'.zipIdx b.size ∧
        a'.size = a.size + ids.length ∧ (∀ p < a.size, a'.state? p = a.state? p) ∧
        ∀ p < b.size, b'.state? p = b.state? p := by
  induction ids generalizing a b ids' made made' with
  | nil =>
    obtain rfl := List.eq_nil_of_length_eq_zero hlength.symm
    exact pure h ⟨by simp, by simp, rfl, fun _ _ => rfl, fun _ _ => rfl⟩
  | cons id ids ih =>
    cases ids' with
    | nil => simp at hlength
    | cons id' ids' =>
      refine (newState h).bind fun new new' c d _ h hresult => ?_
      obtain ⟨-, -, rfl, rfl, rfl, rfl⟩ := hresult
      refine (ih h (by simpa using hlength)).mono fun pairs pairs' a' b' _ _ hresult => ?_
      obtain ⟨rfl, rfl, hsize, hstate, hstate'⟩ := hresult
      rw [size_extended] at hsize hstate hstate'
      refine ⟨by simp, by simp, by simp [hsize, Nat.add_assoc, Nat.add_comm], fun p hp => ?_, fun p hp => ?_⟩
      · rw [hstate p (Nat.lt_succ_of_lt hp), state?_extended, if_neg (Nat.ne_of_lt hp)]
      · rw [hstate' p (Nat.lt_succ_of_lt hp), state?_extended, if_neg (Nat.ne_of_lt hp)]

omit h in
/-- The new name of a state that has been renamed before. -/
private theorem lookup_moved {rename : StateId → StateId} (hinj : Function.Injective rename) (k : Nat)
    (pairs : List (StateId × StateId)) (id : StateId) :
    (moved rename k pairs).lookup (rename id) = (pairs.lookup id).map (· + k) := by
  induction pairs with
  | nil => rfl
  | cons pair pairs ih =>
    rw [moved, List.map_cons, List.lookup_cons, List.lookup_cons, ← moved, ih]
    by_cases heq : id = pair.1
    · simp [heq]
    · simp [beq_false_of_ne heq, beq_false_of_ne (hinj.ne heq)]

section copy

variable {rename : StateId → StateId} {part : Set StateId} (he : Embeds rename part a b) (hf : a.owns f)
  (hg : b.owns (f.renamed rename)) (hentry : f.entry ∈ part) (hexit : f.exit ∈ part)
include he hf hg hentry hexit

/-- The new names of the states of a fragment differ in the two automata by the gap. -/
private theorem pairsOf_renamed : pairsOf b (f.renamed rename) = moved rename (gap base ambient) (pairsOf a f) := by
  rw [pairsOf, (he.members_eq h.wellFormed h.wellFormed' hf hg hentry hexit).1, h.size, Nat.add_comm,
    ← List.map_snd_add_zipIdx_eq_zipIdx, List.zipIdx_map]
  simp [moved, pairsOf]

/-- The states that have been added for a copy are filled in. -/
private theorem fillIn_pairsOf {c d : Automaton} (h' : Alongside base ambient c d)
    (hsize : c.size = a.size + (a.members f).length) (hstate : ∀ p < a.size, c.state? p = a.state? p)
    (hstate' : ∀ p < b.size, d.state? p = b.state? p) :
    c.Grows (fillIn (pairsOf a f) c) ∧
      Alongside base ambient (fillIn (pairsOf a f) c) (fillIn (pairsOf b (f.renamed rename)) d) := by
  obtain ⟨hmembers, hpart⟩ := he.members_eq h.wellFormed h.wellFormed' hf hg hentry hexit
  have hnaming : Naming (pairsOf a f) a.size c.size := hsize ▸ naming_pairsOf h.wellFormed hf
  have hmem {pair : StateId × StateId} (hpair : pair ∈ pairsOf a f) : pair.1 ∈ a.members f :=
    List.fst_mem_of_mem_zipIdx hpair
  have hlt {p : StateId} (hp : p ∈ a.members f) : rename p < b.size :=
    members_lt h.wellFormed' hg (hmembers ▸ List.mem_map_of_mem hp)
  rw [pairsOf_renamed h he hf hg hentry hexit]
  refine ⟨grows_fillIn h'.wellFormed hnaming, h'.fillIn (fun pair hpair => ?_) hnaming h.since.grows.size_le
    he.strictMono.injective fun pair hpair => h.size ▸ hlt (hmem hpair)⟩
  rw [hstate' _ (hlt (hmem hpair)), hstate _ (hnaming.fresh pair hpair).1, he.state _ (hpart _ (hmem hpair))]

end copy

/-- Whatever part of the two automata a fragment belongs to, its copies are the same. -/
theorem copy {rename : StateId → StateId} {part : Set StateId} (he : Embeds rename part a b)
    (hf : a.owns f) (hentry : f.entry ∈ part) (hexit : f.exit ∈ part) :
    Follows base ambient (copy f) (copy (f.renamed rename)) a b
      fun f g a' _ => Paired base ambient a' f g := by
  refine (check h hf).bind fun _ _ _ _ _ h hresult => ?_
  obtain ⟨rfl, rfl, hg⟩ := hresult
  refine (ensureMutable h).bind fun _ _ _ _ _ h hresult => ?_
  obtain ⟨rfl, rfl⟩ := hresult
  refine (get h).bind fun _ _ a b _ h hresult => ?_
  obtain ⟨rfl, rfl, rfl, rfl⟩ := hresult
  have hlength : (a.members f).length = (b.members (f.renamed rename)).length := by
    rw [(he.members_eq h.wellFormed h.wellFormed' hf hg hentry hexit).1, List.length_map]
  refine (duplicate h hlength).bind fun pairs pairs' c d _ h' hresult => ?_
  obtain ⟨rfl, rfl, hsize, hstate, hstate'⟩ := hresult
  rw [List.reverse_nil, List.nil_append, List.nil_append, ← pairsOf, ← pairsOf]
  obtain ⟨hgrows, hfilled⟩ := fillIn_pairsOf h he hf hg hentry hexit h' hsize hstate hstate'
  refine (update hgrows hfilled).bind fun _ _ _ _ hc h'' hresult => ?_
  obtain ⟨rfl, rfl⟩ := hresult
  obtain ⟨p, hp, hentry'⟩ : ∃ p, (pairsOf a f).lookup f.entry = some p ∧ (f.entry, p) ∈ pairsOf a f :=
    exists_lookup (entry_mem_members a f)
  obtain ⟨q, hq, hexit'⟩ : ∃ q, (pairsOf a f).lookup f.exit = some q ∧ (f.exit, q) ∈ pairsOf a f :=
    exists_lookup (exit_mem_members a f)
  have hnew {p q : StateId} (hpair : (p, q) ∈ pairsOf a f) : New base (fillIn (pairsOf a f) c) q :=
    ⟨Nat.le_trans h.since.grows.size_le (List.le_snd_of_mem_zipIdx hpair),
      Nat.lt_of_lt_of_le (hsize ▸ List.snd_lt_add_of_mem_zipIdx hpair) hgrows.size_le⟩
  have hlookup {id new : StateId} (hid : (pairsOf a f).lookup id = some new) :
      (pairsOf b (f.renamed rename)).lookup (rename id) = some (new + gap base ambient) := by
    rw [pairsOf_renamed h he hf hg hentry hexit, lookup_moved he.strictMono.injective, hid, Option.map_some]
  have hp' : _ = some (p + gap base ambient) := hlookup hp
  have hq' : _ = some (q + gap base ambient) := hlookup hq
  refine pure h'' ⟨?_, ?_, ?_⟩
  · rw [hp, hq]
    exact congrArg₂ Fragment.mk (congrArg (Option.getD · _) hp') (congrArg (Option.getD · _) hq')
  · rw [hp]
    exact hnew hentry'
  · rw [hq]
    exact hnew hexit'

/-- New fragments are copied alongside each other. -/
theorem copy_paired (hf : Paired base ambient a f g) :
    Follows base ambient (Builder.copy f) (Builder.copy g) a b fun f g a' _ => Paired base ambient a' f g := by
  obtain rfl := hf.eq
  exact copy h h.embeds hf.owns hf.entry.1 hf.exit.1

/-- So are the definitions of the prelude. -/
theorem instantiate (name : String) : Follows base ambient (instantiate name) (instantiate name) a b
    fun f g a' _ => Paired base ambient a' f g := by
  refine (get h).bind fun _ _ a b _ h hresult => ?_
  obtain ⟨rfl, rfl, rfl, rfl⟩ := hresult
  rw [h.definitions]
  cases hlookup : a.definitions.lookup name with
  | none => exact throw
  | some f =>
    rw [h.since.definitions] at hlookup
    have hbase := h.extends_base.prelude
    have howns := hbase.wellFormed.owned name f hlookup
    obtain ⟨hentry, hexit⟩ := hbase.apart name f hlookup
    have hcopy := copy h h.embeds_prelude (h.since.grows.owns howns) ⟨(owns_iff.1 howns).1, hentry⟩
      ⟨(owns_iff.1 howns).2, hexit⟩
    rwa [Fragment.renamed_id] at hcopy

theorem copies (hf : Paired base ambient a f g) {made made' : List Fragment}
    (hmade : List.Forall₂ (Paired base ambient a) made made') (n : Nat) :
    Follows base ambient (copies f n made) (copies g n made') a b
      fun parts parts' a' _ => List.Forall₂ (Paired base ambient a') parts parts' := by
  induction n generalizing a b made made' with
  | zero => exact pure h hmade
  | succ n ih =>
    refine (copy_paired h hf).bind fun k k' c _ hgrows h hk => ?_
    exact ih h (hf.grows hgrows) (.cons hk (hmade.imp fun _ _ hpair => hpair.grows hgrows))

theorem optionalCopies (hf : Paired base ambient a f g) {exit last : StateId} (hexit : New base a exit)
    (hlast : New base a last) (n : Nat) :
    Follows base ambient (optionalCopies f exit n last)
      (optionalCopies g (exit + gap base ambient) n (last + gap base ambient)) a b
      fun last last' a' _ => New base a' last ∧ last' = last + gap base ambient := by
  induction n generalizing a b last with
  | zero => exact pure h ⟨hlast, rfl⟩
  | succ n ih =>
    refine (copy_paired h hf).bind fun k k' c _ hc h hk => ?_
    obtain rfl := hk.eq
    refine (addEpsilon h (hlast.grows hc) (hexit.grows hc)).bind fun _ _ d _ hd h _ => ?_
    refine (addEpsilon h (hlast.grows (hc.trans hd)) (hk.grows hd).entry).bind fun _ _ e _ he h _ => ?_
    replace hd := hd.trans he
    exact ih h (hf.grows (hc.trans hd)) (hexit.grows (hc.trans hd)) (hk.grows hd).exit

theorem upTo (hf : Paired base ambient a f g) (n : Nat) :
    Follows base ambient (upTo f n) (upTo g n) a b fun f g a' _ => Paired base ambient a' f g := by
  refine (fragment h).bind fun k k' c _ hc h hk => ?_
  obtain rfl := hk.eq
  refine (optionalCopies h (hf.grows hc) hk.exit hk.entry n).bind fun last _ d _ hd h hresult => ?_
  obtain ⟨hlast, rfl⟩ := hresult
  refine (addEpsilon h hlast (hk.grows hd).exit).bind fun _ _ e _ he h _ => ?_
  exact pure h (hk.grows (hd.trans he))

theorem withMore (hf : Paired base ambient a f g) (min : Nat) (max : Option Nat)
    {required required' : List Fragment}
    (hrequired : List.Forall₂ (Paired base ambient a) required required') :
    Follows base ambient (withMore f min max required) (withMore g min max required') a b
      fun f g a' _ => Paired base ambient a' f g := by
  have hreverse {c : Automaton} {k k' : Fragment} (hgrows : a.Grows c) (hk : Paired base ambient c k k') :
      List.Forall₂ (Paired base ambient c) (k :: required).reverse (k' :: required').reverse :=
    List.forall₂_reverse_iff.2 (.cons hk (hrequired.imp fun _ _ hpair => hpair.grows hgrows))
  unfold Builder.withMore
  cases max with
  | none =>
    refine (copy_paired h hf).bind fun k k' c _ hc h hk => ?_
    refine (star h hk).bind fun k k' d _ hd h hk => ?_
    exact sequence h (hreverse (hc.trans hd) hk)
  | some max =>
    dsimp only
    split
    · refine (upTo h hf (max - min)).bind fun k k' c _ hc h hk => ?_
      exact sequence h (hreverse hc hk)
    · exact sequence h (List.forall₂_reverse_iff.2 hrequired)

theorem repeated (hf : Paired base ambient a f g) (min : Nat) (max : Option Nat) :
    Follows base ambient (repeated f min max) (repeated g min max) a b
      fun f g a' _ => Paired base ambient a' f g := by
  refine (check h hf.owns).bind fun _ _ a b _ h hresult => ?_
  obtain ⟨rfl, rfl, -⟩ := hresult
  have hcopies : Follows base ambient
      (do
        let limit := (← MonadState.get).config.stateLimit
        if min ≥ limit then MonadExcept.throw (ConstructionError.stateLimit limit)
        Builder.withMore f min max (← Builder.copies f min []))
      (do
        let limit := (← MonadState.get).config.stateLimit
        if min ≥ limit then MonadExcept.throw (ConstructionError.stateLimit limit)
        Builder.withMore g min max (← Builder.copies g min [])) a b
      fun f g a' _ => Paired base ambient a' f g := by
    refine (get h).bind fun _ _ a b _ h hresult => ?_
    obtain ⟨rfl, rfl, rfl, rfl⟩ := hresult
    rw [h.config]
    dsimp only
    split
    · exact throw_bind
    · refine (copies h hf .nil min).bind fun made made' c _ hc h hmade => ?_
      exact withMore h (hf.grows hc) min max hmade
  cases max with
  | none => exact hcopies
  | some max =>
    dsimp only
    split
    · exact throw_bind
    · exact hcopies

end Follows

end Builder

end TableLexer
