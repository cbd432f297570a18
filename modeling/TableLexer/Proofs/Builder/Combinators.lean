import TableLexer.Automaton.Combinators
import TableLexer.Proofs.Builder.Leads
import TableLexer.Proofs.Symbol

/-! What the combinators add to an automaton. Except for copies, they add states and edges only. -/
namespace TableLexer

/-- The graph of a chain that leads from a state through the states from `next` on. -/
def chain (last next : StateId) : List Symbol → Graph
  | [] => ⊥
  | s :: w => arc last (some s) next ⊔ chain next (next + 1) w

/-- The end of a chain. -/
def chainEnd (last next : Nat) : List Symbol → Nat
  | [] => last
  | _ :: w => chainEnd next (next + 1) w

/-- The bridges by which fragments are appended to a first one. -/
def joints (first : Fragment) : List Fragment → Graph
  | [] => ⊥
  | part :: parts => bridge first.exit part.entry ⊔ joints ⟨first.entry, part.exit⟩ parts

/-- The fragment that results when fragments are appended to a first one. -/
def joined (first : Fragment) : List Fragment → Fragment
  | [] => first
  | part :: parts => joined ⟨first.entry, part.exit⟩ parts

namespace Automaton

variable {a : Automaton} {entry exit : StateId}

/-- The symbol edges of an entry lead to the exit. -/
def Funnels (a : Automaton) (entry exit : StateId) : Prop := ∀ s q, a.Edge entry (some s) q → q = exit

theorem Idle.funnels (h : a.Idle entry) (exit : StateId) : a.Funnels entry exit :=
  fun s q edge => absurd edge (h (some s) q)

theorem Funnels.free (h : a.Funnels entry exit) (s : Symbol) :
    a.transition? entry s = none ∨ a.transition? entry s = some exit := by
  cases ht : a.transition? entry s with
  | none => exact .inl rfl
  | some q => exact .inr (congrArg some (h s q ht))

end Automaton

namespace Builder

open Automaton

variable {a : Automaton} {f g : Fragment} {source target : StateId} {s : Symbol}

namespace Leads

theorem ensureMutable (ha : a.WellFormed) : Leads ensureMutable a fun _ b => b = a := by
  refine (get ha).bind fun _ b hb => ?_
  intro hresult
  obtain ⟨rfl, rfl⟩ := hresult
  split
  · exact throw ha
  · exact pure ha rfl

theorem check (ha : a.WellFormed) (f : Fragment) : Leads (check f) a fun _ b => b = a ∧ a.owns f := by
  refine (get ha).bind fun _ b hb => ?_
  intro hresult
  obtain ⟨rfl, rfl⟩ := hresult
  split
  · next hf => exact pure ha ⟨rfl, hf⟩
  · exact throw ha

theorem newState (ha : a.WellFormed) :
    Leads newState a fun id b => id = a.size ∧ b = a.extended := by
  refine (get ha).bind fun _ b hb => ?_
  intro hresult
  obtain ⟨rfl, rfl⟩ := hresult
  split
  · exact throw_bind ha
  · next hlimit =>
    refine (modifyGet (.extended ha (Nat.lt_of_not_le hlimit))).mono fun id b _ h => ?_
    obtain ⟨rfl, rfl⟩ := Prod.mk.inj h
    exact ⟨rfl, rfl⟩

theorem addEpsilon (ha : a.WellFormed) (hsource : source < a.size) (htarget : target < a.size) :
    Leads (addEpsilon source target) a fun _ b => a.Adds b (bridge source target) := by
  refine (ensureMutable ha).bind fun _ b _ => ?_
  intro heq
  obtain rfl := heq
  split
  · next hne =>
    refine (modify (.modifyState ha source fun q hq => hq.addEpsilon htarget)).mono ?_
    intro _ b _ heq
    obtain rfl := heq
    refine ⟨?_, (Adds.addEpsilon hsource).terminal, rfl, rfl, rfl⟩
    rw [(Adds.addEpsilon hsource).edge]
    congr 1
    funext p l q
    simp [bridge, hne]
  · next heq =>
    refine pure ha ⟨?_, rfl, rfl, rfl, rfl⟩
    refine (sup_eq_left.2 ?_).symm
    intro p l q hresult
    obtain ⟨hne, -⟩ := hresult
    exact absurd hne heq

/-- A transition is added as it is if there is none on its symbol yet. -/
theorem addTransition (ha : a.WellFormed) (hsource : source < a.size) (htarget : target < a.size)
    (hfree : a.transition? source s = none ∨ a.transition? source s = some target) :
    Leads (addTransition source s target) a fun _ b =>
      b.size = a.size ∧ a.Adds b (arc source (some s) target) := by
  refine (ensureMutable ha).bind fun _ b _ => ?_
  intro heq
  obtain rfl := heq
  refine (get ha).bind fun _ c _ => ?_
  intro hresult
  obtain ⟨rfl, rfl⟩ := hresult
  have hsame : (c.state? source).bind (·.transition s) = c.transition? source s := rfl
  rw [hsame]
  rcases hfree with hnone | hsome
  · rw [hnone]
    refine (modify (.modifyState ha source fun q hq => hq.setTransition s htarget)).mono ?_
    intro _ b _ heq
    obtain rfl := heq
    exact ⟨size_modifyState .., .setTransition hsource hnone⟩
  · rw [hsome]
    dsimp only
    rw [if_pos rfl]
    exact pure ha ⟨rfl, .present hsome⟩

theorem fragment (ha : a.WellFormed) :
    Leads fragment a fun f b => f = ⟨a.size, a.size + 1⟩ ∧ b.owns f ∧ a.Adds b ⊥ := by
  refine (ensureMutable ha).bind fun _ b _ => ?_
  intro heq
  obtain rfl := heq
  refine (newState ha).bind fun entry c hc => ?_
  intro hresult
  obtain ⟨rfl, rfl⟩ := hresult
  refine (newState hc.wellFormed).bind fun exit d hd => ?_
  intro hresult
  obtain ⟨rfl, rfl⟩ := hresult
  have hsize : b.extended.extended.size = b.size + 2 := by rw [size_extended, size_extended]
  rw [size_extended]
  refine pure hd.wellFormed ⟨rfl, owns_iff.2 ⟨?_, ?_⟩, ?_⟩
  · show b.size < b.extended.extended.size
    omega
  · show b.size + 1 < b.extended.extended.size
    omega
  · simpa using (Adds.extended b).trans (.extended b.extended)

theorem epsilon (ha : a.WellFormed) :
    Leads epsilon a fun f b =>
      f = ⟨a.size, a.size + 1⟩ ∧ b.owns f ∧ a.Adds b (bridge f.entry f.exit) := by
  refine (fragment ha).bind fun f b hb => ?_
  intro hadded
  obtain ⟨hf, howns, hadds⟩ := hadded
  obtain ⟨hentry, hexit⟩ := owns_iff.1 howns
  refine (addEpsilon hb.wellFormed hentry hexit).bind fun _ c hc hbridge => ?_
  exact pure hc.wellFormed ⟨hf, hc.owns howns, by simpa using hadds.trans hbridge⟩

theorem literal (ha : a.WellFormed) (s : Symbol) :
    Leads (literal s) a fun f b =>
      f = ⟨a.size, a.size + 1⟩ ∧ b.owns f ∧ a.Adds b (arc f.entry (some s) f.exit) := by
  refine (fragment ha).bind fun f b hb => ?_
  intro hadded
  obtain ⟨rfl, howns, hadds⟩ := hadded
  obtain ⟨hentry, hexit⟩ := owns_iff.1 howns
  have hidle := hadds.idle (idle_of_size_le (Nat.le_refl a.size)) fun _ _ => id
  refine (addTransition hb.wellFormed hentry hexit (.inl (hidle.transition?_eq_none s))).bind
    fun _ c hc => ?_
  intro hresult
  obtain ⟨-, harc⟩ := hresult
  exact pure hc.wellFormed ⟨rfl, hc.owns howns, by simpa using hadds.trans harc⟩

/-- A chain from `last` through new states spells the text. -/
theorem spell {text : List Char} {last : StateId} (ha : a.WellFormed) (hlast : last < a.size)
    (hidle : a.Idle last) :
    Leads (spell last text) a fun exit b => exit < b.size ∧ ∃ w, Symbol.word? text = some w ∧
      exit = chainEnd last a.size w ∧ a.Adds b (chain last a.size w) := by
  induction text generalizing a last with
  | nil => exact pure ha ⟨hlast, [], rfl, rfl, .refl a⟩
  | cons c rest ih =>
    rw [Builder.spell]
    cases hs : Symbol.ofChar? c with
    | none => exact throw ha
    | some s =>
      refine (newState ha).bind fun next b hb => ?_
      intro hresult
      obtain ⟨rfl, rfl⟩ := hresult
      have hextended := Adds.extended a
      have hfree := hextended.idle hidle fun _ _ => id
      have hnext := hextended.idle (idle_of_size_le (Nat.le_refl a.size)) fun _ _ => id
      have hlt : a.size < a.extended.size := by rw [size_extended]; exact Nat.lt_succ_self _
      refine (addTransition hb.wellFormed (Nat.lt_of_lt_of_le hlast hb.size_le) hlt
        (.inl (hfree.transition?_eq_none s))).bind fun _ c hc => ?_
      intro hresult
      obtain ⟨hsize, harc⟩ := hresult
      have hne : a.size ≠ last := (Nat.ne_of_lt hlast).symm
      refine (ih hc.wellFormed (hsize ▸ hlt) (harc.idle hnext fun l q h => hne h.1)).mono ?_
      intro exit d _ hword
      obtain ⟨hexit, w, hw, rfl, hchain⟩ := hword
      rw [hsize, size_extended] at hexit hchain ⊢
      refine ⟨hexit, s :: w, ?_, rfl, ?_⟩
      · rw [Symbol.word?] at hw ⊢
        rw [List.mapM_cons, hs, hw]
        rfl
      · simpa [chain] using (hextended.trans harc).trans hchain

theorem string (ha : a.WellFormed) (text : String) :
    Leads (string text) a fun f b => b.owns f ∧ ∃ w, Symbol.word? text.toList = some w ∧
      (w = [] ∧ f = ⟨a.size, a.size + 1⟩ ∧ a.Adds b (bridge f.entry f.exit) ∨
        w ≠ [] ∧ f = ⟨a.size, chainEnd a.size (a.size + 1) w⟩ ∧
          a.Adds b (chain a.size (a.size + 1) w)) := by
  rw [Builder.string]
  split
  · next hempty =>
    obtain rfl : text = "" := by simpa using hempty
    refine (epsilon ha).mono ?_
    intro f b _ hadded
    obtain ⟨hf, howns, hbridge⟩ := hadded
    exact ⟨howns, [], rfl, .inl ⟨rfl, hf, hbridge⟩⟩
  · next hne =>
    refine (ensureMutable ha).bind fun _ b _ => ?_
    intro heq
    obtain rfl := heq
    refine (newState ha).bind fun entry c hc => ?_
    intro hresult
    obtain ⟨rfl, rfl⟩ := hresult
    have hextended := Adds.extended b
    have hlt : b.size < b.extended.size := by rw [size_extended]; exact Nat.lt_succ_self _
    refine (spell hc.wellFormed hlt
      (hextended.idle (idle_of_size_le (Nat.le_refl b.size)) fun _ _ => id)).bind fun exit d hd => ?_
    intro hword
    obtain ⟨hexit, w, hw, rfl, hchain⟩ := hword
    rw [size_extended] at hexit hchain ⊢
    refine pure hd.wellFormed ⟨owns_iff.2 ⟨Nat.lt_of_lt_of_le hlt hd.size_le, hexit⟩, w, hw, .inr ?_⟩
    refine ⟨?_, rfl, by simpa using hextended.trans hchain⟩
    intro heq
    obtain rfl := heq
    have hlength := Symbol.length_of_word? hw
    exact hne (String.isEmpty_iff.2 (String.toList_eq_nil_iff.1 (List.length_eq_zero_iff.1 hlength.symm)))

/-- A loop adds what it adds for each of its items, if these can count on an invariant. -/
theorem forM {ι : Type} {items : List ι} {step : ι → Builder PUnit} {new : ι → Graph}
    (inv : Automaton → Prop) (ha : a.WellFormed) (hinv : inv a)
    (hstep : ∀ x ∈ items, ∀ b, a.Grows b → inv b →
      Leads (step x) b fun _ c => inv c ∧ b.Adds c (new x)) :
    Leads (items.forM step) a fun _ b => a.Adds b fun p l q => ∃ x ∈ items, new x p l q := by
  induction items generalizing a with
  | nil =>
    refine pure ha ?_
    convert Adds.refl a using 1
    funext p l q
    simp
  | cons x items ih =>
    rw [List.forM_eq_forM, List.forM_cons]
    refine (hstep x List.mem_cons_self a (.refl ha) hinv).bind fun _ b hb => ?_
    intro hadded
    obtain ⟨hinv', hadds⟩ := hadded
    refine (ih hb.wellFormed hinv' fun y hy c hc => ?_).mono ?_
    · exact hstep y (List.mem_cons_of_mem x hy) c (hb.trans hc)
    · intro _ c _ hrest
      convert hadds.trans hrest using 1
      funext p l q
      simp

/-- An entry whose transitions lead to the exit keeps that when another one is added. -/
theorem addTransition_funnels (ha : a.WellFormed) (hf : a.owns f) (hfunnels : a.Funnels f.entry f.exit)
    (s : Symbol) : Leads (Builder.addTransition f.entry s f.exit) a fun _ b =>
      b.Funnels f.entry f.exit ∧ a.Adds b (arc f.entry (some s) f.exit) := by
  obtain ⟨hentry, hexit⟩ := owns_iff.1 hf
  refine (addTransition ha hentry hexit (hfunnels.free s)).mono ?_
  intro _ b _ hresult
  obtain ⟨-, harc⟩ := hresult
  refine ⟨fun t q edge => ?_, harc⟩
  rcases harc.edge_iff.1 edge with edge | hnew
  · exact hfunnels t q edge
  · exact hnew.2.2

theorem symbols (ha : a.WellFormed) (chosen : List Symbol) :
    Leads (symbols chosen) a fun f b => f = ⟨a.size, a.size + 1⟩ ∧ b.owns f ∧
      a.Adds b fun p l q => ∃ s ∈ chosen, arc f.entry (some s) f.exit p l q := by
  refine (fragment ha).bind fun f b hb => ?_
  intro hadded
  obtain ⟨rfl, howns, hadds⟩ := hadded
  have hidle := hadds.idle (idle_of_size_le (Nat.le_refl a.size)) fun _ _ => id
  have hloop : Leads (chosen.forM fun s => Builder.addTransition a.size s (a.size + 1)) b fun _ c =>
      b.Adds c fun p l q => ∃ s ∈ chosen, arc a.size (some s) (a.size + 1) p l q :=
    forM (·.Funnels a.size (a.size + 1)) hb.wellFormed (hidle.funnels _) fun s _ c hc hinv =>
      addTransition_funnels hc.wellFormed (hc.owns howns) hinv s
  refine hloop.bind fun _ c hc hnew => ?_
  exact pure hc.wellFormed ⟨rfl, hc.owns howns, by simpa using hadds.trans hnew⟩

theorem append (ha : a.WellFormed) (f g : Fragment) :
    Leads (append f g) a fun h b => h = ⟨f.entry, g.exit⟩ ∧ a.owns f ∧ a.owns g ∧
      a.Adds b (bridge f.exit g.entry) := by
  refine (check ha f).bind fun _ b _ => ?_
  intro hresult
  obtain ⟨rfl, hf⟩ := hresult
  refine (check ha g).bind fun _ c _ => ?_
  intro hresult
  obtain ⟨rfl, hg⟩ := hresult
  refine (addEpsilon ha (owns_iff.1 hf).2 (owns_iff.1 hg).1).bind fun _ d hd hbridge => ?_
  exact pure hd.wellFormed ⟨rfl, hf, hg, hbridge⟩

/-- Fragments are appended by one bridge after the other. -/
theorem foldlM_append {parts : List Fragment} (ha : a.WellFormed) (first : Fragment) :
    Leads (parts.foldlM Builder.append first) a fun f b =>
      f = joined first parts ∧ a.Adds b (joints first parts) := by
  induction parts generalizing a first with
  | nil => exact pure ha ⟨rfl, .refl a⟩
  | cons part parts ih =>
    rw [List.foldlM_cons]
    refine (append ha first part).bind fun f b hb => ?_
    intro hresult
    obtain ⟨rfl, -, -, hbridge⟩ := hresult
    refine (ih hb.wellFormed _).mono ?_
    intro f c _ hresult
    obtain ⟨hf, hrest⟩ := hresult
    exact ⟨hf, hbridge.trans hrest⟩

theorem forM_check {parts : List Fragment} (ha : a.WellFormed) :
    Leads (parts.forM Builder.check) a fun _ b => b = a ∧ ∀ part ∈ parts, a.owns part := by
  induction parts with
  | nil => exact pure ha ⟨rfl, by simp⟩
  | cons part parts ih =>
    rw [List.forM_eq_forM, List.forM_cons]
    refine (check ha part).bind fun _ b _ => ?_
    intro hresult
    obtain ⟨rfl, hpart⟩ := hresult
    refine ih.mono ?_
    intro _ c _ hresult
    obtain ⟨rfl, hparts⟩ := hresult
    exact ⟨rfl, List.forall_mem_cons.2 ⟨hpart, hparts⟩⟩

/-- A part is put between an entry and an exit. -/
theorem enclose (ha : a.WellFormed) (hf : a.owns f) (hg : a.owns g) :
    Leads (do Builder.addEpsilon f.entry g.entry; Builder.addEpsilon g.exit f.exit) a fun _ b =>
      a.Adds b (bridge f.entry g.entry ⊔ bridge g.exit f.exit) := by
  obtain ⟨hentry, hexit⟩ := owns_iff.1 hf
  obtain ⟨hin, hout⟩ := owns_iff.1 hg
  refine (addEpsilon ha hentry hin).bind fun _ b hb hfirst => ?_
  refine (addEpsilon hb.wellFormed (Nat.lt_of_lt_of_le hout hb.size_le)
    (Nat.lt_of_lt_of_le hexit hb.size_le)).mono fun _ c _ hsecond => ?_
  exact hfirst.trans hsecond

theorem alternate (ha : a.WellFormed) (parts : List Fragment) :
    Leads (alternate parts) a fun f b => f = ⟨a.size, a.size + 1⟩ ∧ b.owns f ∧
      (∀ part ∈ parts, a.owns part) ∧ a.Adds b fun p l q => ∃ part ∈ parts,
        (bridge f.entry part.entry ⊔ bridge part.exit f.exit) p l q := by
  rw [Builder.alternate]
  split
  · exact throw_bind ha
  · refine (forM_check ha).bind fun _ b _ => ?_
    intro hresult
    obtain ⟨rfl, hparts⟩ := hresult
    refine (fragment ha).bind fun f c hc => ?_
    intro hadded
    obtain ⟨rfl, howns, hadds⟩ := hadded
    have hloop : Leads (parts.forM fun part => do
        Builder.addEpsilon b.size part.entry
        Builder.addEpsilon part.exit (b.size + 1)) c fun _ d =>
          c.Adds d fun p l q => ∃ part ∈ parts,
            (bridge b.size part.entry ⊔ bridge part.exit (b.size + 1)) p l q :=
      forM (fun _ => True) hc.wellFormed trivial fun part hpart d hd _ =>
        (enclose hd.wellFormed (hd.owns howns) (hd.owns (hc.owns (hparts part hpart)))).mono
          fun _ _ _ hadds => ⟨trivial, hadds⟩
    refine hloop.bind fun _ d hd hnew => ?_
    exact pure hd.wellFormed ⟨rfl, hd.owns howns, hparts, by simpa using hadds.trans hnew⟩

theorem optional (ha : a.WellFormed) (f : Fragment) :
    Leads (optional f) a fun g b => g = f ∧ a.owns f ∧ a.Adds b (bridge f.entry f.exit) := by
  refine (check ha f).bind fun _ b _ => ?_
  intro hresult
  obtain ⟨rfl, hf⟩ := hresult
  refine (addEpsilon ha (owns_iff.1 hf).1 (owns_iff.1 hf).2).bind fun _ c hc hbridge => ?_
  exact pure hc.wellFormed ⟨rfl, hf, hbridge⟩

theorem star (ha : a.WellFormed) (f : Fragment) :
    Leads (star f) a fun g b => g = ⟨a.size, a.size + 1⟩ ∧ b.owns g ∧ a.owns f ∧
      a.Adds b (bridge g.entry g.exit ⊔ bridge g.entry f.entry ⊔ bridge f.exit g.exit ⊔
        bridge g.exit g.entry) := by
  refine (check ha f).bind fun _ b _ => ?_
  intro hresult
  obtain ⟨rfl, hf⟩ := hresult
  refine (fragment ha).bind fun g c hc => ?_
  intro hadded
  obtain ⟨rfl, howns, hadds⟩ := hadded
  obtain ⟨hentry, hexit⟩ := owns_iff.1 howns
  obtain ⟨hentry', hexit'⟩ := owns_iff.1 (hc.owns hf)
  refine (addEpsilon hc.wellFormed hentry hexit).bind fun _ d hd h₁ => ?_
  refine (addEpsilon hd.wellFormed (Nat.lt_of_lt_of_le hentry hd.size_le)
    (Nat.lt_of_lt_of_le hentry' hd.size_le)).bind fun _ d₂ hd₂ h₂ => ?_
  replace hd := hd.trans hd₂
  refine (addEpsilon hd.wellFormed (Nat.lt_of_lt_of_le hexit' hd.size_le)
    (Nat.lt_of_lt_of_le hexit hd.size_le)).bind fun _ d₃ hd₃ h₃ => ?_
  replace hd := hd.trans hd₃
  refine (addEpsilon hd.wellFormed (Nat.lt_of_lt_of_le hexit hd.size_le)
    (Nat.lt_of_lt_of_le hentry hd.size_le)).bind fun _ d₄ hd₄ h₄ => ?_
  refine pure hd₄.wellFormed ⟨rfl, (hd.trans hd₄).owns howns, hf, ?_⟩
  simpa using hadds.trans (((h₁.trans h₂).trans h₃).trans h₄)

theorem plus (ha : a.WellFormed) (f : Fragment) :
    Leads (plus f) a fun g b => g = ⟨a.size, f.exit⟩ ∧ b.owns g ∧ a.owns f ∧
      a.Adds b (bridge g.entry f.entry ⊔ bridge f.exit g.entry) := by
  refine (check ha f).bind fun _ b _ => ?_
  intro hresult
  obtain ⟨rfl, hf⟩ := hresult
  refine (ensureMutable ha).bind fun _ c _ => ?_
  intro heq
  obtain rfl := heq
  refine (newState ha).bind fun entry d hd => ?_
  intro hresult
  obtain ⟨rfl, rfl⟩ := hresult
  have hlt : c.size < c.extended.size := by rw [size_extended]; exact Nat.lt_succ_self _
  obtain ⟨hentry, hexit⟩ := owns_iff.1 (hd.owns hf)
  refine (addEpsilon hd.wellFormed hlt hentry).bind fun _ e he h₁ => ?_
  refine (addEpsilon he.wellFormed (Nat.lt_of_lt_of_le hexit he.size_le)
    (Nat.lt_of_lt_of_le hlt he.size_le)).bind fun _ g hg h₂ => ?_
  have hgrows := he.trans hg
  refine pure hg.wellFormed ⟨rfl, owns_iff.2 ⟨?_, ?_⟩, hf, ?_⟩
  · exact Nat.lt_of_lt_of_le hlt hgrows.size_le
  · exact Nat.lt_of_lt_of_le hexit hgrows.size_le
  · simpa using (Adds.extended c).trans (h₁.trans h₂)

end Leads

end Builder

end TableLexer
