import TableLexer.Proofs.Pattern.Repeat

/-! Whatever a pattern is built into stands for the language of the pattern. -/
namespace TableLexer

open Computability

namespace Automaton

variable {a b : Automaton} {meaning : Meaning}

/-- The definitions of an automaton stand for what the names mean, and their pieces do not contain
the initial state. -/
def Means (a : Automaton) (meaning : Meaning) : Prop :=
  ∀ name f, a.definitions.lookup name = some f → ∃ K : Piece, K.fragment = f ∧
    K.language = meaning name ∧ a.Has K ∧ a.initial ∉ K.states

theorem Means.keep (h : a.Means meaning) (hgrows : a.Grows b) (hframe : Frame a.size a b) :
    b.Means meaning := by
  intro name f hf
  rw [hframe.definitions] at hf
  obtain ⟨K, hK, hlanguage, hhas, hinitial⟩ := h name f hf
  exact ⟨K, hK, hlanguage, hhas.keep hgrows hframe, hframe.initial ▸ hinitial⟩

end Automaton

namespace Pattern

open Automaton Builder

variable {a b : Automaton} {meaning : Meaning} {p : Pattern}

/-- The pattern has been built into a piece for its language. -/
def Built (meaning : Meaning) (p : Pattern) (a : Automaton) (f : Fragment) (b : Automaton) : Prop :=
  ∃ K : Piece, K.fragment = f ∧ K.language = p.denote meaning ∧ Builds a b K ∧
    (p.isOpen = true → K.Open b.Edge)

private theorem literal_built (ha : a.WellFormed) (text : String) :
    Leads (literal text).build a (Built meaning (literal text) a) := by
  show Leads (Builder.string text) a _
  refine (Leads.string ha text).mono ?_
  intro f b _ hadded
  rcases hadded with ⟨howns, w, hw, ⟨rfl, rfl, hadds⟩ | ⟨hne, rfl, hadds⟩⟩
  · obtain ⟨hbuilds, hopen⟩ := Builds.atom howns hadds fun p l q h => ⟨h.2.1, h.2.2.2⟩
    refine ⟨_, rfl, (Piece.language_atom_bridge a.size).trans ?_, hbuilds, fun _ => hopen⟩
    ext w
    rw [Language.mem_one]
    exact ⟨fun h => h ▸ hw, fun h => Option.some.inj (h.symm.trans hw)⟩
  · obtain ⟨hbuilds, hopen⟩ := Builds.ofChain hne howns hadds
    refine ⟨_, rfl, ?_, hbuilds, fun _ => hopen⟩
    ext v
    exact ⟨fun h => (show v = w from h) ▸ hw, fun h => Option.some.inj (h.symm.trans hw)⟩

/-- A pattern for single symbols is built by one edge for each of them. -/
private theorem symbols_built (ha : a.WellFormed) {chosen : List Symbol}
    (hbuild : p.build = symbols chosen)
    (hdenote : ∀ w, w ∈ p.denote meaning ↔ ∃ s ∈ chosen, w = [s]) :
    Leads p.build a (Built meaning p a) := by
  rw [hbuild]
  refine (Leads.symbols ha chosen).mono ?_
  intro f b _ hadded
  obtain ⟨rfl, howns, hadds⟩ := hadded
  obtain ⟨hbuilds, hopen⟩ := Builds.atom howns hadds fun p l q ⟨s, _, h⟩ => ⟨h.1, h.2.2⟩
  refine ⟨_, rfl, ?_, hbuilds, fun _ => hopen⟩
  ext w
  rw [hdenote]
  constructor
  · intro hresult
    obtain ⟨l, ⟨s, hs, -, rfl, -⟩, rfl⟩ := hresult
    exact ⟨s, hs, rfl⟩
  · intro hresult
    obtain ⟨s, hs, rfl⟩ := hresult
    exact ⟨some s, ⟨s, hs, rfl, rfl, rfl⟩, rfl⟩

/-- The patterns of a list have been built one after the other into pieces for their languages. -/
def BuiltAll (meaning : Meaning) (parts : List Pattern) (a : Automaton) (fs : List Fragment)
    (b : Automaton) : Prop :=
  ∃ Ks : List Piece, Ks.map Piece.fragment = fs ∧ Ks.map Piece.language = denoteAll meaning parts ∧
    BuildsAll a b Ks

section parts

variable {parts : List Pattern} (h : Leads (buildAll parts) a (BuiltAll meaning parts a))
include h

private theorem sequence_built : Leads (sequence parts).build a (Built meaning (sequence parts) a) := by
  show Leads (buildAll parts >>= Builder.sequence) a _
  refine h.bind fun fs b hb hparts => ?_
  obtain ⟨Ks, rfl, hlanguages, hKs⟩ := hparts
  refine (hKs.sequence hb.wellFormed hb.size_le).mono ?_
  intro f c _ hpiece
  obtain ⟨K, hf, hK, hbuilds⟩ := hpiece
  exact ⟨K, hf, hK.trans (hlanguages ▸ rfl), hbuilds, fun h => by simp [isOpen] at h⟩

private theorem alternation_built :
    Leads (alternation parts).build a (Built meaning (alternation parts) a) := by
  show Leads (buildAll parts >>= Builder.alternate) a _
  refine h.bind fun fs b hb hparts => ?_
  obtain ⟨Ks, rfl, hlanguages, hKs⟩ := hparts
  refine (hKs.alternate hb.wellFormed hb.size_le).mono ?_
  intro f c _ hpiece
  obtain ⟨K, hf, hK, hbuilds, hopen⟩ := hpiece
  exact ⟨K, hf, hK.trans (hlanguages ▸ rfl), hbuilds, fun _ => hopen⟩

end parts

section part

variable (h : Leads p.build a (Built meaning p a))
include h

private theorem star_built : Leads (star p).build a (Built meaning (star p) a) := by
  show Leads (p.build >>= Builder.star) a _
  refine h.bind fun f b hb hpiece => ?_
  obtain ⟨K, rfl, hlanguage, hbuilds, -⟩ := hpiece
  refine (Leads.star hb.wellFormed K.fragment).mono ?_
  intro g c _ hadded
  obtain ⟨rfl, howns, -, hadds⟩ := hadded
  refine ⟨_, rfl, ?_, hbuilds.star howns hadds, fun h => by simp [isOpen] at h⟩
  show _ = (p.denote meaning)∗
  rw [← hlanguage]
  rfl

private theorem plus_built : Leads (plus p).build a (Built meaning (plus p) a) := by
  show Leads (p.build >>= Builder.plus) a _
  refine h.bind fun f b hb hpiece => ?_
  obtain ⟨K, rfl, hlanguage, hbuilds, -⟩ := hpiece
  refine (Leads.plus hb.wellFormed K.fragment).mono ?_
  intro g c _ hadded
  obtain ⟨rfl, howns, -, hadds⟩ := hadded
  refine ⟨_, rfl, ?_, hbuilds.plus howns hadds, fun h => by simp [isOpen] at h⟩
  show _ = p.denote meaning * (p.denote meaning)∗
  rw [← hlanguage]
  rfl

/-- No edge may lead back into the entry of an optional part. -/
private theorem optional_built (hopen : p.isOpen = true) :
    Leads (optional p).build a (Built meaning (optional p) a) := by
  show Leads (p.build >>= Builder.optional) a _
  refine h.bind fun f b hb hpiece => ?_
  obtain ⟨K, rfl, hlanguage, hbuilds, hK⟩ := hpiece
  refine (Leads.optional hb.wellFormed K.fragment).mono ?_
  intro g c hc hadded
  obtain ⟨rfl, -, hadds⟩ := hadded
  refine ⟨K.optional, rfl, ?_, hbuilds.optional (hK hopen) hc.size_le hadds,
    fun h => by simp [isOpen] at h⟩
  show _ = p.denote meaning + 1
  rw [← hlanguage]
  rfl

private theorem repeated_built (min : Nat) (max : Option Nat) :
    Leads (repeated p min max).build a (Built meaning (repeated p min max) a) := by
  show Leads (p.build >>= fun f => Builder.repeated f min max) a _
  refine h.bind fun f b hb hpiece => ?_
  obtain ⟨K, rfl, hlanguage, hbuilds, -⟩ := hpiece
  refine (hbuilds.has.repeated hb.wellFormed min max).mono ?_
  intro g c _ hpowers
  obtain ⟨M, hM, hpowers, hM'⟩ := hpowers
  exact ⟨M, hM, hpowers.trans (hlanguage ▸ rfl), .since hbuilds.frame hb.size_le hM',
    fun h => by simp [isOpen] at h⟩

end part

private theorem defined_built (ha : a.WellFormed) (hm : a.Means meaning) (name : String) :
    Leads (defined name).build a (Built meaning (defined name) a) := by
  show Leads (Builder.instantiate name) a _
  refine (Leads.instantiate ha name).mono ?_
  intro g b _ hcopy
  obtain ⟨f, hf, hcopied⟩ := hcopy
  obtain ⟨K, rfl, hlanguage, hhas, -⟩ := hm name f hf
  obtain ⟨M, hM, hlanguage', hbuilds⟩ := Builds.copy ha hhas hcopied
  exact ⟨M, hM, hlanguage'.trans hlanguage, hbuilds, fun h => by simp [isOpen] at h⟩

mutual

theorem build_correct : (p : Pattern) → p.optionsOpen = true → {a : Automaton} → a.WellFormed →
    a.Means meaning → Leads p.build a (Built meaning p a)
  | literal text, _, _, ha, _ => literal_built ha text
  | oneOf ranges, _, _, ha, _ => by
    refine symbols_built ha rfl fun w => exists_congr fun s => ?_
    rw [and_comm, List.mem_flatMap]
    simp only [SymbolRange.symbols, List.mem_filter, Symbol.mem_all, true_and]
  | noneOf ranges, _, _, ha, _ => by
    refine symbols_built ha rfl fun w => exists_congr fun s => ?_
    rw [and_comm, List.mem_filter]
    simp [Symbol.mem_all]
  | sequence parts, hp, _, ha, hm => sequence_built (buildAll_correct parts hp ha hm)
  | alternation parts, hp, _, ha, hm => alternation_built (buildAll_correct parts hp ha hm)
  | star p, hp, _, ha, hm => star_built (build_correct p hp ha hm)
  | plus p, hp, _, ha, hm => plus_built (build_correct p hp ha hm)
  | optional p, hp, _, ha, hm => by
    obtain ⟨hopen, hp⟩ := Bool.and_eq_true_iff.1 hp
    exact optional_built (build_correct p hp ha hm) hopen
  | defined name, _, _, ha, hm => defined_built ha hm name
  | repeated p min max, hp, _, ha, hm => repeated_built (build_correct p hp ha hm) min max

theorem buildAll_correct : (parts : List Pattern) → allOptionsOpen parts = true → {a : Automaton} →
    a.WellFormed → a.Means meaning → Leads (buildAll parts) a (BuiltAll meaning parts a)
  | [], _, a, ha, _ => by
    show Leads (pure []) a _
    exact .pure ha ⟨[], rfl, rfl, .nil a⟩
  | p :: rest, hp, a, ha, hm => by
    obtain ⟨hp, hrest⟩ := Bool.and_eq_true_iff.1 hp
    show Leads (p.build >>= fun f => buildAll rest >>= fun fs => pure (f :: fs)) a _
    refine (build_correct p hp ha hm).bind fun f b hb hpiece => ?_
    obtain ⟨K, rfl, hlanguage, hbuilds, -⟩ := hpiece
    have hkeep := hm.keep hb hbuilds.frame
    refine (buildAll_correct rest hrest hb.wellFormed hkeep).bind fun fs c hc hparts => ?_
    obtain ⟨Ks, rfl, hlanguages, hKs⟩ := hparts
    refine .pure hc.wellFormed ⟨K :: Ks, rfl, ?_, .before hbuilds hKs hc.size_le⟩
    rw [List.map_cons, hlanguage, hlanguages]
    rfl

end

end Pattern

end TableLexer
