import TableLexer.Proofs.Pattern.Reads

/-! What a terminal accepts more once its pattern is made optional. The bridge that lets a fragment be passed by
can be gone over in the middle of a word, too, where paths come back to the entry or go on from the exit. -/
namespace TableLexer

open Computability

namespace Automaton

variable {a b c d : Automaton} {f : Fragment} {name : String} {id i : TerminalId} {w : List Symbol}

/-- The words that lead from a state to one that accepts a terminal. -/
def wordsFrom (a : Automaton) (p : StateId) (id : TerminalId) : Language Symbol :=
  {w | ∃ q, Path a.Edge p w q ∧ a.terminal? q = some id}

/-- The words that pass a fragment by, perhaps more than once: they lead to its entry, any number of times from
its exit back to its entry, and from its exit to acceptance. -/
def passingBy (a : Automaton) (f : Fragment) (id : TerminalId) : Language Symbol :=
  wordsBetween a.Edge a.initial f.entry * (wordsBetween a.Edge f.exit f.entry)∗ * a.wordsFrom f.exit id

private theorem mem_passingBy : w ∈ a.passingBy f id ↔ ∃ u v z, u ++ v ++ z = w ∧ Path a.Edge a.initial u f.entry ∧
    v ∈ (wordsBetween a.Edge f.exit f.entry)∗ ∧ ∃ q, Path a.Edge f.exit z q ∧ a.terminal? q = some id := by
  rw [passingBy, Language.mem_mul]
  constructor
  · intro hw
    obtain ⟨_, hback, z, hz, rfl⟩ := hw
    obtain ⟨u, hu, v, hv, rfl⟩ := Language.mem_mul.1 hback
    exact ⟨u, v, z, rfl, hu, hv, hz⟩
  · intro hw
    obtain ⟨u, v, z, rfl, hu, hv, hz⟩ := hw
    exact ⟨u ++ v, Language.append_mem_mul hu hv, z, hz, rfl⟩

/-- Where no terminal but one is accepted, its words are those that are spelled for it. -/
theorem accepts_eq_some_iff_spells (ha : a.WellFormed) (honly : ∀ p i, a.terminal? p = some i → i = id) :
    a.accepts w = some id ↔ a.Spells w id := by
  rw [accepts_eq_some_iff ha]
  refine ⟨fun h => h.1, fun h => ⟨h, fun i hi => ?_⟩⟩
  obtain ⟨q, -, hq⟩ := hi
  exact (honly q i hq).ge

/-- In an automaton with a single name, only its terminal is accepted. -/
private theorem WellFormed.eq_one_of_terminal? (ha : a.WellFormed) (hnames : a.terminals.names = [eofName, name])
    {p : StateId} (h : a.terminal? p = some i) : i = 1 := by
  obtain ⟨state, hstate, hterminal⟩ := Option.bind_eq_some_iff.1 h
  obtain ⟨hne, hlt⟩ := (ha.sound p state hstate).terminal_known i hterminal
  rw [Registry.size, hnames] at hlt
  exact Nat.le_antisymm (Nat.le_of_lt_succ hlt) (Nat.pos_of_ne_zero hne)

/-- A bridge over a fragment adds the words that pass it by. -/
theorem spells_bridge (hedge : d.Edge = c.Edge ⊔ bridge f.entry f.exit) (hinitial : d.initial = c.initial)
    (hterminal : d.terminal? = c.terminal?) : d.Spells w id ↔ c.Spells w id ∨ w ∈ c.passingBy f id := by
  rw [mem_passingBy, Spells, hedge, hinitial, hterminal]
  simp only [path_bridge_iff, or_and_right, exists_or]
  refine or_congr_right ?_
  constructor
  · intro hw
    obtain ⟨q, ⟨u, v, z, rfl, hu, hv, hz⟩, hq⟩ := hw
    exact ⟨u, v, z, rfl, hu, hv, q, hz, hq⟩
  · intro hw
    obtain ⟨u, v, z, rfl, hu, hv, q, hz, hq⟩ := hw
    exact ⟨q, ⟨u, v, z, rfl, hu, hv, hz⟩, hq⟩

namespace Declared

variable (h : Declared b c name f id)
include h

private theorem path_entry : Path c.Edge c.initial [] f.entry := by
  rw [h.edge, h.initial]
  exact path_over_bridge

private theorem exit_mem : [] ∈ c.wordsFrom f.exit id := by
  refine ⟨b.size, ?_, by rw [h.terminal, if_pos rfl]⟩
  rw [h.edge]
  exact path_over_bridge.mono fun _ _ _ => .inl

/-- The empty word passes every fragment by. -/
private theorem nil_mem_passingBy : [] ∈ c.passingBy f id := by
  obtain ⟨q, hq⟩ := h.exit_mem
  exact mem_passingBy.2 ⟨[], [], [], rfl, h.path_entry, Language.nil_mem_kstar _, q, hq⟩

end Declared

/-- No edge leads to the entry of a fragment, and none leaves its exit. -/
structure Apart (a : Automaton) (f : Fragment) : Prop where
  no_in : ∀ p l, ¬ a.Edge p l f.entry
  no_out : ∀ l q, ¬ a.Edge f.exit l q

/-- New states are apart if the new edges leave them so. -/
private theorem Adds.apart {new : Graph} (h : a.Adds b new) (ha : a.WellFormed) (hentry : a.size ≤ f.entry)
    (hexit : a.size ≤ f.exit) (hnew : ∀ p l q, new p l q → q ≠ f.entry ∧ p ≠ f.exit) : b.Apart f where
  no_in p l edge := by
    rcases h.edge_iff.1 edge with edge | edge
    · exact Nat.not_le.2 (ha.edge_lt edge) hentry
    · exact (hnew p l _ edge).1 rfl
  no_out l q edge := by
    rcases h.edge_iff.1 edge with edge | edge
    · exact idle_of_size_le hexit l q edge
    · exact (hnew _ l q edge).2 rfl

namespace Apart

variable {p q : StateId} (h : a.Apart f)
include h

private theorem eq_nil_of_path_to (hpath : Path a.Edge p w f.entry) : w = [] := by
  generalize hq : f.entry = q at hpath
  suffices w = [] ∧ p = q from this.1
  induction hpath with
  | refl _ => exact ⟨rfl, rfl⟩
  | step edge _ ih =>
    obtain ⟨-, rfl⟩ := ih hq
    exact absurd (hq ▸ edge) (h.no_in _ _)

private theorem eq_nil_of_path_from (hpath : Path a.Edge f.exit w q) : w = [] := by
  cases hpath with
  | refl _ => rfl
  | step edge _ => exact absurd edge (h.no_out _ _)

/-- Nothing but the empty word passes by a new fragment that is apart. -/
private theorem passingBy_eq {c : Automaton} (hplaced : Placed b a f) (hb : b.WellFormed) (hrooted : b.Rooted)
    (hdeclared : Declared a c name f id) : c.passingBy f id = 1 := by
  obtain ⟨hentry, -⟩ := owns_iff.1 hdeclared.owns
  have hto {p : StateId} {w : List Symbol} (hp : b.size ≤ p) (hpath : Path c.Edge p w f.entry) : w = [] := by
    rcases (hplaced.path_declared hb hdeclared hp).1 hpath with hpath | ⟨heq, -⟩
    · exact h.eq_nil_of_path_to hpath
    · exact absurd heq (Nat.ne_of_lt hentry)
  ext w
  rw [Language.mem_one]
  constructor
  · intro hw
    obtain ⟨u, v, z, rfl, hu, hv, q, hz, -⟩ := mem_passingBy.1 hw
    obtain rfl : u = [] := by
      rcases (hplaced.path_initial_declared hb hdeclared hrooted).1 hu with hold | hu
      · exact absurd (hb.path_lt hold hb.initial_lt) (Nat.not_lt.2 hplaced.entry_le)
      · exact hto hplaced.entry_le hu
    obtain rfl : v = [] := by
      obtain ⟨rounds, rfl, hrounds⟩ := Language.mem_kstar.1 hv
      exact List.flatten_eq_nil_iff.2 fun round hround => hto hplaced.exit_le (hrounds round hround)
    rcases (hplaced.path_declared hb hdeclared hplaced.exit_le).1 hz with hz | ⟨-, hz⟩
    · exact h.eq_nil_of_path_from hz
    · exact h.eq_nil_of_path_from hz
  · intro hw
    obtain rfl := hw
    exact hdeclared.nil_mem_passingBy

end Apart

end Automaton

namespace Pattern

open Automaton Builder

variable {a b c : Automaton} {p : Pattern} {f : Fragment} {name : String} {id : TerminalId}

private theorem apart_symbols (ha : a.WellFormed) (chosen : List Symbol) :
    Leads (symbols chosen) a fun f b => b.Apart f := by
  refine (Leads.symbols ha chosen).mono ?_
  intro f b _ hadded
  obtain ⟨rfl, -, hadds⟩ := hadded
  refine hadds.apart ha (Nat.le_refl _) (Nat.le_succ _) fun p l q edge => ?_
  obtain ⟨s, -, rfl, -, rfl⟩ := edge
  exact ⟨Nat.succ_ne_self _, (Nat.succ_ne_self _).symm⟩

private theorem apart_string (ha : a.WellFormed) (text : String) :
    Leads (string text) a fun f b => b.Apart f := by
  refine (Leads.string ha text).mono ?_
  intro f b _ hadded
  obtain ⟨-, w, -, ⟨-, rfl, hadds⟩ | ⟨-, rfl, hadds⟩⟩ := hadded
  · refine hadds.apart ha (Nat.le_refl _) (Nat.le_succ _) fun p l q edge => ?_
    obtain ⟨-, rfl, -, rfl⟩ := edge
    exact ⟨Nat.succ_ne_self _, (Nat.succ_ne_self _).symm⟩
  · refine hadds.apart ha (Nat.le_refl _) (Piece.le_chainEnd _ _) fun p l q edge => ?_
    exact ⟨Nat.ne_of_gt (Piece.chain_bounds edge).2.1,
      Nat.ne_of_lt (Piece.lt_chainEnd (Nat.lt_succ_self _) edge)⟩

private theorem apart_alternate (ha : a.WellFormed) (parts : List Fragment) :
    Leads (alternate parts) a fun f b => b.Apart f := by
  refine (Leads.alternate ha parts).mono ?_
  intro f b _ hadded
  obtain ⟨rfl, -, howns, hadds⟩ := hadded
  refine hadds.apart ha (Nat.le_refl _) (Nat.le_succ _) fun p l q edge => ?_
  obtain ⟨part, hmem, hbridge⟩ := edge
  obtain ⟨hentry, hexit⟩ := owns_iff.1 (howns part hmem)
  rcases hbridge with ⟨-, rfl, -, rfl⟩ | ⟨-, rfl, -, rfl⟩
  · exact ⟨Nat.ne_of_lt hentry, (Nat.succ_ne_self _).symm⟩
  · exact ⟨Nat.succ_ne_self _, Nat.ne_of_lt (Nat.lt_succ_of_lt hexit)⟩

/-- Texts, choices of single symbols, and alternations have an entry and an exit of their own. -/
theorem build_apart (ha : a.WellFormed) (hp : p.isOpen = true) : Leads p.build a fun f b => b.Apart f := by
  cases p with
  | literal text => exact apart_string ha text
  | oneOf ranges => exact apart_symbols ha _
  | noneOf ranges => exact apart_symbols ha _
  | alternation parts =>
    show Leads (buildAll parts >>= Builder.alternate) a _
    exact ((buildAll_public parts).leads ha).bind fun fs b hb _ => apart_alternate hb.wellFormed fs
  | _ => simp [isOpen] at hp

/-- Wherever a pattern is built, it can be made optional. -/
theorem exists_build_optional (ha : a.WellFormed) (hmutable : a.deterministic = false)
    (hbuild : p.build.apply a = (.ok f, b)) (howns : b.owns f) : ∃ e, p.optional.build.apply a = (.ok f, e) ∧
      b.Grows e ∧ b.Adds e (bridge f.entry f.exit) ∧ e.size = b.size := by
  have hgrows := p.build_public.grows ha hbuild
  obtain ⟨e, he, hsize⟩ : ∃ e, (Builder.optional f).apply b = (.ok f, e) ∧ e.size = b.size := by
    refine ⟨_, apply_bind_eq_ok_iff.2 ⟨⟨⟩, b, check_eq_ok_iff.2 ⟨howns, rfl⟩, apply_bind_eq_ok_iff.2 ⟨⟨⟩, _,
      addEpsilon_eq_ok_iff.2 ⟨hgrows.deterministic.trans hmutable, rfl⟩, rfl⟩⟩, ?_⟩
    split
    · rfl
    · exact size_modifyState ..
  obtain ⟨-, -, hadds⟩ := (Leads.optional hgrows.wellFormed f).good _ _ he
  exact ⟨e, apply_bind_eq_ok_iff.2 ⟨f, b, hbuild, he⟩, (Public.optional f).grows hgrows.wellFormed he, hadds, hsize⟩

/-- If a terminal can be declared, so it can with its pattern made optional, and the declarations differ in
nothing but a bridge over the fragment of the pattern. -/
theorem exists_declare_optional (ha : a.WellFormed) (hdeclare : (addTerminal name p.build).apply a = (.ok id, c)) :
    ∃ f b d, p.build.apply a = (.ok f, b) ∧ Declared b c name f id ∧
      (addTerminal name p.optional.build).apply a = (.ok id, d) ∧
      d.Edge = c.Edge ⊔ bridge f.entry f.exit ∧ d.terminal? = c.terminal? ∧ d.initial = c.initial := by
  obtain ⟨hmutable, hname, f, b, -, hbuild, howns, hlimit, hid, -⟩ := addTerminal_eq_ok_iff.1 hdeclare
  obtain ⟨e, hoptional, hgrows, hadds, hsize⟩ := exists_build_optional ha hmutable hbuild howns
  obtain ⟨d, hdeclare'⟩ : ∃ d, (addTerminal name p.optional.build).apply a = (.ok id, d) := by
    refine (exists_addTerminal_iff fun f b h => (p.optional.build_public.grows ha h).deterministic).2 ?_
    refine ⟨hmutable, hname, f, e, hoptional, hgrows.owns howns, ?_, ?_⟩
    · rwa [hsize, hgrows.config]
    · rwa [hadds.terminals]
  obtain ⟨f', b', hbuild', -, hdeclared⟩ := p.build_public.declared ha hdeclare
  obtain ⟨rfl, rfl⟩ := apply_unique hbuild hbuild'
  obtain ⟨f', e', hoptional', -, hdeclared'⟩ := p.optional.build_public.declared ha hdeclare'
  obtain ⟨rfl, rfl⟩ := apply_unique hoptional hoptional'
  refine ⟨f, b, d, hbuild, hdeclared, hdeclare', ?_, ?_, ?_⟩
  · rw [hdeclared'.edge, hdeclared.edge, hadds.edge, hadds.initial, hsize, sup_right_comm b.Edge,
      sup_right_comm (b.Edge ⊔ _)]
  · funext q
    rw [hdeclared'.terminal, hdeclared.terminal, hsize, hadds.terminal]
  · exact hdeclared'.initial.trans (hadds.initial.trans hdeclared.initial.symm)

/-- Making the pattern of a terminal optional adds exactly the words that pass the fragment of the pattern by, the
empty word among them. If the pattern has an entry and an exit of its own, there are no others. -/
theorem declare_optional (ha : a.WellFormed) (hdeclare : (addTerminal name p.build).apply a = (.ok id, c))
    (honly : c.terminals.names = [eofName, name]) : ∃ f b d, p.build.apply a = (.ok f, b) ∧
      (addTerminal name p.optional.build).apply a = (.ok id, d) ∧
      (∀ w, d.accepts w = some id ↔ c.accepts w = some id ∨ w ∈ c.passingBy f id) ∧
      [] ∈ c.passingBy f id ∧
      (a.Prelude → p.isOpen = true → ∀ w, d.accepts w = some id ↔ w = [] ∨ c.accepts w = some id) := by
  obtain ⟨f, b, d, hbuild, hdeclared, hdeclare', hedge, hterminal, hinitial⟩ := exists_declare_optional ha hdeclare
  have hc := ((Public.addTerminal name p.build_public).grows ha hdeclare).wellFormed
  have hd := ((Public.addTerminal name p.optional.build_public).grows ha hdeclare').wellFormed
  have hone : id = 1 := hc.eq_one_of_terminal? honly ((hdeclared.terminal b.size).trans (if_pos rfl))
  have hsingle (q : StateId) (i : TerminalId) (hi : c.terminal? q = some i) : i = id :=
    (hc.eq_one_of_terminal? honly hi).trans hone.symm
  have hwords (w : List Symbol) : d.accepts w = some id ↔ c.accepts w = some id ∨ w ∈ c.passingBy f id := by
    rw [accepts_eq_some_iff_spells hc hsingle, accepts_eq_some_iff_spells hd (hterminal ▸ hsingle),
      spells_bridge hedge hinitial hterminal]
  refine ⟨f, b, d, hbuild, hdeclare', hwords, hdeclared.nil_mem_passingBy, fun hprelude hopen w => ?_⟩
  obtain ⟨-, hplaced, -⟩ := build_placed hprelude.extends_self hbuild
  have hapart := (build_apart ha hopen).good _ _ hbuild
  rw [hwords, hapart.passingBy_eq hplaced ha hprelude.rooted hdeclared, Language.mem_one, or_comm]

/-- Any number of letters `a`, and a letter `b` behind them. -/
def starred : Pattern := .sequence [.star (.literal "a"), .literal "b"]

theorem declare_optional_starred : ∃ id c, ({} : Automaton).WellFormed ∧
    (addTerminal "WORD" starred.build).apply {} = (.ok id, c) ∧ c.terminals.names = [eofName, "WORD"] ∧
    ∃ f b d, starred.build.apply {} = (.ok f, b) ∧ (addTerminal "WORD" starred.optional.build).apply {} = (.ok id, d) ∧
      (∀ w, d.accepts w = some id ↔ c.accepts w = some id ∨ w ∈ c.passingBy f id) ∧
      [] ∈ c.passingBy f id ∧
      (({} : Automaton).Prelude → starred.isOpen = true →
        ∀ w, d.accepts w = some id ↔ w = [] ∨ c.accepts w = some id) := by
  have hid : ((addTerminal "WORD" starred.build).apply {}).1 = .ok 1 := by decide +kernel
  have hnames : ((addTerminal "WORD" starred.build).apply {}).2.terminals.names = [eofName, "WORD"] := by
    decide +kernel
  rcases hdeclare : (addTerminal "WORD" starred.build).apply {} with ⟨result, c⟩
  rw [hdeclare] at hid hnames
  obtain rfl : result = .ok 1 := hid
  have ha : ({} : Automaton).WellFormed := wellFormed_start {}
  exact ⟨1, c, ha, rfl, hnames, declare_optional ha hdeclare hnames⟩

/-- The letter `a` alone passes the letter `b` by, once it has been read. -/
theorem starred_passed_by : ∃ c d, (addTerminal "WORD" starred.build).apply {} = (.ok 1, c) ∧
    (addTerminal "WORD" starred.optional.build).apply {} = (.ok 1, d) ∧
    c.terminals.names = [eofName, "WORD"] ∧ c.matches? "a" = none ∧ d.matches? "a" = some 1 := by
  have hword : ((addTerminal "WORD" starred.build).apply {}).1 = .ok 1 ∧
      ((addTerminal "WORD" starred.build).apply {}).2.terminals.names = [eofName, "WORD"] ∧
      ((addTerminal "WORD" starred.build).apply {}).2.matches? "a" = none := by decide +kernel
  have hoptional : ((addTerminal "WORD" starred.optional.build).apply {}).1 = .ok 1 ∧
      ((addTerminal "WORD" starred.optional.build).apply {}).2.matches? "a" = some 1 := by decide +kernel
  rcases hc : (addTerminal "WORD" starred.build).apply {} with ⟨result, c⟩
  rcases hd : (addTerminal "WORD" starred.optional.build).apply {} with ⟨result', d⟩
  rw [hc] at hword
  rw [hd] at hoptional
  obtain ⟨rfl, hnames, hnone⟩ : result = .ok 1 ∧ c.terminals.names = [eofName, "WORD"] ∧ c.matches? "a" = none := hword
  obtain ⟨rfl, hsome⟩ : result' = .ok 1 ∧ d.matches? "a" = some 1 := hoptional
  exact ⟨c, d, rfl, rfl, hnames, hnone, hsome⟩

end Pattern

end TableLexer
