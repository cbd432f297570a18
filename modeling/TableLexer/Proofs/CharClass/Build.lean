import TableLexer.Proofs.Automaton.StateLimit
import TableLexer.Proofs.Description.Matches
import TableLexer.Proofs.Description.Room
import TableLexer.Proofs.Lexicon.Stages

/-! The lexer of character classes is that of a description, and it can be built. -/
namespace TableLexer

namespace CharClass

open Automaton Builder

/-- A backslash and any symbol. -/
def escaped : Pattern := .sequence [.literal "\\", .noneOf []]

/-- Any symbol but a backslash. -/
def unescaped : Pattern := .noneOf [.single (.ofChar '\\')]

/-- The items of character classes as they are spelled. -/
def spelling : Description where
  definitions := [("item", .alternation [escaped, unescaped])]
  terminals := [
    ("RANGE", .sequence [.defined "item", .literal "-", .defined "item"]),
    ("ESCAPE", escaped),
    ("CHAR", unescaped)]

private theorem string_eq_literal {text : String} {c : Char} {s : Symbol} (htext : text.toList = [c])
    (hc : Symbol.ofChar? c = some s) : Builder.string text = Builder.literal s := by
  have hne : text.isEmpty = false := by
    rw [Bool.eq_false_iff]
    intro h
    rw [String.isEmpty_iff] at h
    simp [h] at htext
  simp [Builder.string, hne, htext, spell, hc, Builder.literal, Builder.fragment]

private theorem escape_eq : escape = escaped.build := by
  have h : Builder.string "\\" = Builder.literal (.ofChar '\\') := string_eq_literal (c := '\\') (by decide) (by decide)
  simp [escape, escaped, Pattern.build, Pattern.buildAll, h, Builder.sequence, Builder.any]

private theorem plain_eq : plain = unescaped.build := rfl

private theorem item_eq : item = (Pattern.alternation [escaped, unescaped]).build := by
  simp [item, Pattern.build, Pattern.buildAll, escape_eq, plain_eq]

private theorem range_eq :
    range = (Pattern.sequence [.defined "item", .literal "-", .defined "item"]).build := by
  have h : Builder.string "-" = Builder.literal (.ofChar '-') := string_eq_literal (c := '-') (by decide) (by decide)
  simp [range, Pattern.build, Pattern.buildAll, h]

section cost

variable {a : Automaton} (ha : a.WellFormed)
include ha

private theorem makes_plain : Makes plain a 2 1 := .symbols ha _

private theorem makes_escape : Makes escape a 4 2 := by
  refine (Makes.literal ha _).bind (m := 2) (r := 1) (fun f b hf hb => ?_) (Nat.le_refl _) (Nat.le_refl _)
  refine (Makes.symbols hb.grows.wellFormed _).bind (m := 0) (r := 0) (fun g c hg hc => ?_) (Nat.le_refl _)
    (Nat.le_refl _)
  exact .append hc.grows.wellFormed (hc.grows.owns hf) hg

private theorem makes_item : Makes item a 8 3 := by
  refine (makes_escape ha).bind (m := 4) (r := 1) (fun f b hf hb => ?_) (Nat.le_refl _) (Nat.le_refl _)
  refine (makes_plain hb.grows.wellFormed).bind (m := 2) (r := 0) (fun g c hg hc => ?_) (Nat.le_refl _)
    (Nat.le_refl _)
  refine .alternate hc.grows.wellFormed (by simp) ?_
  simpa using ⟨hc.grows.owns hf, hg⟩

/-- Both items are copies, the second of which may copy as many states and landings as there are by then. -/
theorem makes_range {f : Fragment} (hitem : a.definitions.lookup "item" = some f)
    (hsilent : ∀ id, a.terminal? id = none) :
    Makes range a (3 * a.size + 4) (3 * a.landings.card + 2) := by
  refine (Makes.instantiate ha hitem hsilent).bind (m := 2 * a.size + 4) (r := 2 * a.landings.card + 2)
    (fun first b hfirst hb => ?_) (by omega) (by omega)
  refine (Makes.literal hb.grows.wellFormed _).bind (m := 2 * a.size + 2) (r := 2 * a.landings.card + 1)
    (fun dash c hdash hc => ?_) (by omega) (by omega)
  have hitem' : c.definitions.lookup "item" = some f := by rwa [hc.definitions, hb.definitions]
  have hsilent' (id : StateId) : c.terminal? id = none := by rw [hc.terminal, hb.terminal, hsilent]
  have hsize : c.size ≤ 2 * a.size + 2 := by
    have hfirst := hb.size_le
    have hdash := hc.size_le
    omega
  have hlandings : c.landings.card ≤ 2 * a.landings.card + 1 := by
    have hfirst := hb.landings_le
    have hdash := hc.landings_le
    omega
  refine (Makes.instantiate hc.grows.wellFormed hitem' hsilent').bind (m := 0) (r := 0)
    (fun last d hlast hd => ?_) hsize hlandings
  have hfirst := hd.grows.owns (hc.grows.owns hfirst)
  refine (Makes.append hd.grows.wellFormed hfirst (hd.grows.owns hdash)).bind (m := 0) (r := 0)
    (fun both e hboth he => ?_) (Nat.le_refl _) (Nat.le_refl _)
  simpa using Makes.append he.grows.wellFormed hboth (he.grows.owns hlast)

end cost

private theorem terminal?_start (config : BuildConfig) (id : StateId) :
    ({ config } : Automaton).terminal? id = none := by
  cases id with
  | zero => rfl
  | succ id => exact terminal?_eq_none (show 1 ≤ id + 1 by omega)

/-- The automaton of the spelling of character classes can be built, and symbols lead to few of its states. -/
theorem exists_build : ∃ n, spelling.build = .ok n ∧ n.landings.card ≤ 17 := by
  have hstart := wellFormed_start {}
  obtain ⟨f, b, hdefine, hf, hb⟩ := Description.exists_define ("item", .alternation [escaped, unescaped])
    hstart rfl (by decide) (item_eq ▸ makes_item hstart)
  have hgrows := hb.grows.trans (.defining hb.grows.wellFormed "item" hf)
  have hlimit {c : Automaton} (hc : ({} : Automaton).Grows c) : c.config.stateLimit = 0x100000 := by
    rw [hc.config]
  have hb₁ : (b.defining "item" f).size ≤ 9 := hb.size_le
  have hb₂ : (b.defining "item" f).landings.card ≤ 3 := by
    have hlandings := hb.landings_le
    rwa [landings_start] at hlandings
  have hrange := makes_range hgrows.wellFormed (f := f) (by simp [Automaton.defining])
    fun id => (congrFun hb.terminal id).trans (terminal?_start {} id)
  rw [range_eq] at hrange
  obtain ⟨c, hc, hc', hc₁, hc₂⟩ := Description.exists_declareTerminal ("RANGE", _) hgrows.wellFormed
    hgrows.deterministic (by rw [hlimit hgrows]; omega) (by decide) hrange
  replace hc' := hgrows.trans hc'
  obtain ⟨d, hd, hd', hd₁, hd₂⟩ := Description.exists_declareTerminal ("ESCAPE", escaped) hc'.wellFormed
    hc'.deterministic (by rw [hlimit hc']; omega) (by decide) (escape_eq ▸ makes_escape hc'.wellFormed)
  replace hd' := hc'.trans hd'
  obtain ⟨e, he, he', he₁, he₂⟩ := Description.exists_declareTerminal ("CHAR", unescaped) hd'.wellFormed
    hd'.deterministic (by rw [hlimit hd']; omega) (by decide) (plain_eq ▸ makes_plain hd'.wellFormed)
  refine ⟨e, Description.build_eq_ok_iff.2 ⟨b.defining "item" f, ?_, ?_⟩, by omega⟩
  · exact foldlM_cons_eq_ok_iff.2 ⟨_, hdefine, rfl⟩
  · refine foldlM_cons_eq_ok_iff.2 ⟨c, hc, ?_⟩
    exact foldlM_cons_eq_ok_iff.2 ⟨d, hd, foldlM_cons_eq_ok_iff.2 ⟨e, he, rfl⟩⟩

/-- The lexer of character classes has a deterministic automaton. -/
theorem exists_determinize : ∃ n a, spelling.build = .ok n ∧ n.determinize = .ok a := by
  obtain ⟨n, hn, hlandings⟩ := exists_build
  have hgrows := Description.grows_of_build hn
  have hn' := hgrows.wellFormed
  obtain ⟨a, ha⟩ := Automaton.exists_determinize hn' (by rw [hgrows.config]; rfl)
    (fun p s q edge => (mem_landings hn').2 ⟨p, s, edge⟩)
    (by
      rw [hgrows.config]
      exact (Nat.pow_le_pow_right (by decide) hlandings).trans_lt (by decide))
  exact ⟨n, a, hn, ha⟩

/-- The lexer is put together in the same steps as the automaton of the spelling. -/
theorem build_yields {n a : Automaton} (hn : spelling.build = .ok n) (ha : n.determinize = .ok a) :
    build.Yields (.ok a.table.compress) := by
  have hdeterministic := (Description.determinized hn ha).deterministic
  obtain ⟨b, hdefined, hdeclared⟩ := Description.build_eq_ok_iff.1 hn
  obtain ⟨b, hitem, heq⟩ := foldlM_cons_eq_ok_iff.1 hdefined
  obtain rfl := Except.ok.inj heq
  obtain ⟨c, hc, hdeclared⟩ := foldlM_cons_eq_ok_iff.1 hdeclared
  obtain ⟨d, hd, hdeclared⟩ := foldlM_cons_eq_ok_iff.1 hdeclared
  obtain ⟨_, he, heq⟩ := foldlM_cons_eq_ok_iff.1 hdeclared
  obtain rfl := Except.ok.inj heq
  have hrange := hc ▸ Description.declareTerminal_yields _ ("RANGE", _)
  have hescape := hd ▸ Description.declareTerminal_yields c ("ESCAPE", escaped)
  have hchar := he ▸ Description.declareTerminal_yields d ("CHAR", unescaped)
  rw [build, item_eq, range_eq, escape_eq, plain_eq]
  refine Journaled.Yields.bind_ok (x := b) ?_ ?_
  · exact hitem ▸ Journaled.yields_ofExcept_id (Description.define {} ("item", _))
  refine hrange.bind_ok (hescape.bind_ok (hchar.bind_ok ?_))
  rw [ha]
  refine (Journaled.yields_ofExcept_id _).bind_ok (.after_note ?_ _)
  rw [compile_eq hdeterministic]
  exact (Journaled.yields_ofExcept_id _).bind_ok ((Journaled.yields_pure _).after_note _ |>.after_note _)

/-- The table of the lexer does what a deterministic automaton of the spelling does. -/
theorem table_implements_spelling : ∃ n a place, spelling.build = .ok n ∧ spelling.Determinized n a ∧
    Implements table a place (Set.Iio a.size) := by
  obtain ⟨n, a, hn, ha⟩ := exists_determinize
  have hd := Description.determinized hn ha
  have htable : table = a.table.compress := by rw [table, (build_yields hn ha).result_eq]; rfl
  have hsize : a.size ≤ 2 ^ 31 := hd.size_le.trans (by decide)
  exact ⟨n, a, id, hn, hd, htable ▸
    Table.compress_implements (rectangular_table a) (table_implements hd.wellFormed hsize)⟩

end CharClass

end TableLexer
