import TableLexer.Proofs.Description.Serves

/-! What each terminal of a description matches on its own, and what this says of all of them together:
the order of the terminals decides only between those that match the same text. -/
namespace TableLexer

namespace Description

open Automaton

variable {d d' : Description} {base n n' : Automaton} {terminals terminals' : List (String × Pattern)}
  {named : String × Pattern} {text : String} {w : List Symbol}

/-- The description with a single terminal. -/
def only (d : Description) (named : String × Pattern) : Description := { d with terminals := [named] }

/-- Whether the automaton of a single terminal matches a text. -/
def matchesAlone (d : Description) (text : String) (named : String × Pattern) : Bool :=
  match (d.only named).build with
  | .ok n => (n.matches? text).isSome
  | .error _ => false

/-- The second description declares the terminals of the first one in another order. -/
structure Reordered (d d' : Description) : Prop where
  options : d'.options = d.options
  definitions : d'.definitions = d.definitions
  terminals : d'.terminals.Perm d.terminals

namespace Serves

theorem exists_spells_iff (h : Serves base terminals n) :
    (∃ i, n.Spells w i) ↔ ∃ named ∈ terminals, named.2.Reads base w := by
  simp only [h.spells]
  constructor
  · intro hspells
    obtain ⟨i, j, name, p, -, hj, hreads⟩ := hspells
    exact ⟨(name, p), List.mem_of_getElem? hj, hreads⟩
  · intro hreads
    obtain ⟨named, hmem, hreads⟩ := hreads
    obtain ⟨j, hj⟩ := List.mem_iff_getElem?.1 hmem
    exact ⟨j + 1, j, named.1, named.2, rfl, hj, hreads⟩

/-- The order of the terminals decides neither which words lead somewhere nor which ones are spelled for
some terminal. -/
theorem perm (h : Serves base terminals n) (h' : Serves base terminals' n') (hperm : terminals'.Perm terminals) :
    ((∃ q, Path n'.Edge n'.initial w q) ↔ ∃ q, Path n.Edge n.initial w q) ∧
      ((∃ i, n'.Spells w i) ↔ ∃ i, n.Spells w i) := by
  rw [h.leads, h'.leads, h.exists_spells_iff, h'.exists_spells_iff]
  simp only [hperm.mem_iff, and_self]

variable (hdefine : d.definitions.foldlM define { config := d.options.config } = .ok base)
include hdefine

/-- A terminal can be declared on its own, and reads then what it reads among the others. -/
theorem exists_build_only (h : Serves base terminals n) (hmem : named ∈ terminals) :
    ∃ c, (d.only named).build = .ok c ∧ Serves base [named] c := by
  obtain ⟨c, hc⟩ := h.alone named hmem
  refine ⟨c, build_eq_ok_iff.2 ⟨base, hdefine, ?_⟩, ?_⟩
  · rw [only, List.foldlM_cons, hc]
    rfl
  · exact (serves_prelude h.extends_base.prelude).declareTerminal List.not_mem_nil hc

theorem matchesAlone_iff (h : Serves base terminals n) (hmem : named ∈ terminals) :
    d.matchesAlone text named = true ↔ ∃ w, Symbol.word? text.toList = some w ∧ named.2.Reads base w := by
  obtain ⟨c, hbuild, hc⟩ := h.exists_build_only hdefine hmem
  rw [matchesAlone, hbuild]
  cases hw : Symbol.word? text.toList with
  | none => simp [matches?, hw]
  | some w =>
    simp [matches?, hw, isSome_accepts_iff hc.extends_base.wellFormed, hc.exists_spells_iff]

/-- A text is matched as the terminal that is declared first of those that match it on their own. -/
theorem find?_matchesAlone (h : Serves base d.terminals n) {kind : TerminalId}
    (hkind : n.matches? text = some kind) : ∃ named,
      d.terminals.find? (d.matchesAlone text) = some named ∧ n.terminals.name? kind = some named.1 := by
  obtain ⟨w, hw, haccepts⟩ := Option.bind_eq_some_iff.1 hkind
  obtain ⟨hspells, hleast⟩ := (accepts_eq_some_iff h.extends_base.wellFormed).1 haccepts
  obtain ⟨j, name, p, rfl, hj, hreads⟩ := (h.spells w kind).1 hspells
  obtain ⟨hlt, hget⟩ := List.getElem?_eq_some_iff.1 hj
  refine ⟨(name, p), List.find?_eq_some_iff_getElem.2 ⟨?_, j, hlt, hget, fun i hi => ?_⟩, ?_⟩
  · exact (h.matchesAlone_iff hdefine (List.mem_of_getElem? hj)).2 ⟨w, hw, hreads⟩
  · rw [Bool.not_eq_true', Bool.eq_false_iff]
    intro hmatches
    obtain ⟨w', hw', hreads'⟩ := (h.matchesAlone_iff hdefine (List.getElem_mem _)).1 hmatches
    obtain rfl := Option.some.inj (hw.symm.trans hw')
    have hle : j + 1 ≤ i + 1 := hleast ((h.spells w (i + 1)).2 ⟨i, _, _, rfl, List.getElem?_eq_getElem _, hreads'⟩)
    exact Nat.not_lt.2 (Nat.le_of_succ_le_succ hle) hi
  · rw [Registry.name?, h.names, List.getElem?_cons_succ, List.getElem?_map, hj]
    rfl

end Serves

end Description

end TableLexer
