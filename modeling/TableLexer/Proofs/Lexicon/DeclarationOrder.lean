import TableLexer.Proofs.Description.Alone
import TableLexer.Proofs.Lexicon.Cells
import TableLexer.Proofs.Scanner.Abreast

/-! The order in which a description declares its terminals decides only how a text is named that several of
them match. -/
namespace TableLexer

open Automaton

namespace Lexicon

open Description

variable {d d' : Description} {n n' a a' : Automaton} {l l' : Lexicon}

/-- Tokens that differ in nothing but their kinds. Each lexicon names the terminal that it declares first of
those that match the lexeme on their own, which is the same one if there is no other. -/
structure Tied (d d' : Description) (l l' : Lexicon) (t t' : Token) : Prop where
  lexeme : t'.lexeme = t.lexeme
  location : t'.location = t.location
  isEof : t'.isEof = t.isEof
  first : t.isEof = false → ∃ named, d.terminals.find? (d.matchesAlone t.lexeme) = some named ∧
    l.terminals.name? t.kind = some named.1
  first' : t'.isEof = false → ∃ named, d'.terminals.find? (d'.matchesAlone t'.lexeme) = some named ∧
    l'.terminals.name? t'.kind = some named.1
  single : (d.terminals.filter (d.matchesAlone t.lexeme)).length = 1 →
    l'.terminals.name? t'.kind = l.terminals.name? t.kind

/-- Of one item that is found in a list, every order of the list finds the same. -/
private theorem eq_of_find? {α : Type} {items items' : List α} {f : α → Bool} {x y : α}
    (hperm : items'.Perm items) (hsingle : (items.filter f).length = 1) (hx : items.find? f = some x)
    (hy : items'.find? f = some y) : y = x := by
  obtain ⟨z, hz⟩ := List.length_eq_one_iff.1 hsingle
  have hx : x ∈ items.filter f := List.mem_filter.2 ⟨List.mem_of_find?_eq_some hx, List.find?_some hx⟩
  have hy : y ∈ items.filter f :=
    (hperm.filter f).mem_iff.1 (List.mem_filter.2 ⟨List.mem_of_find?_eq_some hy, List.find?_some hy⟩)
  rw [hz, List.mem_singleton] at hx hy
  rw [hx, hy]

section reordered

variable (hreordered : d.Reordered d')
include hreordered

private theorem matchesAlone_reordered (hignored : d'.ignored = d.ignored) (text : String) :
    d'.matchesAlone text = d.matchesAlone text := by
  funext named
  have honly : d'.only named = d.only named := by
    rw [only, only, hreordered.options, hreordered.definitions, hignored]
  rw [matchesAlone, matchesAlone, honly]

/-- Both descriptions declare their terminals after the same prelude. -/
private theorem exists_serves (hnames : (d.terminals.map Prod.fst).Nodup) (hn : d.build = .ok n)
    (hn' : d'.build = .ok n') :
    ∃ base, d.definitions.foldlM define { config := d.options.config } = .ok base ∧
      d'.definitions.foldlM define { config := d'.options.config } = .ok base ∧
      Serves base d.terminals n ∧ Serves base d'.terminals n' := by
  obtain ⟨base, hdefine, hserves⟩ := serves_of_build hnames hn
  obtain ⟨base', hdefine', hserves'⟩ :=
    serves_of_build ((hreordered.terminals.map Prod.fst).nodup_iff.2 hnames) hn'
  rw [hreordered.definitions, hreordered.options, hdefine] at hdefine'
  obtain rfl := Except.ok.inj hdefine'
  rw [hreordered.definitions, hreordered.options]
  exact ⟨base, hdefine, hdefine, hserves, hserves'⟩

variable {base : Automaton} (hserves : Serves base d.terminals n) (hserves' : Serves base d'.terminals n')
  (ha : d.Determinized n a) (ha' : d'.Determinized n' a')
include hserves hserves' ha ha'

/-- The deterministic automata follow and match the same words. -/
theorem abreast_reordered : a.Abreast a' := by
  constructor
  · intro w
    rw [Bool.eq_iff_iff, ha.run, ha'.run]
    exact (hserves.perm hserves' hreordered.terminals).1.symm
  · intro w
    rw [Bool.eq_iff_iff, ha.accepts, ha'.accepts, isSome_accepts_iff hserves.extends_base.wellFormed,
      isSome_accepts_iff hserves'.extends_base.wellFormed]
    exact (hserves.perm hserves' hreordered.terminals).2.symm

private theorem tied_of_abreast (hdefine : d.definitions.foldlM define { config := d.options.config } = .ok base)
    (hdefine' : d'.definitions.foldlM define { config := d'.options.config } = .ok base)
    (hignored : d'.ignored = d.ignored)
    (hl : l.terminals = n.terminals) (hl' : l'.terminals = n'.terminals) {t t' : Token}
    (h : Token.Abreast a a' t t') : Tied d d' l l' t t' := by
  have heof := h.isEof_eq ha.wellFormed ha'.wellFormed
  have hmatches := matchesAlone_reordered hreordered hignored
  cases h with
  | @matched kind kind' lexeme location hkind hkind' =>
    rw [ha.matches?_eq] at hkind
    rw [ha'.matches?_eq] at hkind'
    obtain ⟨named, hfind, hname⟩ := hserves.find?_matchesAlone hdefine hkind
    obtain ⟨named', hfind', hname'⟩ := hserves'.find?_matchesAlone hdefine' hkind'
    rw [← hl] at hname
    rw [← hl'] at hname'
    refine ⟨rfl, rfl, heof.symm, fun _ => ⟨named, hfind, hname⟩, fun _ => ⟨named', hfind', hname'⟩,
      fun hsingle => ?_⟩
    rw [hmatches] at hfind'
    rw [hname, hname', eq_of_find? hreordered.terminals hsingle hfind hfind']
  | ended location =>
    refine ⟨rfl, rfl, heof.symm, fun h => ?_, fun h => ?_, fun _ => ?_⟩
    · contradiction
    · contradiction
    · rw [hl, hl', Registry.name?, Registry.name?, hserves.names, hserves'.names]
      rfl

end reordered

private theorem plain_ofAutomaton (options : Options) (ha : (tabled options a).WellFormed)
    (hepsilon : (tabled options a).NoEpsilon) {text : String}
    (hfits : ∀ rest, rest <:+ text.toList → ¬ (tabled options a).Outgrows rest) :
    (Scanner.ofText (ofAutomaton options a []) text).Plain (tabled options a) where
  implements := ⟨id, _, ofAutomaton_implements options [] ha, fun rest hrest => ha.staysIn_fitting (hfits rest hrest)⟩
  wellFormed := ha
  noEpsilon := hepsilon
  ignored := rfl
  current := rfl

private theorem ofDescription_unignoring (hignored : d.ignored = []) (h : ofDescription d = .ok l) : ∃ n a,
    d.build = .ok n ∧ n.determinize = .ok a ∧ l = ofAutomaton d.options a [] := by
  obtain ⟨n, a, ignored, hn, ha, hids, rfl⟩ := ofDescription_eq_ok_iff.1 h
  rw [ignoredIds, hignored] at hids
  obtain rfl := Except.ok.inj hids
  exact ⟨n, a, hn, ha, rfl⟩

/-- A keyword and names, which may look like the keyword. -/
def keywordFirst : Description where
  terminals := [("IF", .literal "if"), ("NAME", .plus (.oneOf [⟨.ofChar 'a', .ofChar 'z'⟩]))]

/-- The same terminals in the other order. -/
def nameFirst : Description := { keywordFirst with terminals := keywordFirst.terminals.reverse }

end Lexicon

end TableLexer
