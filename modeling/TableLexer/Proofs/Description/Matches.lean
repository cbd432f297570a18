import TableLexer.Proofs.Description.Build
import TableLexer.Proofs.Pattern.Declared

/-! The automaton of a description matches a text with the first terminal whose pattern denotes it. -/
namespace TableLexer

namespace Description

open Automaton

variable {d : Description} {a c : Automaton} {meaning : Meaning} {done : List (String × Pattern)}
  {named : String × Pattern}

/-- The automaton knows what the names mean and has the given terminals, in their order. -/
structure Lexes (meaning : Meaning) (terminals : List (String × Pattern)) (a : Automaton) : Prop where
  wellFormed : a.WellFormed
  rooted : a.Rooted
  means : a.Means meaning
  names : a.terminals.names = eofName :: terminals.map Prod.fst
  spells : ∀ w i, a.Spells w i ↔
    ∃ (j : Nat) (name : String) (p : Pattern), i = j + 1 ∧ terminals[j]? = some (name, p) ∧ w ∈ p.denote meaning

private theorem meaningAfter_concat (meaning : Meaning) (done : List (String × Pattern)) (name : String)
    (p : Pattern) : meaningAfter meaning (done ++ [(name, p)]) =
      Function.update (meaningAfter meaning done) name (p.denote (meaningAfter meaning done)) := by
  induction done generalizing meaning with
  | nil => rfl
  | cons named done ih => exact ih _

theorem lexes_start (config : BuildConfig) : Lexes (fun _ => 0) [] { config } where
  wellFormed := wellFormed_start config
  rooted p l edge := by
    cases p with
    | zero => cases l <;> simp [edge_none, edge_some, epsilonOf, transition?, state?, State.transition] at edge
    | succ p => exact idle_of_size_le (show 1 ≤ p + 1 by omega) l _ edge
  means name f hf := by simp at hf
  names := rfl
  spells w i := by
    simp only [Spells, List.getElem?_nil, reduceCtorEq, false_and, and_false, exists_false, iff_false]
    intro hresult
    obtain ⟨q, -, hq⟩ := hresult
    cases q <;> simp [terminal?, state?] at hq

/-- A name that is new is registered behind those there are. -/
theorem encode_next {terminals : Registry} (hnames : terminals.names = eofName :: done.map Prod.fst)
    (hne : named.1 ≠ eofName) (hnew : named.1 ∉ done.map Prod.fst) : terminals.encode named.1 =
      (done.length + 1, ⟨eofName :: (done ++ [named]).map Prod.fst⟩) := by
  have hid : terminals.id? named.1 = none := by
    rw [Registry.id?_eq_none_iff, hnames]
    exact fun hmem => (List.mem_cons.1 hmem).elim hne hnew
  rw [Registry.encode, hid, Registry.size, hnames]
  simp

/-- The terminals whose patterns have a property, when one more is declared behind the others. -/
theorem numbered_concat (reads : Pattern → Prop) {i : Nat} :
    ((∃ (j : Nat) (name : String) (p : Pattern), i = j + 1 ∧ done[j]? = some (name, p) ∧ reads p) ∨
      i = done.length + 1 ∧ reads named.2) ↔
    ∃ (j : Nat) (name : String) (p : Pattern), i = j + 1 ∧ (done ++ [named])[j]? = some (name, p) ∧
      reads p := by
  constructor
  · intro hcases
    rcases hcases with ⟨j, name, p, rfl, hj, hw⟩ | ⟨rfl, hw⟩
    · exact ⟨j, name, p, rfl, List.getElem?_append_left (List.getElem?_eq_some_iff.1 hj).1 ▸ hj, hw⟩
    · exact ⟨done.length, named.1, named.2, rfl, List.getElem?_concat_length .., hw⟩
  · intro hword
    obtain ⟨j, name, p, rfl, hj, hw⟩ := hword
    rw [List.getElem?_append] at hj
    split at hj
    · exact .inl ⟨j, name, p, rfl, hj, hw⟩
    · next hge =>
      obtain ⟨hlt, heq⟩ := List.getElem?_eq_some_iff.1 hj
      rw [List.length_singleton] at hlt
      obtain rfl : j = done.length := by omega
      rw [List.getElem_singleton] at heq
      exact .inr ⟨rfl, heq ▸ hw⟩

/-- What holds before the terminals are declared and is passed on by each of them holds afterwards. -/
theorem foldlM_declareTerminal_ok (holds : List (String × Pattern) → Automaton → Prop)
    (hnames : (d.terminals.map Prod.fst).Nodup) (h : d.terminals.foldlM declareTerminal a = .ok c)
    (hstart : holds [] a)
    (hstep : ∀ done named a c, named ∈ d.terminals → named.1 ∉ done.map Prod.fst → holds done a →
      declareTerminal a named = .ok c → holds (done ++ [named]) c) : holds d.terminals c := by
  refine foldlM_ok holds h hstart fun done named rest a c hitems ha hac => ?_
  refine hstep done named a c (hitems ▸ by simp) (fun hmem => ?_) ha hac
  rw [← hitems, List.map_append, List.map_cons, List.nodup_append] at hnames
  exact hnames.2.2 _ hmem _ List.mem_cons_self rfl

/-- Defining a name gives it the meaning of its pattern. -/
theorem Lexes.define (h : Lexes meaning [] a) (hp : named.2.optionsOpen)
    (hdefine : define a named = .ok c) :
    Lexes (Function.update meaning named.1 (named.2.denote meaning)) [] c := by
  have hleads : Builder.Leads (Builder.addDefinition named.1 named.2.build) a _ :=
    .addDefinition h.wellFormed (Pattern.build_correct named.2 hp h.wellFormed h.means)
  have happly := define_eq_ok_iff.1 hdefine
  have hc := hleads.grows.wellFormed
  obtain ⟨f, b, hb, ⟨K, rfl, hlanguage, hbuilds, -⟩, howns, rfl⟩ := hleads.good _ _ happly
  rw [happly] at hc
  have hrooted : b.Rooted := h.rooted.frame h.wellFormed hbuilds.frame
  refine ⟨hc, hrooted, fun name f hf => ?_,
    (congrArg Registry.names hbuilds.frame.terminals).trans h.names, fun w i => ?_⟩
  · rw [defining, List.lookup_cons] at hf
    split at hf
    · next heq =>
      obtain rfl := Option.some.inj hf
      refine ⟨K, rfl, ?_, hbuilds.has.defining, hbuilds.initial_not_mem h.wellFormed⟩
      rw [hlanguage, eq_of_beq heq, Function.update_self]
    · next hne =>
      obtain ⟨M, hM, hmeans, hhas, hinitial⟩ := h.means.keep hb hbuilds.frame name f hf
      refine ⟨M, hM, ?_, hhas.defining, hinitial⟩
      rw [hmeans, Function.update_of_ne (ne_of_beq_false hne)]
  · refine (hbuilds.frame.spells_iff h.wellFormed).trans ((h.spells w i).trans ?_)
    simp

/-- Declaring a new terminal adds it to the others. -/
theorem Lexes.declareTerminal (h : Lexes meaning done a) (hp : named.2.optionsOpen)
    (hnew : named.1 ∉ done.map Prod.fst) (hdeclare : declareTerminal a named = .ok c) :
    Lexes meaning (done ++ [named]) c := by
  have hleads : Builder.Leads (Builder.addTerminal named.1 named.2.build) a _ :=
    .addTerminal h.wellFormed (Pattern.build_correct named.2 hp h.wellFormed h.means)
  obtain ⟨id, happly⟩ := declareTerminal_eq_ok_iff.1 hdeclare
  have hc := hleads.grows.wellFormed
  obtain ⟨f, b, hb, ⟨K, rfl, hlanguage, hbuilds, -⟩, hdeclared⟩ := hleads.good _ _ happly
  rw [happly] at hc
  have hencode := encode_next ((congrArg Registry.names hbuilds.frame.terminals).trans h.names)
    hdeclared.ne_eof hnew
  refine ⟨hc, hbuilds.placed.rooted_declared h.wellFormed hb.wellFormed hdeclared h.rooted,
    hbuilds.means_declared hdeclared h.means, ?_, fun w i => ?_⟩
  · rw [hdeclared.terminals, hencode]
  · have hwords : Path b.Edge K.fragment.entry w K.fragment.exit ↔ w ∈ named.2.denote meaning :=
      hlanguage ▸ hbuilds.fits.spells w
    rw [hbuilds.placed.spells_declared h.wellFormed hb.wellFormed hdeclared h.rooted, h.spells, hwords,
      hdeclared.id_eq, hencode]
    exact numbered_concat (w ∈ ·.denote meaning)

theorem lexes_of_build (hnames : (d.terminals.map Prod.fst).Nodup)
    (hdefinitions : ∀ named ∈ d.definitions, named.2.optionsOpen)
    (hterminals : ∀ named ∈ d.terminals, named.2.optionsOpen) (hbuild : d.build = .ok a) :
    Lexes d.meaning d.terminals a := by
  obtain ⟨b, hdefine, hdeclare⟩ := build_eq_ok_iff.1 hbuild
  have hb : Lexes d.meaning [] b := by
    refine foldlM_ok (fun done a => Lexes (meaningAfter (fun _ => 0) done) [] a) hdefine
      (lexes_start _) fun done named rest a c hitems ha hac => ?_
    rw [meaningAfter_concat]
    exact ha.define (hdefinitions named (hitems ▸ by simp)) hac
  exact foldlM_declareTerminal_ok (Lexes d.meaning) hnames hdeclare hb
    fun done named a c hmem hnew ha hac => ha.declareTerminal (hterminals named hmem) hnew hac

/-- The automaton of a description matches a text with the first terminal whose pattern denotes it,
and no text with characters outside the alphabet. -/
theorem build_matches_first (hnames : (d.terminals.map Prod.fst).Nodup)
    (hdefinitions : ∀ named ∈ d.definitions, named.2.optionsOpen)
    (hterminals : ∀ named ∈ d.terminals, named.2.optionsOpen) (hbuild : d.build = .ok a) :
    (∀ text w, Symbol.word? text.toList = some w →
      (∀ i, a.matches? text = some i ↔ IsLeast {i | d.Denotes i w} i) ∧
        (a.matches? text = none ↔ ∀ i, ¬ d.Denotes i w)) ∧
      ∀ text, Symbol.word? text.toList = none → a.matches? text = none := by
  have h := lexes_of_build hnames hdefinitions hterminals hbuild
  have hspells (w : List Symbol) (i : Nat) : a.Spells w i ↔ d.Denotes i w := h.spells w i
  constructor
  · intro text w hw
    rw [matches?, hw, Option.bind_some]
    simp [accepts_eq_some_iff h.wellFormed, accepts_eq_none_iff h.wellFormed, hspells]
  · intro text hw
    rw [matches?, hw, Option.bind_none]

/-- Numbers that may have a sign, and rows of dashes. -/
def numbers : Description where
  definitions := [("digit", .oneOf [⟨.ofChar '0', .ofChar '9'⟩])]
  terminals := [
    ("NUMBER", .sequence [.optional (.literal "-"), .plus (.defined "digit")]),
    ("DASHES", .repeated (.literal "-") 1 none)]

theorem build_matches_first_numbers : (numbers.terminals.map Prod.fst).Nodup ∧
    (∀ named ∈ numbers.definitions, named.2.optionsOpen) ∧
    (∀ named ∈ numbers.terminals, named.2.optionsOpen) ∧ ∃ a, numbers.build = .ok a ∧
      (∀ text w, Symbol.word? text.toList = some w →
        (∀ i, a.matches? text = some i ↔ IsLeast {i | numbers.Denotes i w} i) ∧
          (a.matches? text = none ↔ ∀ i, ¬ numbers.Denotes i w)) ∧
      ∀ text, Symbol.word? text.toList = none → a.matches? text = none := by
  have hnames : (numbers.terminals.map Prod.fst).Nodup := by decide
  have hdefinitions : ∀ named ∈ numbers.definitions, named.2.optionsOpen := by
    simp [numbers, Pattern.optionsOpen]
  have hterminals : ∀ named ∈ numbers.terminals, named.2.optionsOpen := by
    simp [numbers, Pattern.optionsOpen, Pattern.allOptionsOpen, Pattern.isOpen]
  obtain ⟨a, h⟩ : ∃ a, numbers.build = .ok a := exists_ok_of_toBool (by decide +kernel)
  exact ⟨hnames, hdefinitions, hterminals, a, h, build_matches_first hnames hdefinitions hterminals h⟩

end Description

end TableLexer
