import TableLexer.Proofs.Scanner.Steps
import TableLexer.Proofs.Table.Implements

/-! A scanner whose table is that of an automaton takes the longest beginning that the automaton matches. -/
namespace TableLexer

section longest

variable {kindOf : String → Option TerminalId} {text rest : List Char} {best : Option (Nat × TerminalId)}

/-- Of the beginnings of a text that are of some kind, the empty one excepted, the longest one has this
length and is of this kind. -/
structure Longest (kindOf : String → Option TerminalId) (text : List Char)
    (best : Option (Nat × TerminalId)) : Prop where
  length_pos : ∀ n kind, best = some (n, kind) → 0 < n ∧ n ≤ text.length
  kindOf_take : ∀ n kind, best = some (n, kind) → kindOf (String.ofList (text.take n)) = some kind
  longer : ∀ k, (best.map Prod.fst).getD 0 < k → k ≤ text.length →
    kindOf (String.ofList (text.take k)) = none

private theorem longest_nil (kindOf : String → Option TerminalId) : Longest kindOf [] none where
  length_pos n kind h := by simp at h
  kindOf_take n kind h := by simp at h
  longer k hpos hle := by
    rw [List.length_nil] at hle
    omega

/-- A text that is of some kind is its own longest beginning. -/
private theorem longest_self {kind : TerminalId} (hpos : 0 < text.length)
    (h : kindOf (String.ofList text) = some kind) : Longest kindOf text (some (text.length, kind)) where
  length_pos n kind' heq := by
    obtain ⟨rfl, -⟩ := Prod.mk.inj (Option.some.inj heq)
    exact ⟨hpos, Nat.le_refl _⟩
  kindOf_take n kind' heq := by
    obtain ⟨rfl, rfl⟩ := Prod.mk.inj (Option.some.inj heq)
    rwa [List.take_length]
  longer k hlt hle := by
    rw [Option.map_some, Option.getD_some] at hlt
    omega

/-- Characters behind a text change nothing if no beginning that reaches into them is of some kind. -/
private theorem Longest.append (h : Longest kindOf text best)
    (hrest : ∀ k, 0 < k → k ≤ rest.length → kindOf (String.ofList (text ++ rest.take k)) = none) :
    Longest kindOf (text ++ rest) best where
  length_pos n kind heq := by
    have hlength := h.length_pos n kind heq
    rw [List.length_append]
    omega
  kindOf_take n kind heq := by
    rw [List.take_append_of_le_length (h.length_pos n kind heq).2]
    exact h.kindOf_take n kind heq
  longer k hlt hle := by
    by_cases hk : k ≤ text.length
    · rw [List.take_append_of_le_length hk]
      exact h.longer k hlt hk
    · rw [List.length_append] at hle
      rw [List.take_append, List.take_of_length_le (by omega)]
      exact hrest _ (by omega) (by omega)

/-- The longest beginning of a text that is of some kind, the empty one excepted, with its kind and what
comes behind it. -/
structure LongestMatch (kindOf : String → Option TerminalId) (text w rest : List Char)
    (kind : TerminalId) : Prop where
  split : w ++ rest = text
  nonempty : w ≠ []
  kindOf_eq : kindOf (String.ofList w) = some kind
  maximal : ∀ v u, v ++ u = text → (kindOf (String.ofList v)).isSome → v.length ≤ w.length

theorem Longest.longestMatch {n : Nat} {kind : TerminalId} (h : Longest kindOf text (some (n, kind))) :
    LongestMatch kindOf text (text.take n) (text.drop n) kind := by
  obtain ⟨hpos, hle⟩ := h.length_pos n kind rfl
  have hlength : (text.take n).length = n := List.length_take_of_le hle
  refine ⟨List.take_append_drop n text, List.ne_nil_of_length_pos (hlength.symm ▸ hpos),
    h.kindOf_take n kind rfl, fun v u hsplit hv => ?_⟩
  by_contra hlt
  have hnone := h.longer v.length (by simpa [hlength] using hlt) (by simp [← hsplit])
  rw [← hsplit, List.take_left] at hnone
  simp [hnone] at hv

theorem Longest.eq_none_iff (h : Longest kindOf text best) :
    best = none ↔ ∀ v u, v ≠ [] → v ++ u = text → kindOf (String.ofList v) = none := by
  constructor
  · intro heq v u hne heq'
    obtain rfl := heq
    obtain rfl := heq'
    have hnone := h.longer v.length (List.length_pos_of_ne_nil hne) (by simp)
    rwa [List.take_left] at hnone
  · intro hnone
    cases hbest : best with
    | none => rfl
    | some found =>
      rw [hbest] at h
      have hmatch := h.longestMatch
      have hmatched := hmatch.kindOf_eq
      rw [hnone _ _ hmatch.nonempty hmatch.split] at hmatched
      simp at hmatched

end longest

namespace Automaton

variable {a : Automaton} {text rest : List Char} {c : Char}

/-- The state after a text, if all of its characters have transitions. -/
def stateAfter? (a : Automaton) (text : List Char) : Option StateId :=
  (Symbol.word? text).bind (a.run? a.initial)

@[simp] theorem stateAfter?_nil (a : Automaton) : a.stateAfter? [] = some a.initial := rfl

theorem stateAfter?_concat : a.stateAfter? (text ++ [c]) =
    (a.stateAfter? text).bind fun q => (Symbol.ofChar? c).bind (a.transition? q) := by
  rw [stateAfter?, stateAfter?, Symbol.word?_append]
  cases Symbol.word? text with
  | none => rfl
  | some w =>
    rw [Symbol.word?_cons]
    cases hc : Symbol.ofChar? c with
    | none => simp
    | some s => simp [Symbol.word?, run?_concat]

theorem stateAfter?_lt (ha : a.WellFormed) {q : StateId} (h : a.stateAfter? text = some q) : q < a.size := by
  induction text using List.reverseRecOn generalizing q with
  | nil =>
    obtain rfl := Option.some.inj h
    exact ha.initial_lt
  | append_singleton text c _ =>
    rw [stateAfter?_concat] at h
    obtain ⟨p, -, h⟩ := Option.bind_eq_some_iff.1 h
    obtain ⟨s, -, h⟩ := Option.bind_eq_some_iff.1 h
    exact ha.edge_lt (edge_some.2 h)

/-- The states behind the beginnings of a text are among the given ones. -/
def StaysIn (a : Automaton) (states : Set StateId) (text : List Char) : Prop :=
  ∀ v q, v <+: text → a.stateAfter? v = some q → q ∈ states

theorem WellFormed.staysIn (ha : a.WellFormed) (text : List Char) : a.StaysIn (Set.Iio a.size) text :=
  fun _ _ _ h => stateAfter?_lt ha h

/-- Behind a text without a state there are no states. -/
theorem stateAfter?_append_eq_none (h : a.stateAfter? text = none) (rest : List Char) :
    a.stateAfter? (text ++ rest) = none := by
  induction rest using List.reverseRecOn with
  | nil => rwa [List.append_nil]
  | append_singleton rest c ih => rw [← List.append_assoc, stateAfter?_concat, ih, Option.bind_none]

theorem NoEpsilon.matches?_eq (h : a.NoEpsilon) (ha : a.WellFormed) (text : List Char) :
    a.matches? (String.ofList text) = (a.stateAfter? text).bind a.terminal? := by
  rw [matches?, String.toList_ofList, stateAfter?, Option.bind_assoc]
  exact congrArg _ (funext fun w => h.accepts_eq ha w)

/-- No beginning reaches past a character without a transition. -/
private theorem NoEpsilon.longest_of_stop (hepsilon : a.NoEpsilon) (ha : a.WellFormed)
    {best : Option (Nat × TerminalId)} (h : Longest a.matches? text best)
    (hstop : a.stateAfter? (text ++ [c]) = none) : Longest a.matches? (text ++ c :: rest) best := by
  refine h.append fun k hpos _ => ?_
  obtain ⟨k, rfl⟩ := Nat.exists_eq_add_of_lt hpos
  rw [Nat.zero_add, List.take_succ_cons, hepsilon.matches?_eq ha, ← List.singleton_append, ← List.append_assoc,
    stateAfter?_append_eq_none hstop, Option.bind_none]

end Automaton

section follow

open Automaton

variable {τ : Type} [TransitionTable τ] {t : τ} {a : Automaton} {place : StateId → StateId} {states : Set StateId}

namespace Match

/-- No character is found only where the input ends. -/
theorem follow_found (t : τ) (m : Match) (i : Input) :
    (follow t m i).2.1 = none ↔ (follow t m i).2.2.unread = [] := by
  fun_induction Match.follow t m i with
  | case1 m i hnext => simp [Input.next?_eq_none_iff.1 hnext]
  | case2 m i c rest hnext target htarget _ ih => exact ih
  | case3 m i c rest hnext hstop => simp

/-- The match has followed its text in the automaton and knows the longest beginning so far. -/
structure Follows (a : Automaton) (place : StateId → StateId) (m : Match) : Prop where
  state : ∃ q, a.stateAfter? m.buffer.toList = some q ∧ m.state = place q
  longest : Longest a.matches? m.buffer.toList m.accepted

theorem follows_empty (h : Implements t a place states) : (empty t).Follows a place where
  state := ⟨a.initial, rfl, h.initial⟩
  longest := longest_nil a.matches?

section step

variable (h : Implements t a place states) (ha : a.WellFormed) (hepsilon : a.NoEpsilon) {m : Match}
  {text : List Char}
include h

/-- The table has the transitions of the automaton. -/
private theorem Follows.next_eq (hm : m.Follows a place)
    (hstays : a.StaysIn states (m.buffer.toList ++ text)) (c : Char) :
    (Symbol.ofChar? c).bind (TransitionTable.next t m.state) =
      (a.stateAfter? (m.buffer.toList ++ [c])).map place := by
  obtain ⟨q, hq, hstate⟩ := hm.state
  rw [stateAfter?_concat, hq, Option.bind_some, hstate]
  cases Symbol.ofChar? c with
  | none => rfl
  | some s => exact h.next q (hstays _ q (List.prefix_append _ _) hq) s

include ha hepsilon

theorem Follows.extend (hm : m.Follows a place) {c : Char} {q : StateId}
    (hstays : a.StaysIn states (m.buffer.toList ++ c :: text))
    (hq : a.stateAfter? (m.buffer.toList ++ [c]) = some q) : (m.extend t c (place q)).Follows a place where
  state := ⟨q, by rwa [Match.extend, Array.toList_push], rfl⟩
  longest := by
    have hmem : q ∈ states := hstays _ q ⟨text, by simp⟩ hq
    have hmatches := hepsilon.matches?_eq ha (m.buffer.toList ++ [c])
    rw [hq, Option.bind_some, ← h.accepts q hmem] at hmatches
    unfold Match.extend
    rw [Array.toList_push]
    dsimp only
    split
    · next kind hkind =>
      rw [hkind] at hmatches
      have hlongest := longest_self (by simp) hmatches
      rwa [List.length_append, Array.length_toList] at hlongest
    · next hnone =>
      rw [hnone] at hmatches
      refine hm.longest.append fun k hpos hle => ?_
      rw [List.length_singleton] at hle
      obtain rfl : k = 1 := by omega
      exact hmatches

/-- A match goes on knowing what it knows while it follows an input, and stops in front of the first character that
leads to no state. -/
theorem Follows.run (hm : m.Follows a place) (i : Input)
    (hstays : a.StaysIn states (m.buffer.toList ++ i.unread)) : (follow t m i).1.Follows a place ∧
    (∀ c ∈ (follow t m i).2.2.unread.head?, a.stateAfter? ((follow t m i).1.buffer.toList ++ [c]) = none) ∧
    (follow t m i).2.1 = (follow t m i).2.2.unread.head? := by
  fun_induction Match.follow t m i with
  | case1 m i hnext =>
    have hnil := Input.next?_eq_none_iff.1 hnext
    exact ⟨hm, by simp [hnil], by simp [hnil]⟩
  | case2 m i c rest hnext target htarget _ ih =>
    rw [hm.next_eq h hstays] at htarget
    obtain ⟨q, hq, rfl⟩ := Option.map_eq_some_iff.1 htarget
    rw [Input.unread_of_next? hnext] at hstays
    refine ih (hm.extend h ha hepsilon hstays hq) ?_
    rwa [Match.extend, Array.toList_push, List.append_assoc]
  | case3 m i c rest hnext hstop =>
    rw [hm.next_eq h hstays, Option.map_eq_none_iff] at hstop
    exact ⟨hm, by simpa using hstop, rfl⟩

/-- Where following ends, the longest beginning of the whole text is known. -/
theorem Follows.follow (hm : m.Follows a place) (i : Input)
    (hstays : a.StaysIn states (m.buffer.toList ++ i.unread)) :
    Longest a.matches? (m.buffer.toList ++ i.unread) (follow t m i).1.accepted := by
  obtain ⟨hend, hstop, -⟩ := hm.run h ha hepsilon i hstays
  rw [← follow_text t m i]
  cases hrest : (Match.follow t m i).2.2.unread with
  | nil =>
    rw [List.append_nil]
    exact hend.longest
  | cons c rest =>
    rw [hrest] at hstop
    exact hepsilon.longest_of_stop ha hend.longest (hstop c rfl)

end step

end Match

namespace Scanner

variable {s : Scanner τ}

/-- A step of the scanner takes the longest beginning of the unread text that is of some kind, and no more
than that. It takes no empty one. If none is of some kind, it comes to the end where nothing is left, and
else to a failure. -/
structure Munches (kindOf : String → Option TerminalId) (s : Scanner τ) : Prop where
  token : ∀ v u, v ≠ [] → v ++ u = s.input.unread → (kindOf (String.ofList v)).isSome →
    ∃ w rest kind s', LongestMatch kindOf s.input.unread w rest kind ∧
      s.scanOne = (.token ⟨kind, String.ofList w, s.location⟩, s') ∧ s'.input.unread = rest
  ended : s.input.unread = [] → s.scanOne = (.ended, s)
  failure : s.input.unread ≠ [] →
    (∀ v u, v ≠ [] → v ++ u = s.input.unread → kindOf (String.ofList v) = none) →
      ∃ e s', s.scanOne = (.failure e, s')
  lexeme_ne : ∀ t s', s.scanOne = (.token t, s') → t.lexeme ≠ ""

theorem scanOne_of_unread_nil (hended : s.ended = none) (hnil : s.input.unread = []) :
    s.scanOne = (.ended, s) := by
  have hend := Match.follow_end (t := s.table) (m := .empty s.table) (Input.next?_eq_none_iff.2 hnil)
  exact scanOne_of_empty hended hend rfl rfl rfl

section pass

variable {m : Match} {found : Option Char} {input : Input}
  (hfollow : Match.follow s.table (.empty s.table) s.input = (m, found, input))
include hfollow

theorem unread_eq_of_follow : m.buffer.toList ++ input.unread = s.input.unread := by
  have htext := Match.follow_text s.table (.empty s.table) s.input
  rwa [hfollow] at htext

/-- A token is as long as the match says, and is taken from the unread text. -/
private theorem exists_scanOne_token (hended : s.ended = none) {n : Nat} {kind : TerminalId}
    (haccepted : m.accepted = some (n, kind)) : ∃ s',
      s.scanOne = (.token ⟨kind, String.ofList (s.input.unread.take n), s.location⟩, s') ∧
        s'.input.unread = s.input.unread.drop n := by
  have hsound := Match.follow_sound s.table (Match.sound_empty s.table) s.input
  rw [hfollow] at hsound
  have hle : n ≤ m.buffer.toList.length := by simpa using (hsound n kind haccepted).2
  rw [← unread_eq_of_follow hfollow, List.take_append_of_le_length hle, List.drop_append_of_le_length hle]
  exact ⟨_, scanOne_of_accepted hended hfollow haccepted, Input.unread_putBackAll _ _⟩

private theorem exists_scanOne_failure (hended : s.ended = none) (hnone : m.accepted = none)
    (hne : s.input.unread ≠ []) : ∃ e s', s.scanOne = (.failure e, s') := by
  have hfound := Match.follow_found s.table (.empty s.table) s.input
  rw [hfollow] at hfound
  refine ⟨_, _, scanOne_of_failure hended hfollow hnone (not_and_or.1 ?_)⟩
  intro hstuck
  apply hne
  rw [← unread_eq_of_follow hfollow, hstuck.1, hfound.1 hstuck.2, List.append_nil]

end pass

/-- A scanner on the table of an automaton takes the longest beginning that the automaton matches. -/
theorem munches (h : Implements s.table a place states) (ha : a.WellFormed) (hepsilon : a.NoEpsilon)
    (hstays : a.StaysIn states s.input.unread) (hended : s.ended = none) : s.Munches a.matches? := by
  have hlongest := (Match.follows_empty h).follow h ha hepsilon s.input hstays
  rcases hfollow : Match.follow s.table (.empty s.table) s.input with ⟨m, found, input⟩
  rw [hfollow] at hlongest
  change Longest a.matches? s.input.unread m.accepted at hlongest
  cases haccepted : m.accepted with
  | none =>
    rw [haccepted] at hlongest
    have hnone := hlongest.eq_none_iff.1 rfl
    refine ⟨fun v u hne hsplit hv => ?_, scanOne_of_unread_nil hended,
      fun hne _ => exists_scanOne_failure hfollow hended haccepted hne, fun t s' ht => ?_⟩
    · simp [hnone v u hne hsplit] at hv
    · by_cases hnil : s.input.unread = []
      · simp [scanOne_of_unread_nil hended hnil] at ht
      · obtain ⟨e, s'', hscan⟩ := exists_scanOne_failure hfollow hended haccepted hnil
        simp [hscan] at ht
  | some best =>
    rw [haccepted] at hlongest
    have hmatch := hlongest.longestMatch
    obtain ⟨s', hscan, hrest⟩ := exists_scanOne_token hfollow hended haccepted
    refine ⟨fun v u hne hsplit hv => ⟨_, _, _, s', hmatch, hscan, hrest⟩, scanOne_of_unread_nil hended,
      fun hne hnone => ?_, fun t s'' ht => ?_⟩
    · simpa using hlongest.eq_none_iff.2 hnone
    · obtain rfl := Attempt.token.inj (congrArg Prod.fst (ht.symm.trans hscan))
      simpa using hmatch.nonempty

end Scanner

end follow

end TableLexer
