import TableLexer.Proofs.Scanner.Longest

/-! How far a table follows a text, and what a step of the scanner makes of it: the scanner after a token, and
the failure and the scanner after it. -/
namespace TableLexer

open Automaton

variable {a : Automaton} {text v v' rest rest' : List Char} {q q' : StateId}

/-- The automaton has a state for the beginning of a text, and none once the next character is taken on. -/
structure Furthest (a : Automaton) (text v rest : List Char) (q : StateId) : Prop where
  split : v ++ rest = text
  state : a.stateAfter? v = some q
  stop : ∀ c ∈ rest.head?, a.stateAfter? (v ++ [c]) = none

/-- There is no state for any beginning that is longer. -/
theorem Furthest.eq_nil (h : Furthest a text v (v' ++ rest) q) (hstate : a.stateAfter? (v ++ v') = some q') :
    v' = [] := by
  cases v' with
  | nil => rfl
  | cons c v' =>
    have hnone := stateAfter?_append_eq_none (h.stop c rfl) v'
    rw [List.append_assoc, List.singleton_append, hstate] at hnone
    exact absurd hnone (by simp)

private theorem Furthest.unique (h : Furthest a text v rest q) (h' : Furthest a text v' rest' q') :
    v = v' ∧ rest = rest' ∧ q = q' := by
  rcases List.append_eq_append_iff.1 (h.split.trans h'.split.symm) with ⟨u, rfl, rfl⟩ | ⟨u, rfl, rfl⟩
  · obtain rfl := h.eq_nil h'.state
    rw [List.append_nil] at h' ⊢
    exact ⟨rfl, rfl, Option.some.inj (h.state.symm.trans h'.state)⟩
  · obtain rfl := h'.eq_nil h.state
    rw [List.append_nil] at h ⊢
    exact ⟨rfl, rfl, Option.some.inj (h.state.symm.trans h'.state)⟩

variable {τ : Type} [TransitionTable τ] {place : StateId → StateId} {states : Set StateId}

namespace Match

variable {t : τ} {m : Match}

/-- Following stops at the furthest beginning, and finds the character behind it. -/
theorem Follows.furthest (h : Implements t a place states) (ha : a.WellFormed) (hepsilon : a.NoEpsilon)
    (hm : m.Follows a place) (i : Input) (hstays : a.StaysIn states (m.buffer.toList ++ i.unread)) : ∃ q,
      Furthest a (m.buffer.toList ++ i.unread) (Match.follow t m i).1.buffer.toList
          (Match.follow t m i).2.2.unread q ∧
        (Match.follow t m i).1.state = place q ∧
        (Match.follow t m i).2.1 = (Match.follow t m i).2.2.unread.head? := by
  obtain ⟨hend, hstop, hfound⟩ := hm.run h ha hepsilon i hstays
  obtain ⟨q, hq, hstate⟩ := hend.state
  exact ⟨q, ⟨Match.follow_text t m i, hq, hstop⟩, hstate, hfound⟩

end Match

section unique

variable {kindOf : String → Option TerminalId} {w w' : List Char} {kind kind' : TerminalId}

private theorem LongestMatch.unique (h : LongestMatch kindOf text w rest kind)
    (h' : LongestMatch kindOf text w' rest' kind') : w = w' ∧ rest = rest' ∧ kind = kind' := by
  have hlength : w.length = w'.length :=
    Nat.le_antisymm (h'.maximal w rest h.split (by simp [h.kindOf_eq]))
      (h.maximal w' rest' h'.split (by simp [h'.kindOf_eq]))
  obtain ⟨rfl, rfl⟩ := List.append_inj (h.split.trans h'.split.symm) hlength
  exact ⟨rfl, rfl, Option.some.inj (h.kindOf_eq.symm.trans h'.kindOf_eq)⟩

end unique

namespace Scanner

variable {s : Scanner τ} (h : Implements s.table a place states) (ha : a.WellFormed) (hepsilon : a.NoEpsilon)
  (hstays : a.StaysIn states s.input.unread) (hended : s.ended = none)
include h ha hepsilon hstays hended

/-- The token of a longest beginning, and the scanner behind it. -/
theorem scanOne_of_longestMatch {w : List Char} {kind : TerminalId}
    (hw : LongestMatch a.matches? s.input.unread w rest kind) : ∃ input : Input, input.unread = rest ∧
      s.scanOne = (.token ⟨kind, String.ofList w, s.location⟩,
        { s with input, location := s.location.afterAll w }) := by
  have hlongest := (Match.follows_empty h).follow h ha hepsilon s.input hstays
  have hsound := Match.follow_sound s.table (Match.sound_empty s.table) s.input
  rcases hfollow : Match.follow s.table (.empty s.table) s.input with ⟨m, found, input⟩
  have hunread := unread_eq_of_follow hfollow
  rw [hfollow] at hlongest hsound
  change Longest a.matches? s.input.unread m.accepted at hlongest
  cases haccepted : m.accepted with
  | none =>
    rw [haccepted] at hlongest
    have hnone := hlongest.eq_none_iff.1 rfl w rest hw.nonempty hw.split
    exact absurd (hw.kindOf_eq.symm.trans hnone) (by simp)
  | some best =>
    rw [haccepted] at hlongest
    have hle : best.1 ≤ m.buffer.toList.length := by simpa using (hsound _ _ haccepted).2
    obtain ⟨rfl, rfl, rfl⟩ := hw.unique hlongest.longestMatch
    refine ⟨input.putBackAll (m.buffer.toList.drop best.1), ?_, ?_⟩
    · rw [Input.unread_putBackAll, ← List.drop_append_of_le_length hle, hunread]
    · rw [← hunread, List.take_append_of_le_length hle]
      exact scanOne_of_accepted hended hfollow haccepted

/-- The failure at a text none of whose beginnings is matched, and the scanner behind it. -/
theorem scanOne_of_furthest (hne : s.input.unread ≠ [])
    (hnone : ∀ v u, v ≠ [] → v ++ u = s.input.unread → a.matches? (String.ofList v) = none)
    (hv : Furthest a s.input.unread v rest q) : ∃ input : Input, input.unread = rest ∧
      s.scanOne = (.failure ⟨rest.head?, s.location.afterAll v,
          Symbol.all.filter fun x => (a.transition? q x).isSome⟩,
        { s with input, location := s.location.afterAll v }) := by
  have hlongest := (Match.follows_empty h).follow h ha hepsilon s.input hstays
  obtain ⟨p, hfurthest, hstate, hfound⟩ := (Match.follows_empty h).furthest h ha hepsilon s.input hstays
  rcases hfollow : Match.follow s.table (.empty s.table) s.input with ⟨m, found, input⟩
  rw [hfollow] at hlongest hfurthest hstate hfound
  have haccepted : m.accepted = none := hlongest.eq_none_iff.2 hnone
  obtain ⟨rfl, rfl, rfl⟩ := hv.unique hfurthest
  dsimp only at hstate hfound
  have hstuck : m.buffer.toList ≠ [] ∨ found ≠ none := by
    rw [← not_and_or, hfound, List.head?_eq_none_iff]
    exact fun hnil => hne (by simp [← hv.split, hnil])
  have hscan := scanOne_of_failure hended hfollow haccepted hstuck
  rw [hstate, h.expected _ (hstays _ _ ⟨_, hfurthest.split⟩ hfurthest.state), hfound] at hscan
  exact ⟨input, rfl, hscan⟩

end Scanner

end TableLexer
