import TableLexer.Proofs.Scanner.Ignoring

/-! What the steps of a scanner keep, all requests keep. -/
namespace TableLexer

namespace Scanner

/-- The token that an event hands out. One that is passed over is not handed out. -/
def Event.handedOut? : Event → Option Token
  | token t => some t
  | passed _ => none
  | failure _ => none
  | skipped _ _ => none

/-- The tokens that a reply hands out. -/
def Reply.handedOut : Reply → List Token
  | token result => result.toOption.toList
  | tokens result => result.toOption.getD []
  | events all => all.filterMap Event.handedOut?
  | skipped _ => []
  | accepted => []
  | refused _ => []
  | flag _ => []

private theorem mem_filterMap_handedOut? {events : List Event} {t : Token} :
    t ∈ events.filterMap Event.handedOut? ↔ .token t ∈ events := by
  rw [List.mem_filterMap]
  constructor
  · intro h
    obtain ⟨event, hevent, ht⟩ := h
    cases event with
    | token u =>
      obtain rfl := Option.some.inj ht
      exact hevent
    | passed _ => contradiction
    | failure _ => contradiction
    | skipped _ _ => contradiction
  · exact fun h => ⟨_, h, rfl⟩

private theorem token_mem_passOver {passed : List Token} {made : List Event} {t : Token} :
    .token t ∈ passOver passed made ↔ .token t ∈ made := by
  simp [passOver, List.reverseAux_eq]

section made

variable {good : Token → Prop} {t u : Token} (ht : good t)
include ht

private theorem mem_or_good {made : List Token} (h : u ∈ t :: made) : u ∈ made ∨ good u := by
  cases h with
  | head => exact .inr ht
  | tail _ h => exact .inl h

private theorem token_mem_or_good {passed : List Token} {made : List Event}
    (h : .token u ∈ .token t :: passOver passed made) : .token u ∈ made ∨ good u := by
  cases h with
  | head => exact .inr ht
  | tail _ h => exact .inl (token_mem_passOver.1 h)

end made

variable {τ : Type} [TransitionTable τ] {s s' : Scanner τ}

/-- Every step of a scanner keeps an invariant, and the tokens to be handed out are good. A step scans up to a
token, which is consumed or looked at, consumes the token that has been looked at, skips a character, or ignores
a kind. -/
structure Keeps (inv : Scanner τ → Prop) (good : Token → Prop) : Prop where
  scan : ∀ s, inv s → s.current = none → inv (s.scanPast []).2.2
  look : ∀ s t s', inv s → s.current = none → (s.scanPast []).2 = (.ok t, s') →
    good t ∧ inv { s' with current := some t }
  take : ∀ s t, inv s → s.current = some t → good t ∧ inv { s with current := none }
  skip : ∀ s, inv s → inv s.skip.2
  ignore : ∀ s id s', inv s → s.ignore id = .ok s' → inv s'

namespace Keeps

variable {inv : Scanner τ → Prop} {good : Token → Prop} (h : Keeps inv good)
include h

theorem read {passed : List Token} {result : Except LexicalError Token} (hs : inv s)
    (hread : s.read = (passed, result, s')) : inv s' ∧ ∀ t, result = .ok t → good t := by
  cases hcurrent : s.current with
  | some u =>
    obtain ⟨-, hrest⟩ := Prod.mk.inj ((read_of_current hcurrent).symm.trans hread)
    obtain ⟨rfl, rfl⟩ := Prod.mk.inj hrest
    obtain ⟨hgood, hinv⟩ := h.take s u hs hcurrent
    refine ⟨hinv, fun t ht => ?_⟩
    obtain rfl := Except.ok.inj ht
    exact hgood
  | none =>
    have hscan := (read_of_none hcurrent).symm.trans hread
    have hinv := h.scan s hs hcurrent
    rw [hscan] at hinv
    refine ⟨hinv, fun t ht => ?_⟩
    subst ht
    exact (h.look s t s' hs hcurrent (congrArg Prod.snd hscan)).1

theorem peek (hs : inv s) : inv s.peek.2 ∧ ∀ t, s.peek.1 = .ok t → good t := by
  cases hcurrent : s.current with
  | some u =>
    rw [peek_of_current hcurrent]
    refine ⟨hs, fun t ht => ?_⟩
    obtain rfl := Except.ok.inj ht
    exact (h.take s u hs hcurrent).1
  | none =>
    have hinv := h.scan s hs hcurrent
    rcases hscan : (s.scanPast []).2 with ⟨e | u, s'⟩
    · rw [peek_of_failure hcurrent hscan]
      rw [hscan] at hinv
      exact ⟨hinv, fun t ht => by simp at ht⟩
    · rw [peek_of_token hcurrent hscan]
      obtain ⟨hgood, hinv⟩ := h.look s u s' hs hcurrent hscan
      refine ⟨hinv, fun t ht => ?_⟩
      obtain rfl := Except.ok.inj ht
      exact hgood

theorem readAllAfter (hs : inv s) (made : List Token) : inv (s.readAllAfter made).2.2 ∧
    ∀ t ∈ (s.readAllAfter made).1, t ∈ made ∨ good t := by
  fun_induction Scanner.readAllAfter s made with
  | case1 s made passed t s' hread _ =>
    obtain ⟨hinv, hgood⟩ := h.read hs hread
    exact ⟨hinv, fun u hu => mem_or_good (hgood t rfl) (List.mem_reverse.1 hu)⟩
  | case2 s made passed t s' hread _ _ ih =>
    obtain ⟨hinv, hgood⟩ := h.read hs hread
    obtain ⟨hinv', hmade⟩ := ih hinv
    exact ⟨hinv', fun u hu => (hmade u hu).elim (mem_or_good (hgood t rfl)) .inr⟩
  | case3 s made passed e s' hread =>
    exact ⟨(h.read hs hread).1, fun u hu => .inl (List.mem_reverse.1 hu)⟩

theorem scanAll (hs : inv s) : inv s.scanAll.2 ∧ ∀ tokens, s.scanAll.1 = .ok tokens → ∀ t ∈ tokens, good t := by
  have hread := h.readAllAfter hs []
  unfold Scanner.scanAll readAll
  generalize s.readAllAfter [] = result at hread ⊢
  obtain ⟨tokens, failed, s'⟩ := result
  obtain ⟨hinv, hmade⟩ := hread
  cases failed with
  | none =>
    refine ⟨hinv, fun made hok t ht => ?_⟩
    obtain rfl := Except.ok.inj hok
    exact (hmade t ht).resolve_left List.not_mem_nil
  | some e => exact ⟨hinv, fun made hok => by simp at hok⟩

theorem recoverAfter (hs : inv s) (made : List Event) : inv (s.recoverAfter made).2 ∧
    ∀ t, .token t ∈ (s.recoverAfter made).1 → .token t ∈ made ∨ good t := by
  fun_induction Scanner.recoverAfter s made with
  | case1 s made passed t s' hread _ =>
    obtain ⟨hinv, hgood⟩ := h.read hs hread
    exact ⟨hinv, fun u hu => token_mem_or_good (hgood t rfl) (List.mem_reverse.1 hu)⟩
  | case2 s made passed t s' hread _ _ ih =>
    obtain ⟨hinv, hgood⟩ := h.read hs hread
    obtain ⟨hinv', hmade⟩ := ih hinv
    exact ⟨hinv', fun u hu => (hmade u hu).elim (token_mem_or_good (hgood t rfl)) .inr⟩
  | case3 s made passed e s' hread s'' hskip =>
    have hinv := h.skip s' (h.read hs hread).1
    rw [hskip] at hinv
    exact ⟨hinv, fun u hu => .inl (by simpa [token_mem_passOver] using hu)⟩
  | case4 s made passed e s' hread c s'' hskip _ ih =>
    have hinv := h.skip s' (h.read hs hread).1
    rw [hskip] at hinv
    obtain ⟨hinv', hmade⟩ := ih hinv
    exact ⟨hinv', fun u hu => (hmade u hu).imp_left (by simp [token_mem_passOver])⟩

theorem answer (hs : inv s) (request : Request) : inv (s.answer request).2 ∧
    ∀ t ∈ (s.answer request).1.handedOut, good t := by
  cases request with
  | current =>
    obtain ⟨hinv, hgood⟩ := h.peek hs
    exact ⟨hinv, fun t ht => hgood t (mem_toOption.1 ht)⟩
  | advance =>
    obtain ⟨hinv, hgood⟩ := h.read hs rfl
    exact ⟨hinv, fun t ht => hgood t (mem_toOption.1 ht)⟩
  | scanAll =>
    obtain ⟨hinv, hgood⟩ := h.scanAll hs
    refine ⟨hinv, fun t ht => ?_⟩
    change t ∈ s.scanAll.1.toOption.getD [] at ht
    cases htokens : s.scanAll.1 with
    | ok tokens =>
      rw [htokens] at ht
      exact hgood tokens htokens t ht
    | error e => simp [htokens, Except.toOption] at ht
  | skip => exact ⟨h.skip s hs, fun t ht => absurd ht List.not_mem_nil⟩
  | recover =>
    obtain ⟨hinv, hgood⟩ := h.recoverAfter hs []
    refine ⟨hinv, fun t ht => ?_⟩
    exact (hgood t (mem_filterMap_handedOut?.1 ht)).resolve_left List.not_mem_nil
  | isIgnored id => exact ⟨hs, fun t ht => absurd ht List.not_mem_nil⟩
  | ignore id =>
    rw [Scanner.answer]
    cases hignore : s.ignore id with
    | ok s' => exact ⟨h.ignore s id s' hs hignore, fun t ht => absurd ht List.not_mem_nil⟩
    | error e => exact ⟨hs, fun t ht => absurd ht List.not_mem_nil⟩
  | ignoreNamed name =>
    rw [Scanner.answer]
    cases hignore : s.ignoreNamed name with
    | ok s' =>
      obtain ⟨id, hid⟩ := exists_ignore_of_ignoreNamed hignore
      exact ⟨h.ignore s id s' hs hid, fun t ht => absurd ht List.not_mem_nil⟩
    | error e => exact ⟨hs, fun t ht => absurd ht List.not_mem_nil⟩

/-- Whatever is requested, the invariant is kept and the tokens that are handed out are good. -/
theorem after (hs : inv s) (requests : List Request) : inv (s.after requests) ∧
    ∀ reply ∈ s.answerAll requests, ∀ t ∈ reply.handedOut, good t := by
  induction requests generalizing s with
  | nil => exact ⟨hs, fun reply hreply => absurd hreply List.not_mem_nil⟩
  | cons request requests ih =>
    obtain ⟨hinv, hgood⟩ := h.answer hs request
    obtain ⟨hinv', hgood'⟩ := ih hinv
    refine ⟨hinv', fun reply hreply => ?_⟩
    rw [answerAll_cons] at hreply
    cases hreply with
    | head => exact hgood
    | tail _ hreply => exact hgood' reply hreply

end Keeps

/-- What holds of the ignored kinds is kept if it still holds with one kind more. -/
theorem keeps_of_ignored (p : List TerminalId → Prop) (h : ∀ id ids, id ≠ eof → p ids → p (id :: ids)) :
    Keeps (fun s : Scanner τ => p s.ignored) fun _ => True where
  scan s hs _ := by rwa [scanPast_ignored]
  look s t s' hs _ hscan := by
    have hignored := scanPast_ignored s []
    rw [hscan] at hignored
    rw [← hignored] at hs
    exact ⟨trivial, hs⟩
  take s t hs _ := ⟨trivial, hs⟩
  skip s hs := by
    unfold skip
    split <;> exact hs
  ignore s id s' hs hignore := by
    obtain ⟨⟨hne, -⟩, rfl⟩ := eq_of_ignore hignore
    exact h id s.ignored hne hs

/-- The end of input is never ignored. -/
theorem keeps_eof : Keeps (fun s : Scanner τ => s.isIgnored eof = false) fun _ => True :=
  keeps_of_ignored (·.contains eof = false) fun id ids hne hids => by
    rw [List.contains_cons, hids, Bool.or_false, beq_eq_false_iff_ne]
    exact Ne.symm hne

/-- A kind that is ignored stays so. -/
theorem keeps_isIgnored (id : TerminalId) : Keeps (fun s : Scanner τ => s.isIgnored id = true) fun _ => True :=
  keeps_of_ignored (·.contains id = true) fun _ _ _ hids =>
    List.contains_iff_mem.2 (List.mem_cons_of_mem _ (List.contains_iff_mem.1 hids))

theorem isIgnored_eof_of_start {table : τ} {text : String} {ids : List TerminalId} (h : start table text ids = .ok s) :
    s.isIgnored eof = false := by
  obtain ⟨hids, rfl⟩ := eq_of_start h
  refine Bool.eq_false_iff.2 fun hignored => ?_
  exact (hids eof (List.mem_reverse.1 (List.contains_iff_mem.1 hignored))).1 rfl

end Scanner

end TableLexer
