import TableLexer.Proofs.Outcome
import TableLexer.Proofs.Scanner.Consumed

/-! A scanner loses no character of its text and makes none up, and it knows at every time where it stands. -/
namespace TableLexer

namespace Scanner

section events

variable {portions : List Portion}

/-- The tokens of these events, but for those of other ones, are among the portions. -/
def Covers (portions : List Portion) (others events : List Event) : Prop :=
  ∀ event ∈ events, ∀ t, event.token? = some t → event ∈ others ∨ .lexeme t ∈ portions

private theorem covers_passOver {passed : List Token} (hpassed : ∀ t ∈ passed, .lexeme t ∈ portions)
    (made : List Event) : Covers portions made (passOver passed made) := by
  intro event hevent t ht
  rw [passOver, List.reverseAux_eq] at hevent
  rcases List.mem_append.1 hevent with hevent | hevent
  · obtain ⟨u, hu, rfl⟩ := List.mem_map.1 (List.mem_reverse.1 hevent)
    obtain rfl := Option.some.inj ht
    exact .inr (hpassed u hu)
  · exact .inl hevent

theorem Covers.cons {others events : List Event} {event : Event} (h : Covers portions others events)
    (hevent : ∀ t, event.token? = some t → .lexeme t ∈ portions) : Covers portions others (event :: events) := by
  intro other hother t ht
  cases hother with
  | head => exact .inr (hevent t ht)
  | tail _ hother => exact h other hother t ht

theorem Covers.trans {others events events' : List Event} {more : List Portion}
    (h : Covers portions others events) (h' : Covers (portions ++ more) events events') :
    Covers (portions ++ more) others events' := by
  intro event hevent t ht
  cases h' event hevent t ht with
  | inr hmem => exact .inr hmem
  | inl hmem => exact (h event hmem t ht).imp_right (List.mem_append_left _)

private theorem Covers.reverse {others events : List Event} (h : Covers portions others events) :
    Covers portions others events.reverse := fun event hevent => h event (List.mem_reverse.1 hevent)

end events

section accounts

variable {τ : Type} [TransitionTable τ] {s s' : Scanner τ} {text : List Char} {portions : List Portion}
  {t : Token} {e : LexicalError}

/-- The portions and what is still unread make up the text, and the scanner stands where the portions end.
What it has looked at is one of them. -/
structure Accounts (text : List Char) (portions : List Portion) (s : Scanner τ) : Prop where
  text_eq : textOf portions ++ s.input.unread = text
  location_eq : s.location = .behind (textOf portions)
  placed : Placed portions
  current_mem : ∀ t, s.current = some t → .lexeme t ∈ portions
  ended_eq : ∀ place, s.ended = some place → place = s.location ∧ s.input.unread = []

namespace Accounts

omit [TransitionTable τ] in
/-- One more portion is taken from the front of what is unread. -/
theorem extend {portion : Portion} (h : Accounts text portions s)
    (hunread : portion.text ++ s'.input.unread = s.input.unread)
    (hlocation : s'.location = s.location.afterAll portion.text)
    (hplaced : portion.PlacedBehind (textOf portions)) (hcurrent : s'.current = s.current)
    (hended : ∀ place, s'.ended = some place → place = s'.location ∧ s'.input.unread = []) :
    Accounts text (portions ++ [portion]) s' := by
  have hdone : textOf (portions ++ [portion]) = textOf portions ++ portion.text := by
    rw [textOf_append]
    exact congrArg _ (List.flatMap_singleton ..)
  constructor
  · rw [hdone, List.append_assoc, hunread, h.text_eq]
  · rw [hdone, hlocation, h.location_eq, Location.afterAll_behind]
  · exact h.placed.concat hplaced
  · intro u hu
    rw [hcurrent] at hu
    exact List.mem_append_left _ (h.current_mem u hu)
  · exact hended

private theorem token (h : Accounts text portions s) (hscan : s.scanOne = (.token t, s')) :
    Accounts text (portions ++ [.lexeme t]) s' := by
  obtain ⟨hsteady, hended, hunread, ht, hlocation⟩ := scanOne_token hscan
  refine h.extend hunread hlocation (ht.trans h.location_eq) hsteady.current fun place hplace => ?_
  rw [hsteady.ended, hended] at hplace
  contradiction

private theorem failure (h : Accounts text portions s) (hscan : s.scanOne = (.failure e, s')) :
    Accounts text (portions ++ [.dropped s.followed e]) s' := by
  obtain ⟨hsteady, hended, hunread, he, hlocation⟩ := scanOne_failure hscan
  have hplace : e.location = .behind (textOf portions ++ s.followed) := by
    rw [he, hlocation, h.location_eq, Location.afterAll_behind]
  refine h.extend hunread hlocation hplace hsteady.current fun place hplace => ?_
  rw [hsteady.ended, hended] at hplace
  contradiction

/-- The token of the end is empty and stands where the scanner is, whenever it is asked for. -/
theorem ended (h : Accounts text portions s) (hscan : s.scanOne = (.ended, s')) :
    Accounts text (portions ++ [.lexeme (.ofEof (s'.ended.getD s'.location))])
      { s' with ended := some (s'.ended.getD s'.location) } := by
  obtain ⟨hsteady, hlocation, hunread, hnil⟩ := scanOne_ended hscan
  have hplace : s'.ended.getD s'.location = s'.location ∧ s'.input.unread = [] := by
    rw [hsteady.ended, hlocation, hunread]
    cases hended : s.ended with
    | none => exact ⟨rfl, hnil hended⟩
    | some place => exact h.ended_eq place hended
  rw [hplace.1]
  refine h.extend hunread hlocation (hlocation.trans h.location_eq) hsteady.current fun place hplace' => ?_
  obtain rfl := Option.some.inj hplace'
  exact ⟨rfl, hplace.2⟩

/-- Every token of a pass, ignored or not, is one of the portions that the pass consumes. -/
theorem scanPast (h : Accounts text portions s) (passed : List Token) :
    Accounts text (portions ++ s.consumedPast) (s.scanPast passed).2.2 ∧
      (∀ t, (s.scanPast passed).2.1 = .ok t → .lexeme t ∈ s.consumedPast) ∧
      ∀ t ∈ (s.scanPast passed).1, t ∈ passed ∨ .lexeme t ∈ s.consumedPast := by
  fun_induction consumedPast s generalizing portions passed with
  | case1 s t s' hscan hignored _ ih =>
    rw [scanPast_of_ignored hscan hignored]
    obtain ⟨haccounts, htoken, hpassed⟩ := ih (h.token hscan) (t :: passed)
    rw [List.append_assoc, List.singleton_append] at haccounts
    refine ⟨haccounts, fun u hu => List.mem_cons_of_mem _ (htoken u hu), fun u hu => ?_⟩
    rcases hpassed u hu with hmem | hmem
    · cases hmem with
      | head => exact .inr List.mem_cons_self
      | tail _ hmem => exact .inl hmem
    · exact .inr (List.mem_cons_of_mem _ hmem)
  | case2 s t s' hscan hignored =>
    rw [scanPast_of_token hscan (Bool.eq_false_of_not_eq_true hignored)]
    refine ⟨h.token hscan, fun u hu => ?_, fun u hu => .inl (List.mem_reverse.1 hu)⟩
    obtain rfl := Except.ok.inj hu
    exact List.mem_singleton_self _
  | case3 s s' hscan =>
    rw [scanPast_of_ended hscan]
    refine ⟨h.ended hscan, fun u hu => ?_, fun u hu => .inl (List.mem_reverse.1 hu)⟩
    obtain rfl := Except.ok.inj hu
    exact List.mem_singleton_self _
  | case4 s e s' hscan =>
    rw [scanPast_of_failure hscan]
    exact ⟨h.failure hscan, fun u hu => by simp at hu, fun u hu => .inl (List.mem_reverse.1 hu)⟩

/-- The next token is among the portions, whether it had been looked at or not. -/
theorem read (h : Accounts text portions s) {passed : List Token} {result : Except LexicalError Token}
    (hread : s.read = (passed, result, s')) :
    Accounts text (portions ++ s.consumedByRead) s' ∧
      (∀ t, result = .ok t → .lexeme t ∈ portions ++ s.consumedByRead) ∧
      ∀ t ∈ passed, .lexeme t ∈ portions ++ s.consumedByRead := by
  unfold Scanner.read at hread
  unfold consumedByRead
  cases hcurrent : s.current with
  | some t =>
    rw [hcurrent] at hread
    obtain ⟨rfl, hrest⟩ := Prod.mk.inj hread
    obtain ⟨rfl, rfl⟩ := Prod.mk.inj hrest
    simp only [List.append_nil]
    refine ⟨⟨h.text_eq, h.location_eq, h.placed, by simp, h.ended_eq⟩, fun u hu => ?_, by simp⟩
    obtain rfl := Except.ok.inj hu
    exact h.current_mem t hcurrent
  | none =>
    rw [hcurrent] at hread
    obtain ⟨haccounts, htoken, hpassed⟩ := h.scanPast []
    rw [show s.scanPast [] = (passed, result, s') from hread] at haccounts htoken hpassed
    refine ⟨haccounts, fun t ht => List.mem_append_right _ (htoken t ht), fun t ht => ?_⟩
    rcases hpassed t ht with hmem | hmem
    · simp at hmem
    · exact List.mem_append_right _ hmem

theorem peek (h : Accounts text portions s) : Accounts text (portions ++ s.consumedByRead) s.peek.2 ∧
    ∀ t, s.peek.1 = .ok t → .lexeme t ∈ portions ++ s.consumedByRead := by
  unfold Scanner.peek consumedByRead
  cases hcurrent : s.current with
  | some t =>
    simp only [List.append_nil]
    refine ⟨h, fun u hu => ?_⟩
    obtain rfl := Except.ok.inj hu
    exact h.current_mem t hcurrent
  | none =>
    obtain ⟨haccounts, htoken, -⟩ := h.scanPast []
    dsimp only
    split
    · next u s' hscan =>
      rw [hscan] at haccounts htoken
      have hmem := List.mem_append_right portions (htoken u rfl)
      refine ⟨⟨haccounts.text_eq, haccounts.location_eq, haccounts.placed, fun v hv => ?_,
        haccounts.ended_eq⟩, fun v hv => ?_⟩
      · obtain rfl := Option.some.inj hv
        exact hmem
      · obtain rfl := Except.ok.inj hv
        exact hmem
    · exact ⟨haccounts, fun u hu => List.mem_append_right _ (htoken u hu)⟩

omit [TransitionTable τ] in
theorem skip (h : Accounts text portions s) :
    Accounts text (portions ++ s.skip.1.toList.map .skipped) s.skip.2 := by
  unfold Scanner.skip
  split
  · next c input hended hnext =>
    refine h.extend (Input.unread_of_next? hnext).symm rfl trivial rfl fun place hplace => ?_
    exact absurd (hended.symm.trans hplace) (Option.some_ne_none place).symm
  · rw [Option.toList_none, List.map_nil, List.append_nil]
    exact h

theorem readAllAfter (h : Accounts text portions s) (made : List Token) :
    Accounts text (portions ++ s.consumedByReadAll) (s.readAllAfter made).2.2 ∧
      ∀ t ∈ (s.readAllAfter made).1, t ∈ made ∨ .lexeme t ∈ portions ++ s.consumedByReadAll := by
  fun_induction consumedByReadAll s generalizing portions made with
  | case1 s passed t s' hread hend =>
    rw [readAllAfter_of_eof hread hend]
    obtain ⟨haccounts, htoken, -⟩ := h.read hread
    refine ⟨haccounts, fun u hu => ?_⟩
    cases List.mem_reverse.1 hu with
    | head => exact .inr (htoken t rfl)
    | tail _ hu => exact .inl hu
  | case2 s passed t s' hread hend _ ih =>
    rw [readAllAfter_of_token hread hend]
    obtain ⟨haccounts, htoken, -⟩ := h.read hread
    obtain ⟨haccounts', hmade⟩ := ih haccounts (t :: made)
    rw [List.append_assoc] at haccounts' hmade
    refine ⟨haccounts', fun u hu => ?_⟩
    cases hmade u hu with
    | inr hmem => exact .inr hmem
    | inl hmem =>
      cases hmem with
      | head => exact .inr (by rw [← List.append_assoc]; exact List.mem_append_left _ (htoken t rfl))
      | tail _ hmem => exact .inl hmem
  | case3 s passed e s' hread =>
    rw [readAllAfter_of_failure hread]
    exact ⟨(h.read hread).1, fun u hu => .inl (List.mem_reverse.1 hu)⟩

theorem recoverAfter (h : Accounts text portions s) (made : List Event) :
    Accounts text (portions ++ s.consumedByRecover) (s.recoverAfter made).2 ∧
      Covers (portions ++ s.consumedByRecover) made (s.recoverAfter made).1 := by
  fun_induction consumedByRecover s generalizing portions made with
  | case1 s passed t s' hread hend =>
    rw [recoverAfter_of_eof hread hend]
    obtain ⟨haccounts, htoken, hpassed⟩ := h.read hread
    refine ⟨haccounts, ((covers_passOver hpassed made).cons fun u hu => ?_).reverse⟩
    obtain rfl := Option.some.inj hu
    exact htoken t rfl
  | case2 s passed t s' hread hend _ ih =>
    rw [recoverAfter_of_token hread hend]
    obtain ⟨haccounts, htoken, hpassed⟩ := h.read hread
    obtain ⟨haccounts', hcovers⟩ := ih haccounts (.token t :: passOver passed made)
    rw [← List.append_assoc]
    refine ⟨haccounts', ((covers_passOver hpassed made).cons fun u hu => ?_).trans hcovers⟩
    obtain rfl := Option.some.inj hu
    exact htoken t rfl
  | case3 s passed e s' hread s'' hskip =>
    rw [recoverAfter_of_stuck hread hskip]
    obtain ⟨haccounts, -, hpassed⟩ := h.read hread
    have hend := haccounts.skip
    rw [hskip, Option.toList_none, List.map_nil, List.append_nil] at hend
    exact ⟨hend, ((covers_passOver hpassed made).cons fun u hu => by simp [Event.token?] at hu).reverse⟩
  | case4 s passed e s' hread c s'' hskip _ ih =>
    rw [recoverAfter_of_skip hread hskip]
    obtain ⟨haccounts, -, hpassed⟩ := h.read hread
    have hskipped := haccounts.skip
    rw [hskip, Option.toList_some, List.map_singleton] at hskipped
    obtain ⟨haccounts', hcovers⟩ :=
      ih hskipped (.skipped c s'.location :: .failure e :: passOver passed made)
    have hassoc : portions ++ (s.consumedByRead ++ .skipped c :: s''.consumedByRecover) =
        portions ++ s.consumedByRead ++ [.skipped c] ++ s''.consumedByRecover := by simp
    rw [hassoc]
    refine ⟨haccounts', Covers.trans (Covers.cons (Covers.cons ?_ ?_) ?_) hcovers⟩
    · exact covers_passOver (fun t ht => List.mem_append_left _ (hpassed t ht)) made
    · exact fun u hu => by simp [Event.token?] at hu
    · exact fun u hu => by simp [Event.token?] at hu

omit [TransitionTable τ] in
theorem nothing (h : Accounts text portions s) : Accounts text (portions ++ []) s := by
  rwa [List.append_nil]

theorem ignore {id : TerminalId} (h : Accounts text portions s) (hignore : s.ignore id = .ok s') :
    Accounts text (portions ++ []) s' := by
  obtain ⟨-, rfl⟩ := eq_of_ignore hignore
  rw [List.append_nil]
  exact ⟨h.text_eq, h.location_eq, h.placed, h.current_mem, h.ended_eq⟩

theorem ignoreNamed {name : String} (h : Accounts text portions s) (hignore : s.ignoreNamed name = .ok s') :
    Accounts text (portions ++ []) s' := by
  obtain ⟨id, hid⟩ := exists_ignore_of_ignoreNamed hignore
  exact h.ignore hid

/-- One request adds to the portions what it consumes, and returns no token that is not among them. -/
theorem answer (h : Accounts text portions s) (request : Request) :
    Accounts text (portions ++ s.consumedBy request) (s.answer request).2 ∧
      ∀ t ∈ (s.answer request).1.returned, .lexeme t ∈ portions ++ s.consumedBy request := by
  cases request with
  | current =>
    obtain ⟨haccounts, htoken⟩ := h.peek
    exact ⟨haccounts, fun t ht => htoken t (mem_toOption.1 ht)⟩
  | advance =>
    obtain ⟨haccounts, htoken, -⟩ := h.read rfl
    exact ⟨haccounts, fun t ht => htoken t (mem_toOption.1 ht)⟩
  | scanAll =>
    obtain ⟨haccounts, hmade⟩ := h.readAllAfter []
    rw [Scanner.answer, Scanner.scanAll, Scanner.readAll]
    unfold consumedBy
    generalize s.readAllAfter [] = result at haccounts hmade
    obtain ⟨tokens, failed, s'⟩ := result
    cases failed with
    | none => exact ⟨haccounts, fun t ht => (hmade t ht).resolve_left List.not_mem_nil⟩
    | some e => exact ⟨haccounts, fun t ht => by simp [Reply.returned, Except.toOption] at ht⟩
  | skip => exact ⟨h.skip, fun t ht => by simp [Scanner.answer, Reply.returned] at ht⟩
  | recover =>
    obtain ⟨haccounts, hcovers⟩ := h.recoverAfter []
    refine ⟨haccounts, fun t ht => ?_⟩
    obtain ⟨event, hevent, ht⟩ := List.mem_filterMap.1 ht
    exact (hcovers event hevent t ht).resolve_left List.not_mem_nil
  | isIgnored id => exact ⟨h.nothing, fun t ht => by simp [Scanner.answer, Reply.returned] at ht⟩
  | ignore id =>
    rw [Scanner.answer]
    cases hignore : s.ignore id with
    | ok s' => exact ⟨h.ignore hignore, fun t ht => by simp [Reply.returned] at ht⟩
    | error e => exact ⟨h.nothing, fun t ht => by simp [Reply.returned] at ht⟩
  | ignoreNamed name =>
    rw [Scanner.answer]
    cases hignore : s.ignoreNamed name with
    | ok s' => exact ⟨h.ignoreNamed hignore, fun t ht => by simp [Reply.returned] at ht⟩
    | error e => exact ⟨h.nothing, fun t ht => by simp [Reply.returned] at ht⟩

theorem after (h : Accounts text portions s) (requests : List Request) :
    Accounts text (portions ++ s.consumed requests) (s.after requests) ∧
      ∀ reply ∈ s.answerAll requests, ∀ t ∈ reply.returned, .lexeme t ∈ portions ++ s.consumed requests := by
  induction requests generalizing s portions with
  | nil => exact ⟨h.nothing, fun reply hreply => absurd hreply List.not_mem_nil⟩
  | cons request requests ih =>
    obtain ⟨haccounts, hreturned⟩ := h.answer request
    obtain ⟨haccounts', hreturned'⟩ := ih haccounts
    rw [List.append_assoc] at haccounts' hreturned'
    refine ⟨haccounts', fun reply hreply t ht => ?_⟩
    rw [answerAll_cons] at hreply
    cases hreply with
    | head =>
      rw [consumed, ← List.append_assoc]
      exact List.mem_append_left _ (hreturned t ht)
    | tail _ hreply => exact hreturned' reply hreply t ht

theorem start {table : τ} {text : String} {ids : List TerminalId}
    (h : Scanner.start table text ids = .ok s) : Accounts text.toList [] s := by
  refine foldlM_ok (fun _ s => Accounts text.toList [] s) h ?_ fun _ id _ s s' _ haccounts hignore =>
    haccounts.ignore hignore
  constructor
  · rfl
  · rfl
  · exact fun before portion rest heq => by simp at heq
  · exact fun t ht => by simp [ofText] at ht
  · exact fun place hplace => by simp [ofText] at hplace

end Accounts

/-- Whatever is requested of a scanner, what it has consumed, what it has read ahead and what is left of
the source make up the text. It stands behind what it has consumed. Every token that it returns has been
consumed, is the text behind what was consumed before it, and names the place there. -/
theorem consumed_accounts_for_text {table : τ} {text : String} {ids : List TerminalId}
    (h : Scanner.start table text ids = .ok s) (requests : List Request) :
    textOf (s.consumed requests) ++ (s.after requests).input.lookahead ++ (s.after requests).input.source =
        text.toList ∧
      (s.after requests).location = .behind (textOf (s.consumed requests)) ∧
      ∀ reply ∈ s.answerAll requests, ∀ t ∈ reply.returned, ∃ before rest,
        s.consumed requests = before ++ .lexeme t :: rest ∧ t.location = .behind (textOf before) ∧
          textOf before ++ t.lexeme.toList <+: text.toList := by
  obtain ⟨haccounts, hreturned⟩ := (Accounts.start h).after requests
  rw [List.nil_append] at haccounts hreturned
  refine ⟨?_, haccounts.location_eq, fun reply hreply t ht => ?_⟩
  · rw [List.append_assoc]
    exact haccounts.text_eq
  · obtain ⟨before, rest, heq⟩ := List.append_of_mem (hreturned reply hreply t ht)
    refine ⟨before, rest, heq, haccounts.placed before _ rest heq, ?_⟩
    have hparts : textOf (before ++ .lexeme t :: rest) = textOf before ++ t.lexeme.toList ++ textOf rest := by
      rw [textOf_append, List.append_assoc]
      rfl
    rw [← haccounts.text_eq, heq, hparts, List.append_assoc]
    exact List.prefix_append _ _

/-- Line ends, with a tab before them or without. -/
def breaks : Table where
  columns := 11
  transitions := Array.replicate 9 (-1) ++ #[1, 2] ++ Array.replicate 10 (-1) ++ #[2] ++ Array.replicate 11 (-1)
  finals := #[none, none, some 1]
  initial := 0
  terminals := ⟨["EOF", "BREAK"]⟩

theorem consumed_accounts_for_text_breaks : breaks.fault? = none ∧
    ∃ s, Scanner.start breaks "\n\t\t\n" [1] = .ok s ∧ ∀ requests,
      textOf (s.consumed requests) ++ (s.after requests).input.lookahead ++ (s.after requests).input.source =
          "\n\t\t\n".toList ∧
        (s.after requests).location = .behind (textOf (s.consumed requests)) ∧
        ∀ reply ∈ s.answerAll requests, ∀ t ∈ reply.returned, ∃ before rest,
          s.consumed requests = before ++ .lexeme t :: rest ∧ t.location = .behind (textOf before) ∧
            textOf before ++ t.lexeme.toList <+: "\n\t\t\n".toList := by
  obtain ⟨s, hs⟩ : ∃ s, Scanner.start breaks "\n\t\t\n" [1] = .ok s := ⟨_, rfl⟩
  exact ⟨by decide +kernel, s, hs, consumed_accounts_for_text hs⟩

end accounts

end Scanner

end TableLexer
