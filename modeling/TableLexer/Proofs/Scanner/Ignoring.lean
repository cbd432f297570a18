import TableLexer.Proofs.Scanner.Account

/-! Ignoring tokens takes them out of what a scanner returns, and changes nothing else. -/
namespace TableLexer

namespace Scanner

/-- Tokens that are passed over are not seen. -/
def Event.visible : Event → Bool
  | .passed _ => false
  | _ => true

/-- Events other than tokens of the given kinds. -/
def Event.notOf (ids : List TerminalId) : Event → Bool
  | .token t => !ids.contains t.kind
  | _ => true

/-- The tokens of other kinds than the given ones. -/
def without (ids : List TerminalId) (tokens : List Token) : List Token := tokens.filter fun t => !ids.contains t.kind

section events

variable {ids : List TerminalId} {made made' : List Event} {t : Token} {e : LexicalError}

private theorem filter_eq_of_passed (hids : ids.contains t.kind = true)
    (h : made.filter Event.visible = made'.filter (Event.notOf ids)) :
    (Event.passed t :: made).filter Event.visible = (Event.token t :: made').filter (Event.notOf ids) := by
  rw [List.filter_cons_of_neg (by simp [Event.visible]), List.filter_cons_of_neg (by simpa [Event.notOf] using hids), h]

private theorem filter_eq_of_token (hids : ids.contains t.kind = false)
    (h : made.filter Event.visible = made'.filter (Event.notOf ids)) :
    (Event.token t :: made).filter Event.visible = (Event.token t :: made').filter (Event.notOf ids) := by
  rw [List.filter_cons_of_pos rfl, List.filter_cons_of_pos (by simpa [Event.notOf] using hids), h]

private theorem filter_eq_of_failure (h : made.filter Event.visible = made'.filter (Event.notOf ids)) :
    (Event.failure e :: made).filter Event.visible = (Event.failure e :: made').filter (Event.notOf ids) := by
  rw [List.filter_cons_of_pos rfl, List.filter_cons_of_pos rfl, h]

private theorem filter_eq_of_skipped (c : Char) (place : Location)
    (h : made.filter Event.visible = made'.filter (Event.notOf ids)) :
    (Event.skipped c place :: made).filter Event.visible = (Event.skipped c place :: made').filter (Event.notOf ids) := by
  rw [List.filter_cons_of_pos rfl, List.filter_cons_of_pos rfl, h]

private theorem without_cons_of_contains {made : List Token} (hids : ids.contains t.kind = true) :
    without ids (t :: made) = without ids made := List.filter_cons_of_neg (by simpa using hids)

private theorem without_cons {made : List Token} (hids : ids.contains t.kind = false) :
    without ids (t :: made) = t :: without ids made := List.filter_cons_of_pos (by simpa using hids)

end events

variable {τ : Type} [TransitionTable τ] {s s' : Scanner τ} {t : Token} {ids : List TerminalId}

/-- What is seen of a run up to the end of input, failures included. -/
def transcript (s : Scanner τ) : List Event := s.recover.1.filter Event.visible

/-- The scanner in the same place that ignores nothing. -/
def ignoringNothing (s : Scanner τ) : Scanner τ := { s with ignored := [] }

theorem scanOne_ignored (s : Scanner τ) : s.scanOne.2.ignored = s.ignored := by
  rcases hfollow : Match.follow s.table (.empty s.table) s.input with ⟨m, found, input⟩
  rcases hscan : s.scanOne with ⟨attempt, r⟩
  cases scanOne_cases hfollow hscan with
  | finished _ => rfl
  | matched _ _ => rfl
  | drained _ _ _ _ => rfl
  | stuck _ _ _ => rfl

/-- What is ignored has no part in scanning one token. -/
private theorem scanOne_ignoringNothing (s : Scanner τ) :
    s.ignoringNothing.scanOne = (s.scanOne.1, s.scanOne.2.ignoringNothing) := by
  rcases hfollow : Match.follow s.table (.empty s.table) s.input with ⟨m, found, input⟩
  have hfollow' : Match.follow s.ignoringNothing.table (.empty s.table) s.ignoringNothing.input = (m, found, input) :=
    hfollow
  rcases hscan : s.scanOne with ⟨attempt, r⟩
  cases scanOne_cases hfollow hscan with
  | finished hended => exact scanOne_of_ended (s := s.ignoringNothing) hended
  | matched hended haccepted => exact scanOne_of_accepted (s := s.ignoringNothing) hended hfollow' haccepted
  | drained hended haccepted hbuffer hfound =>
    exact scanOne_of_empty (s := s.ignoringNothing) hended hfollow' haccepted hbuffer hfound
  | stuck hended haccepted hstuck =>
    exact scanOne_of_failure (s := s.ignoringNothing) hended hfollow' haccepted hstuck

omit [TransitionTable τ] in
private theorem skip_ignoringNothing (s : Scanner τ) :
    s.ignoringNothing.skip = (s.skip.1, s.skip.2.ignoringNothing) := by
  obtain ⟨table, input, ignored, current, ended, location⟩ := s
  unfold skip ignoringNothing
  cases ended with
  | some place => rfl
  | none =>
    dsimp only
    cases input.next? with
    | none => rfl
    | some next => rfl

theorem scanPast_ignored (s : Scanner τ) (passed : List Token) : (s.scanPast passed).2.2.ignored = s.ignored := by
  fun_induction scanPast s passed with
  | case1 s passed t s' hscan _ _ ih => rw [ih, ← scanOne_ignored s, hscan]
  | case2 s passed t s' hscan _ => rw [← scanOne_ignored s, hscan]
  | case3 s passed s' hscan _ => rw [← scanOne_ignored s, hscan]
  | case4 s passed e s' hscan => rw [← scanOne_ignored s, hscan]

/-- The tokens that have been passed over before are returned in front of those that follow. -/
private theorem scanPast_append (s : Scanner τ) (passed : List Token) :
    s.scanPast passed = (passed.reverse ++ (s.scanPast []).1, (s.scanPast []).2) := by
  induction hn : s.input.unread.length using Nat.strong_induction_on generalizing s passed with
  | _ n ih =>
    rcases hscan : s.scanOne with ⟨attempt, s'⟩
    cases attempt with
    | token t =>
      cases hignored : s'.isIgnored t.kind with
      | true =>
        have hlt : s'.input.unread.length < n := hn ▸ scanOne_unread_length_lt hscan
        rw [scanPast_of_ignored hscan hignored, scanPast_of_ignored hscan hignored, ih _ hlt s' (t :: passed) rfl,
          ih _ hlt s' [t] rfl, List.reverse_cons, List.append_assoc]
        rfl
      | false =>
        rw [scanPast_of_token hscan hignored, scanPast_of_token hscan hignored, List.reverse_nil, List.append_nil]
    | ended => rw [scanPast_of_ended hscan, scanPast_of_ended hscan, List.reverse_nil, List.append_nil]
    | failure e => rw [scanPast_of_failure hscan, scanPast_of_failure hscan, List.reverse_nil, List.append_nil]

/-- A scanner that ignores the given kinds and has not looked ahead. -/
structure Ignores (ids : List TerminalId) (s : Scanner τ) : Prop where
  isIgnored : ∀ id, s.isIgnored id = ids.contains id
  current : s.current = none

namespace Ignores

variable (h : Ignores ids s)
include h

omit [TransitionTable τ] in
private theorem of_same (hignored : s'.ignored = s.ignored) (hcurrent : s'.current = s.current) : Ignores ids s' where
  isIgnored id := by rw [Scanner.isIgnored, hignored, ← Scanner.isIgnored, h.isIgnored]
  current := hcurrent.trans h.current

private theorem read_eq : s.read = s.scanPast [] := by
  unfold Scanner.read
  rw [h.current]

theorem scanOne {attempt : Attempt} (hscan : s.scanOne = (attempt, s')) : Ignores ids s' := by
  have hignored := scanOne_ignored s
  have hcurrent := scanOne_current s
  rw [hscan] at hignored hcurrent
  exact h.of_same hignored hcurrent

theorem read {passed : List Token} {result : Except LexicalError Token} (hread : s.read = (passed, result, s')) :
    Ignores ids s' := by
  have hignored := scanPast_ignored s []
  have hcurrent := scanPast_current s []
  rw [← h.read_eq, hread] at hignored hcurrent
  exact h.of_same hignored hcurrent

omit [TransitionTable τ] in
theorem skip {c : Option Char} (hskip : s.skip = (c, s')) : Ignores ids s' := by
  unfold Scanner.skip at hskip
  split at hskip
  · obtain ⟨-, rfl⟩ := Prod.mk.inj hskip
    exact h.of_same rfl rfl
  · obtain ⟨-, rfl⟩ := Prod.mk.inj hskip
    exact h

section passed

variable (hscan : s.scanOne = (.token t, s')) (hids : ids.contains t.kind = true)
include hscan hids

private theorem read_of_passed : s.read = (t :: s'.read.1, s'.read.2) := by
  have hignored : s'.isIgnored t.kind = true := ((h.scanOne hscan).isIgnored t.kind).trans hids
  rw [h.read_eq, (h.scanOne hscan).read_eq, scanPast_of_ignored hscan hignored, scanPast_append]
  rfl

/-- Passing over a token is an event of its own. -/
private theorem recoverAfter_of_passed (made : List Event) :
    s.recoverAfter made = s'.recoverAfter (.passed t :: made) := by
  have hread := h.read_of_passed hscan hids
  rcases hread' : s'.read with ⟨passed, result, r⟩
  rw [hread'] at hread
  cases result with
  | ok u =>
    cases hend : u.isEof with
    | true =>
      rw [recoverAfter_of_eof hread hend, recoverAfter_of_eof hread' hend]
      rfl
    | false =>
      rw [recoverAfter_of_token hread hend, recoverAfter_of_token hread' hend]
      rfl
  | error e =>
    rcases hskip : r.skip with ⟨_ | c, r'⟩
    · rw [recoverAfter_of_stuck hread hskip, recoverAfter_of_stuck hread' hskip]
      rfl
    · rw [recoverAfter_of_skip hread hskip, recoverAfter_of_skip hread' hskip]
      rfl

private theorem readAllAfter_of_passed (made : List Token) : s.readAllAfter made = s'.readAllAfter made := by
  have hread := h.read_of_passed hscan hids
  rcases hread' : s'.read with ⟨passed, result, r⟩
  rw [hread'] at hread
  cases result with
  | ok u =>
    cases hend : u.isEof with
    | true => rw [readAllAfter_of_eof hread hend, readAllAfter_of_eof hread' hend]
    | false => rw [readAllAfter_of_token hread hend, readAllAfter_of_token hread' hend]
  | error e => rw [readAllAfter_of_failure hread, readAllAfter_of_failure hread']

end passed

/-- Either the scanner that ignores nothing returns a token that the other one passes over, or both return the
same. -/
private theorem read_cases (heof : ids.contains eof = false) :
    (∃ t s', s.scanOne = (.token t, s') ∧ ids.contains t.kind = true ∧
      s.ignoringNothing.read = ([], .ok t, s'.ignoringNothing)) ∨
    ∃ result r, s.read = ([], result, r) ∧ (∀ t, result = .ok t → ids.contains t.kind = false) ∧
      s.ignoringNothing.read = ([], result, r.ignoringNothing) := by
  have hnothing : Ignores [] s.ignoringNothing := ⟨fun _ => rfl, h.current⟩
  have hplain := scanOne_ignoringNothing s
  rcases hscan : s.scanOne with ⟨attempt, s'⟩
  rw [hscan] at hplain
  rw [h.read_eq, hnothing.read_eq]
  cases attempt with
  | token t =>
    rw [scanPast_of_token hplain rfl]
    cases hids : ids.contains t.kind with
    | true => exact .inl ⟨t, s', rfl, hids, rfl⟩
    | false =>
      rw [scanPast_of_token hscan (((h.scanOne hscan).isIgnored t.kind).trans hids)]
      refine .inr ⟨_, _, rfl, fun u hu => ?_, rfl⟩
      obtain rfl := Except.ok.inj hu
      exact hids
  | ended =>
    rw [scanPast_of_ended hscan, scanPast_of_ended hplain]
    refine .inr ⟨_, _, rfl, fun u hu => ?_, rfl⟩
    obtain rfl := Except.ok.inj hu
    exact heof
  | failure e =>
    rw [scanPast_of_failure hscan, scanPast_of_failure hplain]
    exact .inr ⟨_, _, rfl, fun u hu => by simp at hu, rfl⟩

omit h in
private theorem isEof_of_contains (heof : ids.contains eof = false) (hids : ids.contains t.kind = true) :
    t.isEof = false := by
  rw [Token.isEof, beq_eq_false_iff_ne]
  intro hkind
  rw [hkind, heof] at hids
  contradiction

/-- What is seen of a run that ignores tokens is what is seen of the run that ignores none, without those tokens.
The induction is on what is left to scan: a token that the first run passes over is a step of the second alone. -/
theorem filter_recoverAfter (heof : ids.contains eof = false) {made made' : List Event}
    (hmade : made.filter Event.visible = made'.filter (Event.notOf ids)) :
    (s.recoverAfter made).1.filter Event.visible =
      (s.ignoringNothing.recoverAfter made').1.filter (Event.notOf ids) := by
  induction hn : s.remaining using Nat.strong_induction_on generalizing s made made' with
  | _ n ih =>
    rcases h.read_cases heof with ⟨t, s', hscan, hids, hplain⟩ | ⟨result, r, hread, hids, hplain⟩
    · have hend := isEof_of_contains heof hids
      have hlt : s'.ignoringNothing.remaining < s.ignoringNothing.remaining := read_remaining_lt hplain hend
      rw [h.recoverAfter_of_passed hscan hids, recoverAfter_of_token hplain hend]
      exact ih _ (hn ▸ hlt) (h.scanOne hscan) (filter_eq_of_passed hids hmade) rfl
    · cases result with
      | ok t =>
        have hmade' := filter_eq_of_token (hids t rfl) hmade
        cases hend : t.isEof with
        | true =>
          rw [recoverAfter_of_eof hread hend, recoverAfter_of_eof hplain hend, List.filter_reverse,
            List.filter_reverse]
          exact congrArg List.reverse hmade'
        | false =>
          rw [recoverAfter_of_token hread hend, recoverAfter_of_token hplain hend]
          exact ih _ (hn ▸ read_remaining_lt hread hend) (h.read hread) hmade' rfl
      | error e =>
        have hmade' := filter_eq_of_failure (e := e) hmade
        have hskip' := skip_ignoringNothing r
        rcases hskip : r.skip with ⟨_ | c, r'⟩
        · rw [hskip] at hskip'
          rw [recoverAfter_of_stuck hread hskip, recoverAfter_of_stuck hplain hskip', List.filter_reverse,
            List.filter_reverse]
          exact congrArg List.reverse hmade'
        · rw [hskip] at hskip'
          have hle := read_remaining_le s
          rw [hread] at hle
          rw [recoverAfter_of_skip hread hskip, recoverAfter_of_skip hplain hskip']
          exact ih _ (hn ▸ (skip_remaining_lt hskip).trans_le hle) ((h.read hread).skip hskip)
            (filter_eq_of_skipped c r.location hmade') rfl

/-- The tokens up to the end of input or the first failure are those of the scanner that ignores none, without
the ignored ones. Both fail in the same way. -/
private theorem readAllAfter_eq (heof : ids.contains eof = false) (made : List Token) :
    (s.readAllAfter (without ids made)).1 = without ids (s.ignoringNothing.readAllAfter made).1 ∧
      (s.readAllAfter (without ids made)).2.1 = (s.ignoringNothing.readAllAfter made).2.1 := by
  induction hn : s.remaining using Nat.strong_induction_on generalizing s made with
  | _ n ih =>
    rcases h.read_cases heof with ⟨t, s', hscan, hids, hplain⟩ | ⟨result, r, hread, hids, hplain⟩
    · have hend := isEof_of_contains heof hids
      have hlt : s'.ignoringNothing.remaining < s.ignoringNothing.remaining := read_remaining_lt hplain hend
      rw [h.readAllAfter_of_passed hscan hids, readAllAfter_of_token hplain hend, ← without_cons_of_contains hids]
      exact ih _ (hn ▸ hlt) (h.scanOne hscan) (t :: made) rfl
    · cases result with
      | ok t =>
        have hcons : without ids (t :: made) = t :: without ids made := without_cons (hids t rfl)
        cases hend : t.isEof with
        | true =>
          rw [readAllAfter_of_eof hread hend, readAllAfter_of_eof hplain hend, ← hcons]
          exact ⟨List.filter_reverse.symm, rfl⟩
        | false =>
          rw [readAllAfter_of_token hread hend, readAllAfter_of_token hplain hend, ← hcons]
          exact ih _ (hn ▸ read_remaining_lt hread hend) (h.read hread) (t :: made) rfl
      | error e =>
        rw [readAllAfter_of_failure hread, readAllAfter_of_failure hplain]
        exact ⟨List.filter_reverse.symm, rfl⟩

theorem scanAll (heof : ids.contains eof = false) :
    s.scanAll.1 = s.ignoringNothing.scanAll.1.map (without ids) := by
  obtain ⟨htokens, hfailure⟩ := h.readAllAfter_eq heof []
  unfold Scanner.scanAll readAll
  rcases hread : s.readAllAfter [] with ⟨tokens, failure, r⟩
  rcases hplain : s.ignoringNothing.readAllAfter [] with ⟨tokens', failure', r'⟩
  rw [show without ids [] = [] from rfl, hread, hplain] at htokens hfailure
  cases failure with
  | none =>
    obtain rfl : none = failure' := hfailure
    exact congrArg Except.ok htokens
  | some e =>
    obtain rfl : some e = failure' := hfailure
    rfl

end Ignores

private theorem exists_concat_of_readAllAfter {made tokens : List Token}
    (h : s.readAllAfter made = (tokens, none, s')) :
    ∃ before last, tokens = before ++ [last] ∧ last.isEof = true := by
  fun_induction readAllAfter s made with
  | case1 s made passed t r hread hend =>
    refine ⟨made.reverse, t, ?_, hend⟩
    rw [← List.reverse_cons]
    exact (Prod.mk.inj h).1.symm
  | case2 s made passed t r hread hend _ ih => exact ih h
  | case3 s made passed e r hread => simp at h

/-- The last of all tokens is the one of the end of input. -/
private theorem exists_concat_of_scanAll {tokens : List Token} (h : s.scanAll.1 = .ok tokens) :
    ∃ before last, tokens = before ++ [last] ∧ last.isEof = true := by
  unfold scanAll at h
  split at h
  · next hread =>
    obtain rfl := Except.ok.inj h
    exact exists_concat_of_readAllAfter hread
  · simp at h

/-- Nothing is passed over where nothing is ignored. -/
theorem transcript_ofText (table : τ) (text : String) : (ofText table text).transcript = (ofText table text).recover.1 := by
  have hall : Event.notOf [] = fun _ => true := by
    funext event
    cases event with
    | passed t => rfl
    | token t => rfl
    | failure e => rfl
    | skipped c place => rfl
  have hignores : Ignores [] (ofText table text) := ⟨fun _ => rfl, rfl⟩
  have hfilter := hignores.filter_recoverAfter rfl (List.filter_nil.trans List.filter_nil.symm)
  rw [hall, List.filter_true] at hfilter
  exact hfilter

/-- Ignoring kinds of tokens takes exactly the tokens of these kinds out of what is seen of a run, and out of what
scanning everything returns. Failures stay what they were, and the token of the end of input stays the last one. -/
theorem ignoring_is_transparent {table : τ}
    (h : ∀ id ∈ ids, id ≠ eof ∧ (TransitionTable.terminals table).contains id = true) (text : String) :
    ∃ s, start table text ids = .ok s ∧
      s.transcript = (ofText table text).transcript.filter (Event.notOf ids) ∧
      s.scanAll.1 = (ofText table text).scanAll.1.map (without ids) ∧
      ∀ tokens, (ofText table text).scanAll.1 = .ok tokens → ∃ before last, tokens = before ++ [last] ∧
        last.isEof = true ∧ s.scanAll.1 = .ok (without ids before ++ [last]) := by
  have heof : ids.contains eof = false := Bool.eq_false_iff.2 fun hmem => (h eof (List.contains_iff_mem.1 hmem)).1 rfl
  refine ⟨_, start_eq h text, ?_⟩
  generalize hs : ({ table, input := { source := text.toList }, ignored := ids.reverse } : Scanner τ) = s
  have hignores : Ignores ids s := by
    subst hs
    exact ⟨fun id => List.contains_reverse, rfl⟩
  have hplain : s.ignoringNothing = ofText table text := by
    subst hs
    rfl
  have htokens := hignores.scanAll heof
  rw [hplain] at htokens
  refine ⟨?_, htokens, fun tokens hall => ?_⟩
  · rw [transcript_ofText, ← hplain]
    exact hignores.filter_recoverAfter heof rfl
  · obtain ⟨before, last, rfl, hlast⟩ := exists_concat_of_scanAll hall
    refine ⟨before, last, rfl, hlast, ?_⟩
    have hkind : ids.contains last.kind = false := by rwa [beq_iff_eq.1 hlast]
    rw [htokens, hall]
    refine congrArg Except.ok ?_
    rw [without, List.filter_append]
    exact congrArg (without ids before ++ ·) (without_cons hkind)

theorem ignoring_is_transparent_breaks :
    (∀ id ∈ [1], id ≠ eof ∧ (TransitionTable.terminals breaks).contains id = true) ∧
    ∃ s, start breaks "\n\t\t\n" [1] = .ok s ∧
      s.transcript = (ofText breaks "\n\t\t\n").transcript.filter (Event.notOf [1]) ∧
      s.scanAll.1 = (ofText breaks "\n\t\t\n").scanAll.1.map (without [1]) := by
  have hids : ∀ id ∈ [1], id ≠ eof ∧ (TransitionTable.terminals breaks).contains id = true := by decide
  obtain ⟨s, hs, htranscript, htokens, -⟩ := ignoring_is_transparent hids "\n\t\t\n"
  exact ⟨hids, s, hs, htranscript, htokens⟩

end Scanner

end TableLexer
