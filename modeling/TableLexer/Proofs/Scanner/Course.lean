import TableLexer.Proofs.Scanner.Steps

/-! In the course of its requests a scanner keeps its table and never returns to what it has consumed. -/
namespace TableLexer

namespace Scanner

variable {τ : Type} [TransitionTable τ] {s s' s'' : Scanner τ}

/-- The scanner that is left after requests. -/
def after (s : Scanner τ) (requests : List Request) : Scanner τ :=
  requests.foldl (fun s request => (s.answer request).2) s

theorem after_cons (s : Scanner τ) (request : Request) (requests : List Request) :
    s.after (request :: requests) = (s.answer request).2.after requests := rfl

theorem after_append (s : Scanner τ) (requests more : List Request) :
    s.after (requests ++ more) = (s.after requests).after more := List.foldl_append

/-- One scanner becomes another one by consuming a beginning of the unread text. -/
structure Continues (s s' : Scanner τ) : Prop where
  table : s'.table = s.table
  suffix : s'.input.unread <:+ s.input.unread

namespace Continues

omit [TransitionTable τ] in
theorem refl (s : Scanner τ) : s.Continues s := ⟨rfl, List.suffix_rfl⟩

omit [TransitionTable τ] in
theorem trans (h : s.Continues s') (h' : s'.Continues s'') : s.Continues s'' :=
  ⟨h'.table.trans h.table, h'.suffix.trans h.suffix⟩

theorem scanOne (s : Scanner τ) : s.Continues s.scanOne.2 := by
  rcases hfollow : Match.follow s.table (.empty s.table) s.input with ⟨m, found, input⟩
  have htext := Match.follow_text s.table (.empty s.table) s.input
  rw [hfollow, show (Match.empty s.table).buffer.toList = [] from rfl, List.nil_append] at htext
  unfold Scanner.scanOne
  split
  · exact .refl s
  · rw [hfollow]
    dsimp only
    split
    · next length kind haccepted =>
      refine ⟨rfl, m.buffer.toList.take length, ?_⟩
      rw [Input.unread_putBackAll, ← List.append_assoc, List.take_append_drop]
      exact htext
    · split
      · exact ⟨rfl, _, htext⟩
      · exact ⟨rfl, _, htext⟩

theorem of_scanOne {result : Attempt} (h : s.scanOne = (result, s')) : s.Continues s' := by
  have hcontinues := scanOne s
  rwa [h] at hcontinues

theorem scanPast (s : Scanner τ) (passed : List Token) : s.Continues (s.scanPast passed).2.2 := by
  fun_induction Scanner.scanPast s passed with
  | case1 s passed t r hscan _ _ ih => exact (of_scanOne hscan).trans ih
  | case2 s passed t r hscan _ => exact of_scanOne hscan
  | case3 s passed r hscan => exact ⟨(of_scanOne hscan).table, (of_scanOne hscan).suffix⟩
  | case4 s passed e r hscan => exact of_scanOne hscan

theorem read (s : Scanner τ) : s.Continues s.read.2.2 := by
  unfold Scanner.read
  split
  · exact ⟨rfl, List.suffix_rfl⟩
  · exact scanPast s []

private theorem of_read {passed : List Token} {result : Except LexicalError Token}
    (h : s.read = (passed, result, s')) : s.Continues s' := by
  have hcontinues := read s
  rwa [h] at hcontinues

theorem peek (s : Scanner τ) : s.Continues s.peek.2 := by
  unfold Scanner.peek
  split
  · exact .refl s
  · have hscan := scanPast s []
    split
    · next h =>
      rw [h] at hscan
      exact ⟨hscan.table, hscan.suffix⟩
    · exact hscan

omit [TransitionTable τ] in
theorem skip (s : Scanner τ) : s.Continues s.skip.2 := by
  unfold Scanner.skip
  split
  · next c input _ hnext => exact ⟨rfl, [c], (Input.unread_of_next? hnext).symm⟩
  · exact .refl s

theorem ignore {id : TerminalId} (h : s.ignore id = .ok s') : s.Continues s' := by
  obtain ⟨-, rfl⟩ := eq_of_ignore h
  exact ⟨rfl, List.suffix_rfl⟩

theorem ignoreNamed {name : String} (h : s.ignoreNamed name = .ok s') : s.Continues s' := by
  obtain ⟨id, hid⟩ := exists_ignore_of_ignoreNamed h
  exact ignore hid

theorem readAllAfter (s : Scanner τ) (made : List Token) : s.Continues (s.readAllAfter made).2.2 := by
  fun_induction Scanner.readAllAfter s made with
  | case1 s made passed t r hread hend => exact of_read hread
  | case2 s made passed t r hread hend _ ih => exact (of_read hread).trans ih
  | case3 s made passed e r hread => exact of_read hread

theorem scanAll (s : Scanner τ) : s.Continues s.scanAll.2 := by
  have hread := readAllAfter s []
  unfold Scanner.scanAll Scanner.readAll
  split
  · next h => rwa [h] at hread
  · next h => rwa [h] at hread

theorem recoverAfter (s : Scanner τ) (made : List Event) : s.Continues (s.recoverAfter made).2 := by
  fun_induction Scanner.recoverAfter s made with
  | case1 s made passed t r hread hend => exact of_read hread
  | case2 s made passed t r hread hend _ ih => exact (of_read hread).trans ih
  | case3 s made passed e r hread r₁ hskip =>
    have hstep := skip r
    rw [hskip] at hstep
    exact (of_read hread).trans hstep
  | case4 s made passed e r hread c r₁ hskip _ ih =>
    have hstep := skip r
    rw [hskip] at hstep
    exact ((of_read hread).trans hstep).trans ih

theorem answer (s : Scanner τ) (request : Request) : s.Continues (s.answer request).2 := by
  cases request with
  | current => exact peek s
  | advance => exact read s
  | scanAll => exact scanAll s
  | skip => exact skip s
  | isIgnored id => exact .refl s
  | recover => exact recoverAfter s []
  | ignore id =>
    unfold Scanner.answer
    dsimp only
    split
    · next h => exact ignore h
    · exact .refl s
  | ignoreNamed name =>
    unfold Scanner.answer
    dsimp only
    split
    · next h => exact ignoreNamed h
    · exact .refl s

/-- Whatever is requested, the table stays the same and the unread text gets shorter from its beginning. -/
theorem after (s : Scanner τ) (requests : List Request) : s.Continues (s.after requests) := by
  induction requests generalizing s with
  | nil => exact .refl s
  | cons request requests ih => exact (answer s request).trans (ih _)

end Continues

end Scanner

end TableLexer
