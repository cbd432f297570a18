import TableLexer.Proofs.Scanner.Course
import TableLexer.Proofs.Scanner.Longest

/-! What a scanner consumes of its text, portion by portion. -/
namespace TableLexer

namespace Location

/-- The place behind a text: its line ends are counted, and the characters behind the last one. -/
def behind (text : List Char) : Location :=
  ⟨1 + text.count '\n', 1 + (text.reverse.takeWhile (· ≠ '\n')).length⟩

private theorem behind_concat (text : List Char) (c : Char) : behind (text ++ [c]) = (behind text).after c := by
  unfold behind after
  split
  · next h => simp [h, Nat.add_assoc]
  · next h => simp [h, Nat.add_assoc]

theorem afterAll_behind (text more : List Char) : (behind text).afterAll more = behind (text ++ more) := by
  induction more generalizing text with
  | nil => rw [List.append_nil]; rfl
  | cons c more ih =>
    rw [← List.singleton_append, ← List.append_assoc, ← ih, behind_concat]
    rfl

end Location

namespace Scanner

/-- A portion of the text that has been consumed: a token, whatever becomes of it, what a failure drops, or
a character that is skipped. -/
inductive Portion where
  | lexeme (t : Token)
  | dropped (text : List Char) (e : LexicalError)
  | skipped (c : Char)

namespace Portion

def text : Portion → List Char
  | lexeme t => t.lexeme.toList
  | dropped text _ => text
  | skipped c => [c]

/-- A token has the place where it starts, a failure the one where it ends. -/
def PlacedBehind (done : List Char) : Portion → Prop
  | lexeme t => t.location = .behind done
  | dropped text e => e.location = .behind (done ++ text)
  | skipped _ => True

end Portion

def textOf (portions : List Portion) : List Char := portions.flatMap Portion.text

theorem textOf_append (portions more : List Portion) :
    textOf (portions ++ more) = textOf portions ++ textOf more := List.flatMap_append

/-- Every portion has its place behind those before it. -/
def Placed (portions : List Portion) : Prop :=
  ∀ before portion rest, portions = before ++ portion :: rest → portion.PlacedBehind (textOf before)

theorem Placed.concat {portions : List Portion} {portion : Portion} (h : Placed portions)
    (hportion : portion.PlacedBehind (textOf portions)) : Placed (portions ++ [portion]) := by
  intro before other rest heq
  cases rest using List.reverseRecOn with
  | nil =>
    obtain ⟨rfl, hother⟩ := List.append_inj' heq rfl
    obtain rfl := List.singleton_inj.1 hother
    exact hportion
  | append_singleton rest last =>
    rw [← List.cons_append, ← List.append_assoc] at heq
    exact h before other rest (List.append_inj' heq rfl).1

section consumed

variable {τ : Type} [TransitionTable τ]

/-- The beginning of the unread text that the table follows. -/
def followed (s : Scanner τ) : List Char :=
  (Match.follow s.table (.empty s.table) s.input).1.buffer.toList

/-- What is consumed up to the next token that is not ignored, or up to a failure. -/
def consumedPast (s : Scanner τ) : List Portion :=
  match h : s.scanOne with
  | (.token t, s') =>
    if s'.isIgnored t.kind then
      have := scanOne_unread_length_lt h
      .lexeme t :: consumedPast s'
    else [.lexeme t]
  | (.ended, s') => [.lexeme (.ofEof (s'.ended.getD s'.location))]
  | (.failure e, _) => [.dropped s.followed e]
termination_by s.input.unread.length

/-- What is consumed to know the next token: nothing if it has been looked at before. -/
def consumedByRead (s : Scanner τ) : List Portion :=
  match s.current with
  | some _ => []
  | none => s.consumedPast

/-- What is consumed up to the end of input or the first failure. -/
def consumedByReadAll (s : Scanner τ) : List Portion :=
  match h : s.read with
  | (_, .ok t, s') =>
    match ht : t.isEof with
    | true => s.consumedByRead
    | false =>
      have := read_remaining_lt h ht
      s.consumedByRead ++ consumedByReadAll s'
  | (_, .error _, _) => s.consumedByRead
termination_by s.remaining

/-- What is consumed up to the end of input when a character is skipped after every failure. -/
def consumedByRecover (s : Scanner τ) : List Portion :=
  match h : s.read with
  | (_, .ok t, s') =>
    match ht : t.isEof with
    | true => s.consumedByRead
    | false =>
      have := read_remaining_lt h ht
      s.consumedByRead ++ consumedByRecover s'
  | (_, .error _, s') =>
    match hs : s'.skip with
    | (none, _) => s.consumedByRead
    | (some c, s'') =>
      have : s''.remaining < s.remaining := by
        have hle := read_remaining_le s
        rw [h] at hle
        exact Nat.lt_of_lt_of_le (skip_remaining_lt hs) hle
      s.consumedByRead ++ .skipped c :: consumedByRecover s''
termination_by s.remaining

/-- What one request consumes. -/
def consumedBy (s : Scanner τ) : Request → List Portion
  | .current => s.consumedByRead
  | .advance => s.consumedByRead
  | .scanAll => s.consumedByReadAll
  | .recover => s.consumedByRecover
  | .skip => s.skip.1.toList.map .skipped
  | .ignore _ => []
  | .ignoreNamed _ => []
  | .isIgnored _ => []

/-- What requests consume, one after the other. -/
def consumed (s : Scanner τ) : List Request → List Portion
  | [] => []
  | request :: rest => s.consumedBy request ++ (s.answer request).2.consumed rest

def Event.token? : Event → Option Token
  | passed t => some t
  | token t => some t
  | failure _ => none
  | skipped _ _ => none

/-- The tokens that a reply returns. -/
def Reply.returned : Reply → List Token
  | token result => result.toOption.toList
  | tokens result => result.toOption.getD []
  | events all => all.filterMap Event.token?
  | skipped _ => []
  | accepted => []
  | refused _ => []
  | flag _ => []

theorem mem_toOption {ε α : Type} {x : Except ε α} {a : α} : a ∈ x.toOption.toList ↔ x = .ok a := by
  cases x <;> simp [Except.toOption, eq_comm]

end consumed

section scanOne

variable {τ : Type} [TransitionTable τ] {s s' : Scanner τ} {t : Token} {e : LexicalError}

/-- What one step of scanning leaves as it is. -/
structure Steady (s s' : Scanner τ) : Prop where
  current : s'.current = s.current
  ended : s'.ended = s.ended

/-- A token is the beginning of the unread text, and the scanner goes on behind it. -/
theorem scanOne_token (h : s.scanOne = (.token t, s')) : s.Steady s' ∧ s.ended = none ∧
    t.lexeme.toList ++ s'.input.unread = s.input.unread ∧ t.location = s.location ∧
      s'.location = s.location.afterAll t.lexeme.toList := by
  rcases hfollow : Match.follow s.table (.empty s.table) s.input with ⟨m, found, input⟩
  have htext := unread_eq_of_follow hfollow
  cases scanOne_cases hfollow h with
  | matched hended _ =>
    refine ⟨⟨rfl, rfl⟩, hended, ?_, rfl, by rw [String.toList_ofList]⟩
    rw [String.toList_ofList, Input.unread_putBackAll, ← List.append_assoc, List.take_append_drop, htext]

/-- The end comes where nothing is left to be read. -/
theorem scanOne_ended (h : s.scanOne = (.ended, s')) : s.Steady s' ∧ s'.location = s.location ∧
    s'.input.unread = s.input.unread ∧ (s.ended = none → s.input.unread = []) := by
  rcases hfollow : Match.follow s.table (.empty s.table) s.input with ⟨m, found, input⟩
  have htext := unread_eq_of_follow hfollow
  have hfound := Match.follow_found s.table (.empty s.table) s.input
  rw [hfollow] at hfound
  cases scanOne_cases hfollow h with
  | finished hended => exact ⟨⟨rfl, rfl⟩, rfl, rfl, by simp [hended]⟩
  | drained _ _ hbuffer hnone =>
    rw [hbuffer, List.nil_append] at htext
    exact ⟨⟨rfl, rfl⟩, rfl, htext, fun _ => htext.symm.trans (hfound.1 hnone)⟩

/-- On a failure what has been followed is consumed, and the failure is behind it. -/
theorem scanOne_failure (h : s.scanOne = (.failure e, s')) : s.Steady s' ∧ s.ended = none ∧
    s.followed ++ s'.input.unread = s.input.unread ∧ e.location = s'.location ∧
      s'.location = s.location.afterAll s.followed := by
  rcases hfollow : Match.follow s.table (.empty s.table) s.input with ⟨m, found, input⟩
  have htext := unread_eq_of_follow hfollow
  cases scanOne_cases hfollow h with
  | stuck hended _ _ =>
    rw [followed, hfollow]
    exact ⟨⟨rfl, rfl⟩, hended, htext, rfl, rfl⟩

end scanOne

end Scanner

end TableLexer
