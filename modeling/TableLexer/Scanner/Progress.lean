import TableLexer.Scanner.Basic

/-! Scanning makes progress: every token but the end of input takes at least one character. -/
namespace TableLexer

namespace Scanner

variable {τ : Type} [TransitionTable τ]

/-- How much a scanner still has to give out: characters, and a token that has been looked at. -/
def remaining (s : Scanner τ) : Nat := s.input.unread.length + s.current.toList.length

theorem scanPast_unread_length_le (s : Scanner τ) (passed : List Token) :
    (s.scanPast passed).2.2.input.unread.length ≤ s.input.unread.length := by
  fun_induction scanPast s passed with
  | case1 s passed t s' h _ hlt ih => omega
  | case2 s passed t s' h _ => exact Nat.le_of_lt (scanOne_unread_length_lt h)
  | case3 s passed s' h _ => have := scanOne_unread_length_le s; simpa [h] using this
  | case4 s passed e s' h => have := scanOne_unread_length_le s; simpa [h] using this

theorem scanPast_current (s : Scanner τ) (passed : List Token) :
    (s.scanPast passed).2.2.current = s.current := by
  fun_induction scanPast s passed with
  | case1 s passed t s' h _ hlt ih => have := scanOne_current s; simp_all
  | case2 s passed t s' h _ => have := scanOne_current s; simp_all
  | case3 s passed s' h _ => have := scanOne_current s; simp_all
  | case4 s passed e s' h => have := scanOne_current s; simp_all

theorem scanPast_unread_length_lt {s s' : Scanner τ} {passed ts : List Token} {t : Token}
    (h : s.scanPast passed = (ts, .ok t, s')) (ht : t.isEof = false) :
    s'.input.unread.length < s.input.unread.length := by
  fun_induction scanPast s passed with
  | case1 s passed u s₁ h₁ _ hlt ih => exact Nat.lt_trans (ih h) hlt
  | case2 s passed u s₁ h₁ _ =>
    obtain rfl : s₁ = s' := congrArg (·.2.2) h
    exact scanOne_unread_length_lt h₁
  | case3 s passed s₁ h₁ place =>
    have : Token.ofEof place = t := by simpa using congrArg (·.2.1) h
    subst this
    simp [Token.isEof, Token.ofEof] at ht
  | case4 s passed e s₁ h₁ => simp at h

theorem read_remaining_lt {s s' : Scanner τ} {ts : List Token} {t : Token}
    (h : s.read = (ts, .ok t, s')) (ht : t.isEof = false) : s'.remaining < s.remaining := by
  unfold read at h
  split at h
  · next u hu =>
    obtain rfl : { s with current := none } = s' := congrArg (·.2.2) h
    simp [remaining, hu]
  · next hu =>
    have hlt := scanPast_unread_length_lt h ht
    have hc : s'.current = s.current := by simpa [h] using scanPast_current s []
    simp only [remaining, hc]
    omega

theorem read_remaining_le (s : Scanner τ) : s.read.2.2.remaining ≤ s.remaining := by
  unfold read
  split
  · simp [remaining]
  · have hle := scanPast_unread_length_le s []
    have hc := scanPast_current s []
    simp only [remaining, hc]
    omega

omit [TransitionTable τ] in
theorem skip_remaining_lt {s s' : Scanner τ} {c : Char} (h : s.skip = (some c, s')) :
    s'.remaining < s.remaining := by
  unfold skip at h
  split at h
  · next hnext =>
    obtain ⟨-, rfl⟩ := Prod.mk.inj h
    simp [remaining, Input.unread_of_next? hnext]
  · simp at h

end Scanner

end TableLexer
