/-! The text that is still to be scanned: what has been read ahead, and what is still in the source. -/
namespace TableLexer

/-- Characters that have been read from the source but belong to no token stand in the lookahead,
and are read again before the source is. -/
structure Input where
  lookahead : List Char := []
  source : List Char
deriving DecidableEq, Repr

namespace Input

/-- The text in the order in which it is read. -/
def unread (i : Input) : List Char := i.lookahead ++ i.source

/-- Takes the next character. -/
def next? : Input → Option (Char × Input)
  | ⟨c :: lookahead, source⟩ => some (c, ⟨lookahead, source⟩)
  | ⟨[], c :: source⟩ => some (c, ⟨[], source⟩)
  | ⟨[], []⟩ => none

/-- Puts a character back in front of all others. -/
def putBack (i : Input) (c : Char) : Input := { i with lookahead := c :: i.lookahead }

/-- Puts a text back, its last character first. -/
def putBackAll (i : Input) (text : List Char) : Input := text.reverse.foldl putBack i

variable {i j : Input} {c : Char}

theorem next?_eq_none_iff : i.next? = none ↔ i.unread = [] := by
  unfold next?
  split <;> simp [unread]

theorem unread_of_next? (h : i.next? = some (c, j)) : i.unread = c :: j.unread := by
  unfold next? at h
  split at h
  · obtain ⟨rfl, rfl⟩ := Prod.mk.inj (Option.some.inj h)
    rfl
  · obtain ⟨rfl, rfl⟩ := Prod.mk.inj (Option.some.inj h)
    rfl
  · simp at h

@[simp] theorem unread_putBack (i : Input) (c : Char) : (i.putBack c).unread = c :: i.unread := rfl

@[simp] theorem unread_putBackAll (i : Input) (text : List Char) :
    (i.putBackAll text).unread = text ++ i.unread := by
  rw [putBackAll, List.foldl_reverse]
  induction text with
  | nil => rfl
  | cons c text ih => rw [List.foldr_cons, unread_putBack, ih, List.cons_append]

end Input

end TableLexer
