import Mathlib.Data.List.Basic
import TableLexer.Proofs.Json.Lexemes
import TableLexer.Text.Quoted

/-! The tokens of Rust source, by as many of its lexical rules as a table needs. -/
namespace TableLexer

namespace Source

/-- A word is a name, a keyword or a number. Any other character outside of strings is a mark. -/
inductive Token where
  | word (text : String)
  | text (value : String)
  | mark (c : Char)
  | fault
deriving DecidableEq

/-- Where in the source a character is met. What has been read of a word or a string is kept. -/
inductive Mode where
  | between
  | word (read : List Char)
  | slash
  | comment
  | text (read : List Char)
  | escape (read : List Char)
  | brace (read : List Char)
  | code (read : List Char) (n : Nat)
deriving DecidableEq

def isWordChar (c : Char) : Bool := c.isAlphanum || c == '_'

/-- The first character of a token. -/
def start (c : Char) : Mode × List Token :=
  if isWordChar c then (.word [c], [])
  else if c = '"' then (.text [], [])
  else if c = '/' then (.slash, [])
  else if c.isWhitespace then (.between, [])
  else (.between, [.mark c])

/-- The character that a letter behind a backslash stands for. -/
def escaped? (c : Char) : Option Char :=
  match c with
  | '0' => some '\x00'
  | 't' => some '\t'
  | 'n' => some '\n'
  | 'r' => some '\r'
  | '\\' => some '\\'
  | '"' => some '"'
  | '\'' => some '\''
  | _ => none

/-- What a character changes, and the tokens that end before or with it. -/
def step (mode : Mode) (c : Char) : Mode × List Token :=
  match mode with
  | .between => start c
  | .word read =>
    if isWordChar c then (.word (read ++ [c]), [])
    else ((start c).1, .word (.ofList read) :: (start c).2)
  | .slash => if c = '/' then (.comment, []) else ((start c).1, .mark '/' :: (start c).2)
  | .comment => if c = '\n' then (.between, []) else (.comment, [])
  | .text read =>
    if c = '"' then (.between, [.text (.ofList read)])
    else if c = '\\' then (.escape read, [])
    else (.text (read ++ [c]), [])
  | .escape read =>
    if c = 'u' then (.brace read, [])
    else
      match escaped? c with
      | some c => (.text (read ++ [c]), [])
      | none => (.text read, [.fault])
  | .brace read => if c = '{' then (.code read 0, []) else (.text read, [.fault])
  | .code read n =>
    if c = '}' then
      if n.isValidChar then (.text (read ++ [Char.ofNat n]), []) else (.text read, [.fault])
    else
      match Text.hexValue? c with
      | some digit => (.code read (n * 16 + digit), [])
      | none => (.text read, [.fault])

def run (mode : Mode) (text : List Char) : Mode × List Token :=
  match text with
  | [] => (mode, [])
  | c :: rest =>
    let next := run (step mode c).1 rest
    (next.1, (step mode c).2 ++ next.2)

/-- The tokens that the end of the source completes. -/
def finish (mode : Mode) : List Token :=
  match mode with
  | .between | .comment => []
  | .word read => [.word (.ofList read)]
  | .slash => [.mark '/']
  | .text _ | .escape _ | .brace _ | .code _ _ => [.fault]

def tokens (source : String) : List Token :=
  let last := run .between source.toList
  last.2 ++ finish last.1

/-- A text has these tokens wherever a token may start, whatever follows. -/
def Spells (text : String) (tokens : List Token) : Prop := run .between text.toList = (.between, tokens)

instance (text : String) (tokens : List Token) : Decidable (Spells text tokens) :=
  inferInstanceAs (Decidable (_ = _))

/-- A text is a word, and nothing but a word. -/
def isWord (text : String) : Bool := !text.toList.isEmpty && text.toList.all isWordChar

/-- A text starts with something else than a word goes on with. -/
def delimits (text : String) : Bool := text.toList.head?.any (!isWordChar ·)

variable {text more : String} {made : List Token} {read chars : List Char} {c : Char}

private theorem run_cons (mode : Mode) (c : Char) (rest : List Char) :
    run mode (c :: rest) = ((run (step mode c).1 rest).1, (step mode c).2 ++ (run (step mode c).1 rest).2) := rfl

private theorem run_append (mode : Mode) (chars rest : List Char) : run mode (chars ++ rest) =
    ((run (run mode chars).1 rest).1, (run mode chars).2 ++ (run (run mode chars).1 rest).2) := by
  induction chars generalizing mode with
  | nil => rfl
  | cons c chars ih => simp only [List.cons_append, run_cons, ih, List.append_assoc]

private theorem run_append_of_eq {mode mode' : Mode} (h : run mode chars = (mode', [])) (rest : List Char) :
    run mode (chars ++ rest) = run mode' rest := by
  rw [run_append, h]
  rfl

theorem tokens_eq (h : Spells text made) : tokens text = made := by
  rw [tokens, show run .between text.toList = _ from h]
  exact List.append_nil made

theorem Spells.append {made' : List Token} (h : Spells text made) (h' : Spells more made') :
    Spells (text ++ more) (made ++ made') := by
  unfold Spells at *
  rw [String.toList_append, run_append, h, h']

private theorem run_word (h : ∀ c ∈ chars, isWordChar c = true) :
    run (.word read) chars = (.word (read ++ chars), []) := by
  induction chars generalizing read with
  | nil => simp [run]
  | cons c chars ih =>
    obtain ⟨hc, hchars⟩ := List.forall_mem_cons.1 h
    rw [run_cons, step, if_pos hc, ih hchars, List.append_assoc]
    rfl

/-- A word ends where something else begins. -/
private theorem run_word_cons (read rest : List Char) (hc : isWordChar c = false) : run (.word read) (c :: rest) =
    ((run .between (c :: rest)).1, .word (.ofList read) :: (run .between (c :: rest)).2) := by
  have hstop : step (.word read) c = ((start c).1, .word (.ofList read) :: (start c).2) :=
    if_neg (Bool.eq_false_iff.1 hc)
  rw [run_cons, hstop]
  rfl

theorem delimits_append (h : delimits text = true) (more : String) : delimits (text ++ more) = true := by
  rw [delimits] at h ⊢
  cases htext : text.toList with
  | nil => simp [htext] at h
  | cons c rest => simpa [htext] using h

theorem isWord_iff {word : String} :
    isWord word = true ↔ word.toList ≠ [] ∧ ∀ c ∈ word.toList, isWordChar c = true := by
  simp [isWord]

theorem Spells.word_append {word : String} (hword : isWord word = true) (hmore : delimits more = true)
    (h : Spells more made) : Spells (word ++ more) (.word word :: made) := by
  unfold Spells at *
  obtain ⟨c, hc, hstop⟩ := (Option.any_eq_true ..).1 hmore
  obtain ⟨rest, hrest⟩ := List.head?_eq_some_iff.1 hc
  obtain ⟨hne, hletters⟩ := isWord_iff.1 hword
  obtain ⟨d, ds, hds⟩ := List.exists_cons_of_ne_nil hne
  rw [hds] at hletters
  obtain ⟨hd, hletters⟩ := List.forall_mem_cons.1 hletters
  have hstart : run .between [d] = (.word [d], []) := by
    rw [run_cons, show step .between d = (.word [d], []) from if_pos hd]
    rfl
  have hread : run .between (d :: ds) = (.word (d :: ds), []) := by
    rw [← List.singleton_append, run_append_of_eq hstart, run_word hletters]
  rw [hrest] at h
  rw [String.toList_append, hds, hrest, run_append_of_eq hread, run_word_cons _ _ (by simpa using hstop), h, ← hds,
    String.ofList_toList]

private theorem step_code {n digit : Nat} (h : digit < 16) :
    step (.code read n) (Nat.digitChar digit) = (.code read (n * 16 + digit), []) := by
  have hne : Nat.digitChar digit ≠ '}' := by
    revert h
    revert digit
    decide
  rw [step, if_neg hne, Json.hexValue?_digitChar h]

private theorem run_toDigits (read : List Char) (n : Nat) :
    run (.code read 0) (Nat.toDigits 16 n) = (.code read n, []) := by
  induction n using Nat.strongRecOn with
  | ind n ih =>
    by_cases hlt : n < 16
    · rw [Nat.toDigits_of_lt_base hlt, run_cons, step_code hlt, Nat.zero_mul, Nat.zero_add]
      rfl
    · rw [Nat.toDigits_of_base_le (by decide) (by omega), run_append_of_eq (ih (n / 16) (by omega)), run_cons,
        step_code (Nat.mod_lt n (by decide)), Nat.div_add_mod' n 16]
      rfl

/-- A character is read as it was before it was escaped. -/
private theorem run_escapeWithin (read : List Char) (c : Char) :
    run (.text read) (Text.escapeWithin '"' c) = (.text (read ++ [c]), []) := by
  unfold Text.escapeWithin
  split
  · rfl
  · rfl
  · rfl
  · rfl
  · rfl
  · next hbackslash =>
    split
    · next hquote =>
      rw [hquote]
      rfl
    · next hquote =>
      split
      · have hopen : run (.text read) ['\\', 'u', '{'] = (.code read 0, []) := rfl
        have hclose : run (.code read c.toNat) ['}'] = (.text (read ++ [c]), []) := by
          have hvalid : c.toNat.isValidChar := c.valid
          rw [run_cons, step, if_pos rfl, if_pos hvalid, Char.ofNat_toNat]
          rfl
        rw [List.append_assoc, run_append_of_eq hopen, run_append_of_eq (run_toDigits read c.toNat), hclose]
      · rw [run_cons, step, if_neg hquote, if_neg hbackslash]
        rfl

private theorem run_flatMap_escapeWithin (read chars : List Char) :
    run (.text read) (chars.flatMap (Text.escapeWithin '"')) = (.text (read ++ chars), []) := by
  induction chars generalizing read with
  | nil => simp [run]
  | cons c chars ih =>
    rw [List.flatMap_cons, run_append_of_eq (run_escapeWithin read c), ih, List.append_assoc]
    rfl

/-- A text is read as it was before it was quoted. -/
theorem spells_quoted (value : String) : Spells (Text.quoted value) [.text value] := by
  have hopen : run .between ['"'] = (.text [], []) := by decide
  unfold Spells Text.quoted
  rw [String.toList_ofList, ← List.singleton_append, List.append_assoc, run_append_of_eq hopen,
    run_append_of_eq (run_flatMap_escapeWithin [] value.toList), List.nil_append]
  show (Mode.between, [Token.text (.ofList value.toList)]) = _
  rw [String.ofList_toList]

end Source

end TableLexer
