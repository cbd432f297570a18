import TableLexer.CharClass
import TableLexer.Proofs.Symbol

/-! The grammar of character classes: a text is read from left to right as items and as ranges of items, and
each step takes a range where there is one. -/
namespace TableLexer

namespace CharClass

/-- A symbol other than a backslash, which stands for itself, or any symbol behind a backslash. -/
inductive Item where
  | plain (s : Symbol) (h : s ≠ .ofChar '\\')
  | escape (s : Symbol)

namespace Item

def word : Item → List Symbol
  | plain s _ => [s]
  | escape s => [.ofChar '\\', s]

/-- How an item is written. -/
def text (item : Item) : List Char := item.word.map Symbol.toChar

/-- The symbol that an item denotes. -/
def symbol : Item → Symbol
  | plain s _ => s
  | escape s =>
    match s.toChar with
    | 'n' => .ofChar '\n'
    | 't' => .ofChar '\t'
    | 'r' => .ofChar '\r'
    | '0' => .ofChar '\x00'
    | _ => s

end Item

/-- Reads the symbol of the first character of a text. -/
def symbol? : List Char → Option (Symbol × List Char)
  | [] => none
  | c :: rest => (Symbol.ofChar? c).map (·, rest)

/-- Reads the item at the beginning of a text. -/
def item? (unread : List Char) : Option (Item × List Char) :=
  (symbol? unread).bind fun (s, rest) =>
    if h : s = .ofChar '\\' then (symbol? rest).map fun (s, rest) => (.escape s, rest)
    else some (.plain s h, rest)

/-- Reads a dash and the item behind it. -/
def dashed? : List Char → Option (Item × List Char)
  | '-' :: rest => item? rest
  | _ => none

/-- What is read in one step: a range if there is one, and a single item if there is none. -/
inductive Entry where
  | single (item : Item)
  | range (first last : Item)

namespace Entry

/-- How an entry is written. -/
def text : Entry → List Char
  | single item => item.text
  | range first last => first.text ++ '-' :: last.text

/-- The range that an entry denotes. It must not end before it starts. -/
def checked (whole : String) : Entry → Except FormatError SymbolRange
  | single item => .ok (.single item.symbol)
  | range first last =>
    if last.symbol < first.symbol then
      .error (.emptyRange (String.ofList (range first last).text) whole)
    else .ok ⟨first.symbol, last.symbol⟩

end Entry

/-- Reads the entry at the beginning of a text. -/
def entryOf? (unread : List Char) : Option (Entry × List Char) :=
  (item? unread).map fun (first, rest) =>
    match dashed? rest with
    | some (last, rest) => (.range first last, rest)
    | none => (.single first, rest)

/-- The failure at a text that no item begins: what is found is the first character outside the alphabet, or
the end behind a backslash. -/
def stuckAt (place : Location) (unread : List Char) : LexicalError where
  found := unread.find? fun c => (Symbol.ofChar? c).isNone
  location := place.afterAll (unread.takeWhile fun c => (Symbol.ofChar? c).isSome)
  expected := Symbol.all

variable {item first last : Item} {entry entry' : Entry} {text rest rest' : List Char}

theorem symbol?_eq_some_iff {s : Symbol} : symbol? text = some (s, rest) ↔ text = s.toChar :: rest := by
  cases text with
  | nil => simp [symbol?]
  | cons c text => simp [symbol?, Symbol.ofChar?_eq_some_iff]

theorem symbol?_eq_none_iff : symbol? text = none ↔ ∀ c ∈ text.head?, Symbol.ofChar? c = none := by
  cases text with
  | nil => simp [symbol?]
  | cons c text => simp [symbol?]

@[simp] theorem item?_append (item : Item) (rest : List Char) :
    item? (item.text ++ rest) = some (item, rest) := by
  cases item with
  | plain s h => simp [Item.text, Item.word, item?, symbol?, Symbol.ofChar?_toChar, h]
  | escape s => simp [Item.text, Item.word, item?, symbol?, Symbol.ofChar?_toChar]

/-- No item begins another one. -/
theorem item?_eq_some_iff : item? text = some (item, rest) ↔ text = item.text ++ rest := by
  refine ⟨fun h => ?_, fun h => h ▸ item?_append item rest⟩
  obtain ⟨⟨s, behind⟩, hs, hread⟩ := Option.bind_eq_some_iff.1 h
  rw [symbol?_eq_some_iff.1 hs]
  dsimp only at hread
  split at hread
  · next hbackslash =>
    obtain ⟨⟨s', _⟩, hs', hread⟩ := Option.map_eq_some_iff.1 hread
    obtain ⟨rfl, rfl⟩ := Prod.mk.inj hread
    rw [hbackslash, symbol?_eq_some_iff.1 hs']
    rfl
  · obtain ⟨rfl, rfl⟩ := Prod.mk.inj (Option.some.inj hread)
    rfl

theorem dashed?_eq_some_iff : dashed? text = some (last, rest) ↔ text = '-' :: (last.text ++ rest) := by
  unfold dashed?
  split
  · simp [item?_eq_some_iff]
  · next hdash =>
    simp only [reduceCtorEq, false_iff]
    exact fun h => hdash _ h

theorem Item.length_word_pos (item : Item) : 0 < item.word.length := by
  cases item <;> simp [word]

theorem Entry.length_text_pos (entry : Entry) : 0 < entry.text.length := by
  cases entry with
  | single item =>
    rw [text, Item.text, List.length_map]
    exact item.length_word_pos
  | range first last =>
    rw [text, List.length_append, List.length_cons]
    omega

private theorem Entry.checked_eq_error {whole : String} {wrong : FormatError} (entry : Entry)
    (h : entry.checked whole = .error wrong) : ∃ range, wrong = .emptyRange range whole := by
  cases entry with
  | single item => simp [checked] at h
  | range first last =>
    rw [checked] at h
    split at h
    · exact ⟨_, (Except.error.inj h).symm⟩
    · simp at h

theorem text_eq_of_entryOf? (h : entryOf? text = some (entry, rest)) : text = entry.text ++ rest := by
  obtain ⟨⟨first, behind⟩, hfirst, hread⟩ := Option.map_eq_some_iff.1 h
  rw [item?_eq_some_iff.1 hfirst]
  dsimp only at hread
  split at hread
  · next last rest' hlast =>
    obtain ⟨rfl, rfl⟩ := Prod.mk.inj hread
    rw [dashed?_eq_some_iff.1 hlast]
    simp [Entry.text]
  · obtain ⟨rfl, rfl⟩ := Prod.mk.inj hread
    rfl

/-- No entry that begins a text is longer than the one that is read there. -/
theorem length_le_of_entryOf? (h : entryOf? (entry'.text ++ rest') = some (entry, rest)) :
    entry'.text.length ≤ entry.text.length := by
  cases entry' with
  | range first last =>
    have hentry : entryOf? ((Entry.range first last).text ++ rest') = some (.range first last, rest') := by
      simp [entryOf?, Entry.text, dashed?]
    obtain ⟨rfl, -⟩ := Prod.mk.inj (Option.some.inj (hentry.symm.trans h))
    exact Nat.le_refl _
  | single item =>
    rw [Entry.text, entryOf?, item?_append, Option.map_some, Option.some_inj] at h
    dsimp only at h
    split at h
    · obtain ⟨rfl, -⟩ := Prod.mk.inj h
      simp [Entry.text]
    · obtain ⟨rfl, -⟩ := Prod.mk.inj h
      exact Nat.le_refl _

/-- Where no entry is read, none begins the text. -/
theorem ne_of_entryOf?_eq_none (h : entryOf? text = none) : entry.text ++ rest ≠ text := by
  rintro rfl
  cases entry <;> simp [entryOf?, Entry.text] at h

/-- No entry is read only at a character outside the alphabet or at the end, perhaps behind a backslash. -/
theorem cases_of_entryOf?_eq_none (h : entryOf? text = none) : ∃ v rest, v ++ rest = text ∧
    (v = [] ∨ v = ['\\']) ∧ ∀ c ∈ rest.head?, Symbol.ofChar? c = none := by
  rw [entryOf?, Option.map_eq_none_iff, item?] at h
  cases hs : symbol? text with
  | none => exact ⟨[], text, rfl, .inl rfl, symbol?_eq_none_iff.1 hs⟩
  | some read =>
    obtain ⟨s, rest⟩ := read
    rw [hs, Option.bind_some] at h
    dsimp only at h
    split at h
    · next hbackslash =>
      rw [symbol?_eq_some_iff.1 hs, hbackslash]
      exact ⟨['\\'], rest, rfl, .inr rfl, symbol?_eq_none_iff.1 (Option.map_eq_none_iff.1 h)⟩
    · simp at h

theorem stuckAt_append {place : Location} {v : List Char} (hv : ∀ c ∈ v, (Symbol.ofChar? c).isSome)
    (hrest : ∀ c ∈ rest.head?, Symbol.ofChar? c = none) :
    stuckAt place (v ++ rest) = ⟨rest.head?, place.afterAll v, Symbol.all⟩ := by
  have hfind : v.find? (fun c => (Symbol.ofChar? c).isNone) = none := by
    simpa [Option.isSome_iff_ne_none] using hv
  rw [stuckAt, List.takeWhile_append_of_pos hv, List.find?_append, hfind, Option.none_or]
  cases rest with
  | nil => simp
  | cons c rest => simp [hrest c rfl]

/-- The ranges of a class text from a place on. -/
def readFrom (whole : String) (place : Location) (unread : List Char) :
    Except DescriptionError (List SymbolRange) :=
  match h : entryOf? unread with
  | some (entry, rest) => do
    have : rest.length < unread.length := by
      have hpos := entry.length_text_pos
      rw [text_eq_of_entryOf? h, List.length_append]
      omega
    let range ← (entry.checked whole).mapError .format
    let ranges ← readFrom whole (place.afterAll entry.text) rest
    return range :: ranges
  | none => if unread.isEmpty then return [] else throw (.charClass (stuckAt place unread))
termination_by unread.length

section readFrom

variable {whole : String} {place : Location} {e : DescriptionError}

theorem readFrom_entry (h : entryOf? text = some (entry, rest)) : readFrom whole place text = (do
    let range ← (entry.checked whole).mapError .format
    let ranges ← readFrom whole (place.afterAll entry.text) rest
    return range :: ranges) := by
  rw [readFrom]
  split
  · next heq =>
    obtain ⟨rfl, rfl⟩ := Prod.mk.inj (Option.some.inj (h.symm.trans heq))
    rfl
  · next heq => exact absurd (h.symm.trans heq) (by simp)

theorem readFrom_nil : readFrom whole place [] = .ok [] := by
  rw [readFrom]
  rfl

theorem readFrom_stuck (h : entryOf? text = none) (hne : text ≠ []) :
    readFrom whole place text = .error (.charClass (stuckAt place text)) := by
  rw [readFrom]
  split
  · next heq => exact absurd (h.symm.trans heq) (by simp)
  · rw [if_neg (by simpa using hne)]
    rfl

/-- A class is wrong only where a range is empty or where no item can be read. -/
theorem readFrom_eq_error (h : readFrom whole place text = .error e) :
    (∃ range, e = .format (.emptyRange range whole)) ∨ ∃ failure, e = .charClass failure := by
  fun_induction readFrom whole place text with
  | case1 place unread entry rest hentry _ ih =>
    cases hchecked : entry.checked whole with
    | error wrong =>
      rw [hchecked] at h
      obtain rfl : .format wrong = e := Except.error.inj h
      obtain ⟨range, rfl⟩ := entry.checked_eq_error hchecked
      exact .inl ⟨range, rfl⟩
    | ok range =>
      rw [hchecked] at h
      cases hranges : readFrom whole (place.afterAll entry.text) rest with
      | error wrong =>
        rw [hranges] at h
        obtain rfl : wrong = e := Except.error.inj h
        exact ih hranges
      | ok ranges =>
        rw [hranges] at h
        simp [Except.mapError, bind, Except.bind, pure, Except.pure] at h
  | case2 place unread hentry hnil => simp [pure, Except.pure] at h
  | case3 place unread hentry hne =>
    obtain rfl := Except.error.inj h
    exact .inr ⟨_, rfl⟩

end readFrom

end CharClass

end TableLexer
