import TableLexer.Proofs.Json.Lexemes

/-! The compact text of a value is read as the value. -/
namespace TableLexer

namespace Json

def quoted (text : String) : List Char := '"' :: text.toList.flatMap escape ++ ['"']

mutual

/-- The characters of a value's compact text. -/
def chars : Json → List Char
  | null => ['n', 'u', 'l', 'l']
  | bool true => ['t', 'r', 'u', 'e']
  | bool false => ['f', 'a', 'l', 's', 'e']
  | integer n => (toString n).toList
  | otherNumber => ['-', '0']
  | string text => quoted (text.getD "")
  | array items => '[' :: itemChars items ++ [']']
  | object fields => '{' :: fieldChars fields ++ ['}']

def itemChars : List Json → List Char
  | [] => []
  | [item] => item.chars
  | item :: next :: rest => item.chars ++ ',' :: itemChars (next :: rest)

def fieldChars : List (Option String × Json) → List Char
  | [] => []
  | [(key, value)] => quoted (key.getD "") ++ ':' :: value.chars
  | (key, value) :: next :: rest => quoted (key.getD "") ++ ':' :: value.chars ++ ',' :: fieldChars (next :: rest)

end

private theorem toList_quote (text : String) : (quote text).toList = quoted text := by
  rw [quote, String.toList_ofList]
  rfl

mutual

private theorem toList_write (out : String) : (j : Json) → (write out j).toList = out.toList ++ j.chars
  | null => by simp [write, chars]
  | bool true => by simp [write, chars]
  | bool false => by simp [write, chars]
  | integer n => by simp [write, chars]
  | otherNumber => by simp [write, chars]
  | string text => by simp [write, chars, toList_quote]
  | array items => by simp [write, chars, toList_writeItems]
  | object fields => by simp [write, chars, toList_writeFields]

theorem toList_writeItems (out : String) :
    (items : List Json) → (writeItems out items).toList = out.toList ++ itemChars items
  | [] => by simp [writeItems, itemChars]
  | [item] => by simp [writeItems, itemChars, toList_write]
  | item :: next :: rest => by
    rw [writeItems, toList_writeItems _ (next :: rest), itemChars]
    · simp [toList_write]
    · exact List.cons_ne_nil next rest

theorem toList_writeFields (out : String) :
    (fields : List (Option String × Json)) → (writeFields out fields).toList = out.toList ++ fieldChars fields
  | [] => by simp [writeFields, fieldChars]
  | [(key, value)] => by simp [writeFields, fieldChars, toList_write, toList_quote]
  | (key, value) :: next :: rest => by
    rw [writeFields, toList_writeFields _ (next :: rest), fieldChars]
    · simp [toList_write, toList_quote]
    · exact List.cons_ne_nil next rest

end

private theorem toList_compact (j : Json) : j.compact.toList = j.chars := by
  rw [compact, toList_write]
  rfl

/-- A value whose strings and keys are Unicode text. -/
inductive Spelled : Json → Prop where
  | null : Spelled null
  | bool (b : Bool) : Spelled (bool b)
  | integer (n : Int) : Spelled (integer n)
  | otherNumber : Spelled otherNumber
  | string (text : String) : Spelled (string (some text))
  | array {items : List Json} (hitems : ∀ item ∈ items, Spelled item) : Spelled (array items)
  | object {fields : List (Option String × Json)} (hkeys : ∀ field ∈ fields, field.1.isSome)
      (hvalues : ∀ field ∈ fields, Spelled field.2) : Spelled (object fields)

/-- With a unit of fuel for every character, the value is read where it has been written. -/
def Reads (j : Json) : Prop := ∀ (fuel : Nat) (rest : List Char), j.chars.length ≤ fuel → Ended rest →
  readValue fuel (j.chars ++ rest) = some (j, rest)

section read

variable {c : Char} {fuel : Nat} {rest : List Char}

private theorem skipBlanks_cons (h : isBlank c = false) (rest : List Char) : skipBlanks (c :: rest) = c :: rest := by
  rw [skipBlanks, h, if_neg Bool.false_ne_true]

private theorem isBlank_of_isDigit (h : c.isDigit = true) : isBlank c = false := by
  rw [← Bool.not_eq_true]
  intro hblank
  simp only [isBlank, Bool.or_eq_true, beq_iff_eq] at hblank
  rcases hblank with ((rfl | rfl) | rfl) | rfl
  all_goals contradiction

private theorem chars_integer (n : Int) : (integer n).chars =
    if 0 ≤ n then Nat.toDigits 10 n.toNat else '-' :: Nat.toDigits 10 (-n).toNat := by
  rw [chars, Int.toString_eq_repr, Int.repr_eq_if]
  split
  · exact Nat.toList_repr
  · rw [String.toList_append, Nat.toList_repr]
    rfl

/-- A value starts with a character that is neither a blank nor the end of an array. -/
private theorem exists_start (j : Json) : ∃ c tail, j.chars = c :: tail ∧ isBlank c = false ∧ c ≠ ']' := by
  cases j with
  | null => exact ⟨_, _, rfl, rfl, by decide⟩
  | bool b => cases b <;> exact ⟨_, _, rfl, rfl, by decide⟩
  | integer n =>
    rw [chars_integer]
    split
    · obtain ⟨d, ds, hds, hd⟩ := exists_decimal n.toNat
      refine ⟨d, ds, hds, isBlank_of_isDigit hd, ?_⟩
      rintro rfl
      contradiction
    · exact ⟨_, _, rfl, rfl, by decide⟩
  | otherNumber => exact ⟨_, _, rfl, rfl, by decide⟩
  | string text => exact ⟨_, _, rfl, rfl, by decide⟩
  | array items => exact ⟨_, _, rfl, rfl, by decide⟩
  | object fields => exact ⟨_, _, rfl, rfl, by decide⟩

/-- What starts with a digit or a sign is read as a number. -/
theorem readValue_number (h : c.isDigit = true ∨ c = '-') (rest : List Char) :
    readValue (fuel + 1) (c :: rest) = readNumber (c :: rest) := by
  have hblank : isBlank c = false := by
    rcases h with h | rfl
    · exact isBlank_of_isDigit h
    · rfl
  rw [readValue, skipBlanks_cons hblank]
  split
  case h_7 => rfl
  all_goals
    next heq =>
      rw [(List.cons.inj heq).1] at h
      exact absurd h (by decide)

private theorem ended_comma (rest : List Char) : Ended (',' :: rest) := by simp [Ended]

private theorem ended_bracket (rest : List Char) : Ended (']' :: rest) := by simp [Ended]

private theorem ended_brace (rest : List Char) : Ended ('}' :: rest) := by simp [Ended]

/-- A value has a character, so that there is a unit of fuel to start with. -/
private theorem Reads.intro {j : Json} (h : ∀ (fuel : Nat) (rest : List Char), j.chars.length ≤ fuel + 1 → Ended rest →
    readValue (fuel + 1) (j.chars ++ rest) = some (j, rest)) : Reads j := by
  intro fuel rest hfuel hrest
  obtain ⟨c, tail, hchars, -⟩ := exists_start j
  have hpos : 0 < j.chars.length := by simp [hchars]
  obtain ⟨fuel, rfl⟩ := Nat.exists_eq_add_one_of_ne_zero (n := fuel) (by omega)
  exact h fuel rest hfuel hrest

private theorem reads_integer (n : Int) : Reads (integer n) := by
  refine Reads.intro fun fuel rest _ hrest => ?_
  rw [chars_integer]
  split
  · next hn =>
    obtain ⟨d, ds, hds, hd⟩ := exists_decimal n.toNat
    have hnumber := readNumber_decimal hrest n.toNat
    rw [hds, List.cons_append] at hnumber ⊢
    rw [readValue_number (.inl hd), hnumber, Int.toNat_of_nonneg hn]
  · next hn =>
    rw [List.cons_append, readValue_number (.inr rfl), readNumber_negative hrest (by omega),
      Int.toNat_of_nonneg (by omega), Int.neg_neg]

private theorem reads_otherNumber : Reads otherNumber := by
  refine Reads.intro fun fuel rest _ hrest => ?_
  have hdigits : digits (['0'] ++ rest) = (['0'], rest) :=
    hrest.digits_append (List.forall_mem_singleton.2 rfl)
  have hread : readValue (fuel + 1) (otherNumber.chars ++ rest) = readNumber ('-' :: (['0'] ++ rest)) :=
    readValue_number (.inr rfl) _
  rw [hread]
  simp only [readNumber, hdigits, hrest.readTail_eq]
  rfl

private theorem reads_string (text : String) : Reads (string (some text)) := by
  refine Reads.intro fun fuel rest _ _ => ?_
  have hchars : (string (some text)).chars ++ rest = '"' :: (text.toList.flatMap escape ++ '"' :: rest) := by
    simp [chars, quoted]
  rw [hchars, readValue]
  simp only [skipBlanks_cons (c := '"') rfl, readString_flatMap_escape, Option.map_some]

variable {items : List Json} {fields : List (Option String × Json)}

private theorem readItems_itemChars (hitems : ∀ item ∈ items, Reads item) (hne : items ≠ []) (made : List Json)
    (hfuel : (itemChars items).length + 1 ≤ fuel) (rest : List Char) :
    readItems fuel made (itemChars items ++ ']' :: rest) = some (array (made.reverse ++ items), rest) := by
  induction items generalizing fuel made with
  | nil => contradiction
  | cons item items ih =>
    obtain ⟨fuel, rfl⟩ := Nat.exists_eq_add_one_of_ne_zero (n := fuel) (by omega)
    obtain ⟨hitem, hitems⟩ := List.forall_mem_cons.1 hitems
    cases items with
    | nil =>
      rw [itemChars] at hfuel ⊢
      rw [readItems, hitem fuel _ (by omega) (ended_bracket rest)]
      simp [skipBlanks, isBlank]
    | cons next items =>
      rw [itemChars, List.length_append, List.length_cons] at hfuel
      rw [itemChars, List.append_assoc, List.cons_append, readItems, hitem fuel _ (by omega) (ended_comma _)]
      simp only [skipBlanks_cons (c := ',') rfl]
      rw [ih hitems (List.cons_ne_nil next items) (item :: made) (by omega)]
      simp

private theorem exists_start_items (item : Json) (items : List Json) :
    ∃ c tail, itemChars (item :: items) = c :: tail ∧ isBlank c = false ∧ c ≠ ']' := by
  obtain ⟨c, tail, hchars, hstart⟩ := exists_start item
  cases items with
  | nil => exact ⟨c, tail, by rw [itemChars, hchars], hstart⟩
  | cons next items => exact ⟨c, _, by rw [itemChars, hchars, List.cons_append], hstart⟩

private theorem reads_array (hitems : ∀ item ∈ items, Reads item) : Reads (array items) := by
  refine Reads.intro fun fuel rest hfuel _ => ?_
  have hchars : (array items).chars ++ rest = '[' :: (itemChars items ++ ']' :: rest) := by simp [chars]
  have hlength : (array items).chars.length = (itemChars items).length + 2 := by simp [chars]
  rw [hchars]
  cases items with
  | nil => rfl
  | cons item items =>
    have hfuel : (itemChars (item :: items)).length + 1 ≤ fuel := by omega
    have hitems := readItems_itemChars hitems (List.cons_ne_nil item items) [] hfuel rest
    obtain ⟨c, tail, hstart, hblank, hc⟩ := exists_start_items item items
    rw [hstart, List.cons_append] at hitems ⊢
    rw [readValue]
    simp only [skipBlanks_cons (c := '[') rfl, skipBlanks_cons hblank]
    split
    · next heq => exact absurd (List.cons.inj heq).1 hc
    · exact hitems

section field

variable {key : String} {value : Json} {text : List Char}

private theorem chars_field (key : String) (text : List Char) :
    quoted key ++ ':' :: text = '"' :: (key.toList.flatMap escape ++ '"' :: ':' :: text) := by
  simp [quoted]

private theorem readFields_comma (hvalue : readValue fuel text = some (value, ',' :: rest))
    (made : List (Option String × Json)) :
    readFields (fuel + 1) made (quoted key ++ ':' :: text) = readFields fuel ((some key, value) :: made) rest := by
  rw [chars_field, readFields]
  simp only [skipBlanks_cons (c := '"') rfl, skipBlanks_cons (c := ':') rfl, skipBlanks_cons (c := ',') rfl,
    readString_flatMap_escape, hvalue]

private theorem readFields_brace (hvalue : readValue fuel text = some (value, '}' :: rest))
    (made : List (Option String × Json)) :
    readFields (fuel + 1) made (quoted key ++ ':' :: text) =
      some (object ((some key, value) :: made).reverse, rest) := by
  rw [chars_field, readFields]
  simp only [skipBlanks_cons (c := '"') rfl, skipBlanks_cons (c := ':') rfl, skipBlanks_cons (c := '}') rfl,
    readString_flatMap_escape, hvalue]

end field

private theorem readFields_fieldChars (hkeys : ∀ field ∈ fields, field.1.isSome)
    (hvalues : ∀ field ∈ fields, Reads field.2) (hne : fields ≠ []) (made : List (Option String × Json))
    (hfuel : (fieldChars fields).length + 1 ≤ fuel) (rest : List Char) :
    readFields fuel made (fieldChars fields ++ '}' :: rest) = some (object (made.reverse ++ fields), rest) := by
  induction fields generalizing fuel made with
  | nil => contradiction
  | cons field fields ih =>
    obtain ⟨fuel, rfl⟩ := Nat.exists_eq_add_one_of_ne_zero (n := fuel) (by omega)
    obtain ⟨key, value⟩ := field
    obtain ⟨hkey, hkeys'⟩ := List.forall_mem_cons.1 hkeys
    obtain ⟨hvalue, hvalues'⟩ := List.forall_mem_cons.1 hvalues
    obtain ⟨key, rfl⟩ : ∃ text, key = some text := Option.isSome_iff_exists.1 hkey
    have hvalue : Reads value := hvalue
    cases fields with
    | nil =>
      rw [fieldChars, List.length_append, List.length_cons] at hfuel
      rw [fieldChars, List.append_assoc, List.cons_append, Option.getD_some,
        readFields_brace (hvalue fuel _ (by omega) (ended_brace rest)), List.reverse_cons]
    | cons next fields =>
      rw [fieldChars, List.length_append, List.length_append, List.length_cons, List.length_cons] at hfuel
      have hrest := ih hkeys' hvalues' (List.cons_ne_nil next fields) ((some key, value) :: made)
        (show (fieldChars (next :: fields)).length + 1 ≤ fuel by omega)
      rw [fieldChars, List.append_assoc, List.append_assoc, List.cons_append, List.cons_append, Option.getD_some,
        readFields_comma (hvalue fuel _ (by omega) (ended_comma _)), hrest, List.reverse_cons, List.append_assoc]
      rfl

private theorem exists_quote_fields (field : Option String × Json) (fields : List (Option String × Json)) :
    ∃ tail, fieldChars (field :: fields) = '"' :: tail := by
  cases fields with
  | nil => exact ⟨_, rfl⟩
  | cons next fields => exact ⟨_, rfl⟩

private theorem reads_object (hkeys : ∀ field ∈ fields, field.1.isSome) (hvalues : ∀ field ∈ fields, Reads field.2) :
    Reads (object fields) := by
  refine Reads.intro fun fuel rest hfuel _ => ?_
  have hchars : (object fields).chars ++ rest = '{' :: (fieldChars fields ++ '}' :: rest) := by simp [chars]
  have hlength : (object fields).chars.length = (fieldChars fields).length + 2 := by simp [chars]
  rw [hchars]
  cases fields with
  | nil => rfl
  | cons field fields =>
    have hfuel : (fieldChars (field :: fields)).length + 1 ≤ fuel := by omega
    have hfields := readFields_fieldChars hkeys hvalues (List.cons_ne_nil field fields) [] hfuel rest
    obtain ⟨tail, hstart⟩ := exists_quote_fields field fields
    rw [hstart, List.cons_append] at hfields ⊢
    exact hfields

private theorem Spelled.reads {j : Json} (h : Spelled j) : Reads j := by
  induction h with
  | null => exact Reads.intro fun fuel rest _ _ => rfl
  | bool b => cases b <;> exact Reads.intro fun fuel rest _ _ => rfl
  | integer n => exact reads_integer n
  | otherNumber => exact reads_otherNumber
  | string text => exact reads_string text
  | array _ ih => exact reads_array ih
  | object hkeys _ ih => exact reads_object hkeys ih

/-- The compact text of a value is read as the value. -/
theorem Spelled.parse?_compact {j : Json} (h : Spelled j) : parse? j.compact = some j := by
  have hread := h.reads (j.chars.length + 1) [] (Nat.le_succ _) (by simp [Ended])
  rw [List.append_nil] at hread
  rw [parse?, toList_compact, hread]
  rfl

end read

end Json

end TableLexer
