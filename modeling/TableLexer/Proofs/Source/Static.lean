import TableLexer.Proofs.Source.Token

/-! The statics that Rust source declares, with the literals of their values. -/
namespace TableLexer

namespace Source

inductive Literal where
  | number (n : Int)
  | option (n? : Option Nat)
  | text (value : String)
deriving DecidableEq

/-- A static with its name and the tokens of its type, or of the type of its items. -/
inductive Static where
  | single (name : String) (type : List Token) (value : Literal)
  | array (name : String) (type : List Token) (length : Nat) (items : List Literal)
deriving DecidableEq

def number? (word : String) : Option Nat :=
  if word.toList ≠ [] ∧ word.toList.all Char.isDigit then some (Json.digitsValue word.toList) else none

def literal? (tokens : List Token) : Option Literal :=
  match tokens with
  | [.text value] => some (.text value)
  | [.word word] =>
    if word = "None" then some (.option none) else (number? word).map fun n => .number n
  | [.mark '-', .word word] => (number? word).map fun n => .number (-n)
  | [.word constructor, .mark '(', .word word, .mark ')'] =>
    if constructor = "Some" then (number? word).map fun n => .option n else none
  | _ => none

/-- The tokens of each item up to a closing bracket, after those of an item that have been read before, and what
follows the bracket. -/
def items? (item tokens : List Token) : Option (List (List Token) × List Token) :=
  match tokens with
  | [] => none
  | token :: rest =>
    if token = .mark ']' then some (if item = [] then [] else [item], rest)
    else if token = .mark ',' then (items? [] rest).map fun (items, rest) => (item :: items, rest)
    else items? (item ++ [token]) rest

def single? (name : String) (tokens : List Token) : Option Static :=
  match tokens.dropWhile (· ≠ .mark '=') with
  | _ :: rest =>
    if .mark ';' ∈ rest then
      (literal? (rest.takeWhile (· ≠ .mark ';'))).map (.single name (tokens.takeWhile (· ≠ .mark '=')))
    else none
  | [] => none

/-- The array of the given type and length whose items come next. -/
def arrayOf? (name : String) (type : List Token) (length : String) (tokens : List Token) : Option Static := do
  let length ← number? length
  let (items, rest) ← items? [] tokens
  let items ← items.mapM literal?
  if rest.head? = some (.mark ';') then some (.array name type length items) else none

def array? (name : String) (tokens : List Token) : Option Static :=
  match tokens.dropWhile (· ≠ .mark ';') with
  | .mark ';' :: .word length :: .mark ']' :: .mark '=' :: .mark '[' :: rest =>
    arrayOf? name (tokens.takeWhile (· ≠ .mark ';')) length rest
  | _ => none

/-- The public static whose declaration starts here. -/
def static? (tokens : List Token) : Option Static :=
  match tokens with
  | .word visibility :: .word kind :: .word name :: .mark ':' :: rest =>
    if visibility = "pub" ∧ kind = "static" then
      match rest with
      | .mark '[' :: rest => array? name rest
      | _ => single? name rest
    else none
  | _ => none

/-- The statics that are declared anywhere among the tokens. -/
def statics (tokens : List Token) : List Static :=
  match tokens with
  | [] => []
  | token :: rest => (static? (token :: rest)).toList ++ statics rest

/-- The statics that a source declares. -/
def declared (source : String) : List Static := statics (tokens source)

namespace Literal

def source (literal : Literal) : String :=
  match literal with
  | .number n => toString n
  | .option n? => n?.elim "None" fun n => s!"Some({n})"
  | .text value => Text.quoted value

def tokens (literal : Literal) : List Token :=
  match literal with
  | .number (.ofNat n) => [.word (toString n)]
  | .number (.negSucc n) => [.mark '-', .word (toString (n + 1))]
  | .option none => [.word "None"]
  | .option (some n) => [.word "Some", .mark '(', .word (toString n), .mark ')']
  | .text value => [.text value]

end Literal

/-- The tokens of a declaration. -/
def Static.tokens (static : Static) : List Token :=
  match static with
  | .single name type value =>
    .word "pub" :: .word "static" :: .word name :: .mark ':' ::
      (type ++ .mark '=' :: (value.tokens ++ [.mark ';']))
  | .array name type length items =>
    .word "pub" :: .word "static" :: .word name :: .mark ':' :: .mark '[' ::
      (type ++ .mark ';' :: .word (toString length) :: .mark ']' :: .mark '=' :: .mark '[' ::
        (items.flatMap (·.tokens ++ [.mark ',']) ++ [.mark ']', .mark ';']))

/-- What tells a declaration from what follows its name, or its type, does not occur in them. -/
def Static.Plain (static : Static) : Prop :=
  match static with
  | .single name type _ | .array name type _ _ =>
    name ≠ "pub" ∧ ∀ token ∈ type, token ∉ [Token.word "pub", .mark '[', .mark '=', .mark ';']

/-- As many items are listed as are declared. -/
def Static.Counted (static : Static) : Prop :=
  match static with
  | .single _ _ _ => True
  | .array _ _ length items => length = items.length

variable {more : String} {made : List Token}

private theorem toList_decimal (n : Nat) : (toString n).toList = Nat.toDigits 10 n := Nat.toList_repr

private theorem decimal_ne_nil (n : Nat) : (toString n).toList ≠ [] := by
  rw [toList_decimal]
  exact Nat.toDigits_ne_nil

private theorem isWord_decimal (n : Nat) : isWord (toString n) = true := by
  refine isWord_iff.2 ⟨decimal_ne_nil n, fun c hc => ?_⟩
  rw [toList_decimal] at hc
  simp [isWordChar, Char.isAlphanum, Json.isDigit_of_mem_decimal hc]

private theorem number?_decimal (n : Nat) : number? (toString n) = some n := by
  have hdigits : (toString n).toList.all Char.isDigit = true := by
    rw [toList_decimal, List.all_eq_true]
    exact fun c hc => Json.isDigit_of_mem_decimal hc
  rw [number?, if_pos ⟨decimal_ne_nil n, hdigits⟩, toList_decimal, Json.digitsValue_decimal]

private theorem decimal_ne (n : Nat) {word : String} (h : number? word = none) : toString n ≠ word := by
  rintro rfl
  rw [number?_decimal] at h
  contradiction

theorem Spells.decimal_append (n : Nat) (hmore : delimits more = true) (h : Spells more made) :
    Spells (toString n ++ more) (.word (toString n) :: made) :=
  h.word_append (isWord_decimal n) hmore

/-- A literal is read as what it has been written for, if something else than a word follows. -/
theorem Literal.spells (literal : Literal) (hmore : delimits more = true) (h : Spells more made) :
    Spells (literal.source ++ more) (literal.tokens ++ made) := by
  match literal with
  | .number (.ofNat n) => exact h.decimal_append n hmore
  | .number (.negSucc n) =>
    have hsign : Spells "-" [.mark '-'] := by decide
    show Spells ("-" ++ toString (n + 1) ++ more) _
    rw [String.append_assoc]
    exact hsign.append (h.decimal_append (n + 1) hmore)
  | .option none => exact h.word_append (by decide) hmore
  | .option (some n) =>
    have hopen : Spells "Some(" [.word "Some", .mark '('] := by decide
    have hclose : Spells ")" [.mark ')'] := by decide
    show Spells ("Some(" ++ toString n ++ ")" ++ more) _
    rw [String.append_assoc, String.append_assoc]
    exact hopen.append ((hclose.append h).decimal_append n (delimits_append (by decide) more))
  | .text value => exact (spells_quoted value).append h

private theorem literal?_tokens (literal : Literal) : literal? literal.tokens = some literal := by
  match literal with
  | .number (.ofNat n) =>
    have hne : toString n ≠ "None" := decimal_ne n (by decide)
    rw [Literal.tokens, literal?, if_neg hne, number?_decimal]
    rfl
  | .number (.negSucc n) =>
    rw [Literal.tokens, literal?, number?_decimal]
    rfl
  | .option none => rfl
  | .option (some n) =>
    rw [Literal.tokens, literal?, if_pos rfl, number?_decimal]
    rfl
  | .text value => rfl

/-- No token of a literal separates it from others. -/
private theorem Literal.plain (literal : Literal) :
    ∀ token ∈ literal.tokens, token ∉ [Token.word "pub", .mark ']', .mark ',', .mark ';'] := by
  have hdecimal : ∀ n : Nat, n.repr ≠ "pub" := fun n => decimal_ne n (by decide)
  match literal with
  | .number (.ofNat n) => simp [Literal.tokens, hdecimal]
  | .number (.negSucc n) => simp [Literal.tokens, hdecimal]
  | .option none => decide
  | .option (some n) => simp [Literal.tokens, hdecimal]
  | .text value => simp [Literal.tokens]

private theorem items?_append {tokens : List Token} (htokens : ∀ token ∈ tokens, token ≠ .mark ']' ∧ token ≠ .mark ',')
    (item rest : List Token) : items? item (tokens ++ rest) = items? (item ++ tokens) rest := by
  induction tokens generalizing item with
  | nil => rw [List.append_nil, List.nil_append]
  | cons token tokens ih =>
    obtain ⟨⟨hbracket, hcomma⟩, htokens⟩ := List.forall_mem_cons.1 htokens
    rw [List.cons_append, items?, if_neg hbracket, if_neg hcomma, ih htokens, List.append_assoc]
    rfl

private theorem items?_flatMap (items : List Literal) (rest : List Token) :
    items? [] (items.flatMap (·.tokens ++ [.mark ',']) ++ .mark ']' :: rest) =
      some (items.map Literal.tokens, rest) := by
  induction items with
  | nil => rfl
  | cons literal items ih =>
    have hplain : ∀ token ∈ literal.tokens, token ≠ .mark ']' ∧ token ≠ .mark ',' := by
      intro token htoken
      have hnot := literal.plain token htoken
      simp only [List.mem_cons, not_or] at hnot
      exact ⟨hnot.2.1, hnot.2.2.1⟩
    rw [List.flatMap_cons, List.append_assoc, List.append_assoc, items?_append hplain, List.nil_append,
      List.singleton_append, items?, if_neg (by decide), if_pos rfl, ih]
    rfl

private theorem mapM_literal? (items : List Literal) : (items.map Literal.tokens).mapM literal? = some items := by
  induction items with
  | nil => rfl
  | cons literal items ih => simp [literal?_tokens, ih]

section span

variable {tokens : List Token} {stop : Token}

private theorem takeWhile_ne_append (h : stop ∉ tokens) (rest : List Token) :
    (tokens ++ stop :: rest).takeWhile (· ≠ stop) = tokens := by
  have hne : ∀ token ∈ tokens, decide (token ≠ stop) = true := by
    intro token htoken
    exact decide_eq_true (ne_of_mem_of_not_mem htoken h)
  rw [List.takeWhile_append_of_pos hne, List.takeWhile_cons_of_neg (by simp), List.append_nil]

private theorem dropWhile_ne_append (h : stop ∉ tokens) (rest : List Token) :
    (tokens ++ stop :: rest).dropWhile (· ≠ stop) = stop :: rest := by
  have hne : ∀ token ∈ tokens, decide (token ≠ stop) = true := by
    intro token htoken
    exact decide_eq_true (ne_of_mem_of_not_mem htoken h)
  rw [List.dropWhile_append_of_pos hne, List.dropWhile_cons_of_neg (by simp)]

end span

private theorem Literal.not_mem_tokens (literal : Literal) {token : Token}
    (h : token ∈ [Token.word "pub", .mark ']', .mark ',', .mark ';']) : token ∉ literal.tokens :=
  fun hmem => literal.plain token hmem h

private theorem single?_tokens (name : String) {type : List Token} (h : .mark '=' ∉ type) (value : Literal)
    (rest : List Token) :
    single? name (type ++ .mark '=' :: (value.tokens ++ .mark ';' :: rest)) = some (.single name type value) := by
  have hvalue : Token.mark ';' ∉ value.tokens := value.not_mem_tokens (by simp)
  rw [single?, dropWhile_ne_append h, takeWhile_ne_append h]
  dsimp only
  rw [if_pos (by simp), takeWhile_ne_append hvalue, literal?_tokens]
  rfl

private theorem array?_tokens (name : String) {type : List Token} (h : .mark ';' ∉ type) (length : Nat)
    (items : List Literal) (rest : List Token) :
    array? name (type ++ .mark ';' :: .word (toString length) :: .mark ']' :: .mark '=' :: .mark '[' ::
      (items.flatMap (·.tokens ++ [.mark ',']) ++ .mark ']' :: .mark ';' :: rest)) =
        some (.array name type length items) := by
  rw [array?, dropWhile_ne_append h, takeWhile_ne_append h]
  show arrayOf? name type (toString length) _ = _
  rw [arrayOf?, number?_decimal, Option.bind_eq_bind, Option.bind_some, items?_flatMap, Option.bind_eq_bind,
    Option.bind_some]
  dsimp only
  rw [mapM_literal?]
  rfl

/-- A declaration is read as what it declares, whatever follows. -/
theorem static?_tokens {static : Static} (h : static.Plain) (rest : List Token) :
    static? (static.tokens ++ rest) = some static := by
  match static with
  | .single name type value =>
    have hequals : Token.mark '=' ∉ type := fun hmem => h.2 _ hmem (by simp)
    have hread := single?_tokens name hequals value rest
    simp only [Static.tokens, List.cons_append, List.append_assoc, List.nil_append]
    cases type with
    | nil => exact hread
    | cons token type =>
      have hbracket : token ≠ .mark '[' := fun heq => h.2 token List.mem_cons_self (by simp [heq])
      rw [static?, if_pos ⟨rfl, rfl⟩, hread]
      exact fun _ heq => hbracket (List.cons.inj heq).1
  | .array name type length items =>
    have hsemicolon : Token.mark ';' ∉ type := fun hmem => h.2 _ hmem (by simp)
    simp only [Static.tokens, List.cons_append, List.append_assoc, List.nil_append]
    exact array?_tokens name hsemicolon length items rest

private theorem static?_cons_of_ne {token : Token} (h : token ≠ .word "pub") (rest : List Token) :
    static? (token :: rest) = none := by
  unfold static?
  split
  · next heq =>
    rw [if_neg]
    rintro ⟨rfl, -⟩
    exact h (List.cons.inj heq).1
  · rfl

theorem statics_append_of_not_mem {skipped : List Token} (h : Token.word "pub" ∉ skipped) (rest : List Token) :
    statics (skipped ++ rest) = statics rest := by
  induction skipped with
  | nil => rfl
  | cons token skipped ih =>
    have htoken : token ≠ .word "pub" := fun heq => h (heq ▸ List.mem_cons_self)
    rw [List.cons_append, statics, static?_cons_of_ne htoken, ih fun hmem => h (List.mem_cons_of_mem _ hmem)]
    rfl

private theorem Static.Plain.exists_cons {static : Static} (h : static.Plain) :
    ∃ more, static.tokens = .word "pub" :: more ∧ Token.word "pub" ∉ more := by
  have hvalue : ∀ value : Literal, Token.word "pub" ∉ value.tokens := fun value => value.not_mem_tokens (by simp)
  match static with
  | .single name type value =>
    refine ⟨_, rfl, ?_⟩
    have htype : Token.word "pub" ∉ type := fun hmem => h.2 _ hmem (by simp)
    simp [h.1.symm, htype, hvalue]
  | .array name type length items =>
    refine ⟨_, rfl, ?_⟩
    have htype : Token.word "pub" ∉ type := fun hmem => h.2 _ hmem (by simp)
    have hlength : "pub" ≠ length.repr := (decimal_ne length (by decide)).symm
    simp [h.1.symm, htype, hlength, hvalue]

private theorem statics_append {static : Static} (h : static.Plain) (rest : List Token) :
    statics (static.tokens ++ rest) = static :: statics rest := by
  obtain ⟨more, hmore, hpub⟩ := h.exists_cons
  have hread := static?_tokens h rest
  rw [hmore, List.cons_append] at hread ⊢
  rw [statics, hread, statics_append_of_not_mem hpub]
  rfl

/-- Declarations are read as what they declare, in their order. -/
theorem statics_flatMap {declarations : List Static} (h : ∀ static ∈ declarations, static.Plain)
    (rest : List Token) : statics (declarations.flatMap Static.tokens ++ rest) = declarations ++ statics rest := by
  induction declarations with
  | nil => rfl
  | cons static declarations ih =>
    obtain ⟨hstatic, hdeclarations⟩ := List.forall_mem_cons.1 h
    rw [List.flatMap_cons, List.append_assoc, statics_append hstatic, ih hdeclarations]
    rfl

end Source

end TableLexer
